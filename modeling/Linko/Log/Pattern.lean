import Linko.Log.Formatter
/-!
# Patterns that are read back

A pattern as the items it was written from, and what `init` makes of its text.
The lemmas about `scanDirective` come first, one for each way a directive ends.
-/

namespace Linko.Log

open CString

/-! ## Directives -/

/-- A byte that does not end the name of a directive. -/
def inName (c : UInt8) : Bool := isalnum c || c = 125

theorem inName_goes_on {c : UInt8} (h : inName c = true) : c ≠ 123 ∧ ¬ (isalnum c = false ∧ c ≠ 123 ∧ c ≠ 125) := by
  constructor
  · rintro rfl
    exact absurd h (by decide)
  · rintro ⟨hal, -, hne⟩
    simp [inName, hal, hne] at h

/-- The name is read byte by byte; at the end of the pattern it is all of it. -/
theorem scanDirective_name {name rest : Bytes} (h : ∀ c ∈ name, inName c = true) (hrest : rest ≠ []) (all : Bytes)
    (n : Nat) :
    scanDirective all (name ++ rest) n false 0 [] [] = scanDirective all rest (n + name.length) false 0 [] [] := by
  induction name generalizing n with
  | nil => rfl
  | cons c name ih =>
    obtain ⟨hc, hname⟩ := List.forall_mem_cons.1 h
    obtain ⟨hopen, hin⟩ := inName_goes_on hc
    have hmore : name ++ rest ≠ [] := by simp [hrest]
    rw [List.cons_append, scanDirective, if_neg (by simpa using hin), if_neg (by simp [hopen]), if_neg (by simp),
      if_neg (by simp [hmore]), ih hname, List.length_cons]
    congr 1
    omega

theorem scanDirective_whole {name : Bytes} (h : ∀ c ∈ name, inName c = true) :
    scanDirective name name 0 false 0 [] [] = (false, name, [], name.length) := by
  rcases List.eq_nil_or_concat' name with rfl | ⟨front, c, rfl⟩
  · rfl
  · have hfront : ∀ b ∈ front, inName b = true := fun b hb => h b (List.mem_append_left _ hb)
    obtain ⟨hopen, hin⟩ := inName_goes_on (h c (List.mem_append_right _ List.mem_cons_self))
    rw [scanDirective_name hfront (by simp), scanDirective, if_neg (by simpa using hin), if_neg (by simp [hopen]),
      if_neg (by simp), if_pos (by simp), scanDirective]
    simp

theorem scanDirective_stops {name rest : Bytes} {c : UInt8} (h : ∀ b ∈ name, inName b = true)
    (hc : inName c = false) (hopen : c ≠ 123) :
    scanDirective (name ++ c :: rest) (name ++ c :: rest) 0 false 0 [] [] = (false, name, [], name.length) := by
  have hend : isalnum c = false ∧ c ≠ 123 ∧ c ≠ 125 := by
    simp only [inName, Bool.or_eq_false_iff, decide_eq_false_iff_not] at hc
    exact ⟨hc.1, hopen, hc.2⟩
  rw [scanDirective_name h (by simp), scanDirective, if_pos ⟨rfl, hend⟩]
  simp

/-- The loop behind an open brace. -/
theorem scanDirective_open {all arg rest : Bytes} (h : 125 ∉ arg) (n b : Nat) (str : Bytes) :
    scanDirective all (arg ++ 125 :: rest) n true b str [] =
      (false, str, (all.drop (b + 1)).take (n + arg.length - b - 1), n + arg.length + 1) := by
  induction arg generalizing n with
  | nil =>
    rw [List.nil_append, scanDirective]
    simp
  | cons c arg ih =>
    rw [List.mem_cons, not_or] at h
    rw [List.cons_append, scanDirective, if_neg (by simp), if_neg (by simp), if_neg (by simp [Ne.symm h.1]),
      if_neg (by simp), ih h.2, List.length_cons]
    simp only [Nat.add_assoc, Nat.add_comm 1]

theorem scanDirective_never {more : Bytes} (h : 125 ∉ more) (all : Bytes) (n b : Nat) (str fmt : Bytes) :
    (scanDirective all more n true b str fmt).1 = true := by
  induction more generalizing n str with
  | nil => rfl
  | cons c more ih =>
    rw [List.mem_cons, not_or] at h
    rw [scanDirective, if_neg (by simp), if_neg (by simp), if_neg (by simp [Ne.symm h.1])]
    exact ih h.2 _ _

theorem scanDirective_brace {all name rest : Bytes} (h : ∀ c ∈ name, inName c = true)
    (hall : all = name ++ 123 :: rest) :
    scanDirective all all 0 false 0 [] [] = scanDirective all rest (name.length + 1) true name.length name [] := by
  have hname := scanDirective_name h (List.cons_ne_nil 123 rest) all 0
  rw [← hall] at hname
  rw [hname, Nat.zero_add, scanDirective, if_neg (by simp [isalnum]), if_pos ⟨rfl, rfl⟩, hall]
  simp

theorem scanDirective_braced {name arg rest : Bytes} (h : ∀ c ∈ name, inName c = true) (harg : 125 ∉ arg) :
    scanDirective (name ++ 123 :: (arg ++ 125 :: rest)) (name ++ 123 :: (arg ++ 125 :: rest)) 0 false 0 [] [] =
      (false, name, arg, name.length + arg.length + 2) := by
  rw [scanDirective_brace h rfl, scanDirective_open harg]
  have hdrop : (name ++ 123 :: (arg ++ 125 :: rest)).drop (name.length + 1) = arg ++ 125 :: rest := by
    rw [← List.drop_drop, List.drop_left]
    rfl
  have hlen : name.length + 1 + arg.length - name.length - 1 = arg.length := by omega
  rw [hdrop, hlen, List.take_left]
  simp only [Prod.mk.injEq, true_and]
  omega

/-- What is left behind a directive with an argument. -/
theorem drop_braced (name arg rest : Bytes) :
    (name ++ 123 :: (arg ++ 125 :: rest)).drop (name.length + arg.length + 2) = rest := by
  have hwhole : name ++ 123 :: (arg ++ 125 :: rest) = (name ++ 123 :: (arg ++ [125])) ++ rest := by simp
  rw [hwhole]
  refine List.drop_left' ?_
  simp only [List.length_append, List.length_cons, List.length_nil]
  omega

/-! ## Literals -/

theorem scan_text {nstr l rest : Bytes} (h : 37 ∉ l) : scan nstr (l ++ rest) = scan (nstr ++ l) rest := by
  induction l generalizing nstr with
  | nil => simp
  | cons c l ih =>
    rw [List.mem_cons, not_or] at h
    rw [List.cons_append, scan, if_pos (Ne.symm h.1), ih h.2, List.append_assoc, List.singleton_append]

/-- A directive that is closed is put behind the literal before it. -/
theorem scan_directive {nstr rest str fmt : Bytes} {n : Nat} (hhead : rest.head? ≠ some 37)
    (h : scanDirective rest rest 0 false 0 [] [] = (false, str, fmt, n)) :
    scan nstr (37 :: rest) =
      (literal nstr ++ .directive str fmt :: (scan [] (rest.drop n)).1, (scan [] (rest.drop n)).2) := by
  rw [scan, if_neg (by simp), if_neg hhead]
  simp [h]

/-! ## Items -/

/-- The directives that are known. -/
inductive Directive where
  | message | level | elapse | name | threadId | newLine | dataTime | filename | line | tab | fiberId | threadName
  deriving DecidableEq, Repr

namespace Directive

def letter : Directive → UInt8
  | .message => 109
  | .level => 112
  | .elapse => 114
  | .name => 99
  | .threadId => 116
  | .newLine => 110
  | .dataTime => 100
  | .filename => 102
  | .line => 108
  | .tab => 84
  | .fiberId => 70
  | .threadName => 78

/-- What the directive stands for; only the date looks at the argument. -/
def formatItem (arg : Bytes) : Directive → FormatItem
  | .message => .message
  | .level => .level
  | .elapse => .elapse
  | .name => .name
  | .threadId => .threadId
  | .newLine => .newLine
  | .dataTime => DataTimeFormatItem arg
  | .filename => .filename
  | .line => .line
  | .tab => .tab
  | .fiberId => .fiberId
  | .threadName => .threadName

theorem letter_alnum (d : Directive) : isalnum d.letter = true := by cases d <;> decide

theorem inName_letter (d : Directive) : ∀ c ∈ [d.letter], inName c = true := by
  simp [inName, d.letter_alnum]

theorem letter_ne (d : Directive) : d.letter ≠ 37 := by cases d <;> decide

/-- The table knows exactly the twelve. -/
theorem find_letter (d : Directive) (arg : Bytes) :
    (formatItems.find? fun i => i.1 = [d.letter]).map (fun i => i.2 arg) = some (d.formatItem arg) := by
  cases d <;> rfl

theorem exists_of_find {str arg : Bytes} {it : FormatItem}
    (h : (formatItems.find? fun i => i.1 = str).map (fun i => i.2 arg) = some it) :
    ∃ d : Directive, str = [d.letter] ∧ it = d.formatItem arg := by
  obtain ⟨i, hi, rfl⟩ := Option.map_eq_some_iff.1 h
  have hname : i.1 = str := by simpa using List.find?_some hi
  have hmem := List.mem_of_find?_eq_some hi
  have hall : ∀ j ∈ formatItems, ∃ d : Directive, j.1 = [d.letter] := by
    simp only [formatItems, List.forall_mem_cons]
    exact ⟨⟨.message, rfl⟩, ⟨.level, rfl⟩, ⟨.elapse, rfl⟩, ⟨.name, rfl⟩, ⟨.threadId, rfl⟩, ⟨.newLine, rfl⟩,
      ⟨.dataTime, rfl⟩, ⟨.filename, rfl⟩, ⟨.line, rfl⟩, ⟨.tab, rfl⟩, ⟨.fiberId, rfl⟩, ⟨.threadName, rfl⟩, nofun⟩
  obtain ⟨d, hd⟩ := hall i hmem
  obtain rfl : [d.letter] = str := hd.symm.trans hname
  rw [d.find_letter] at h
  exact ⟨d, rfl, (Option.some.inj h).symm⟩

end Directive

inductive Item where
  | text (str : Bytes)
  | bare (d : Directive)
  | braced (d : Directive) (arg : Bytes)
  deriving DecidableEq, Repr

namespace Item

/-- How an item is written. -/
def written : Item → Bytes
  | .text str => str
  | .bare d => [37, d.letter]
  | .braced d arg => 37 :: d.letter :: 123 :: (arg ++ [125])

/-- The entry of `vec` for it. -/
def piece : Item → Piece
  | .text str => .text str
  | .bare d => .directive [d.letter] []
  | .braced d arg => .directive [d.letter] arg

/-- What it stands for. -/
def formatItem : Item → FormatItem
  | .text str => .string str
  | .bare d => d.formatItem []
  | .braced d arg => d.formatItem arg

def Valid : Item → Prop
  | .text str => str ≠ [] ∧ 37 ∉ str
  | .bare _ => True
  | .braced _ arg => 125 ∉ arg

instance : DecidablePred Valid
  | .text str => inferInstanceAs (Decidable (str ≠ [] ∧ 37 ∉ str))
  | .bare _ => inferInstanceAs (Decidable True)
  | .braced _ arg => inferInstanceAs (Decidable (125 ∉ arg))

/-- Two items that may stand side by side: a text does not go on where another
text or the name of a directive ends. -/
def Beside : Item → Item → Prop
  | .text _, .text _ => False
  | .bare _, .text str => ∀ c ∈ str.head?, isalnum c = false ∧ c ≠ 123 ∧ c ≠ 125
  | _, _ => True

instance : DecidableRel Beside
  | .text _, .text _ => inferInstanceAs (Decidable False)
  | .bare _, .text [] => .isTrue nofun
  | .bare _, .text (c :: _) =>
    decidable_of_iff (isalnum c = false ∧ c ≠ 123 ∧ c ≠ 125) ⟨fun h _ hc => Option.some.inj hc ▸ h, fun h => h c rfl⟩
  | .text _, .bare _ | .text _, .braced _ _ | .bare _, .bare _ | .bare _, .braced _ _ | .braced _ _, _ =>
    inferInstanceAs (Decidable True)

theorem item_piece (i : Item) : i.piece.item = some i.formatItem := by
  cases i with
  | text str => rfl
  | bare d => exact d.find_letter []
  | braced d arg => exact d.find_letter arg

end Item

/-- The pattern of a list of items. -/
def patternOf (items : List Item) : Bytes := items.flatMap Item.written

/-- A list of items that can be told from its pattern. -/
structure WellFormed (items : List Item) : Prop where
  valid : ∀ i ∈ items, i.Valid
  beside : items.IsChain Item.Beside

theorem WellFormed.tail {i : Item} {items : List Item} (h : WellFormed (i :: items)) : WellFormed items :=
  ⟨(List.forall_mem_cons.1 h.valid).2, h.beside.of_cons⟩

/-! ## Reading them back -/

/-- Behind a bare directive stands the end, another directive or a text that
ends its name. -/
theorem scan_bare {d : Directive} {items : List Item} (h : WellFormed (.bare d :: items)) :
    scanDirective (d.letter :: patternOf items) (d.letter :: patternOf items) 0 false 0 [] [] =
      (false, [d.letter], [], 1) := by
  have hstop : ∀ {c : UInt8} {rest : Bytes}, isalnum c = false → c ≠ 123 → c ≠ 125 →
      scanDirective (d.letter :: c :: rest) (d.letter :: c :: rest) 0 false 0 [] [] =
        (false, [d.letter], [], 1) := by
    intro c rest hal hopen hclose
    exact scanDirective_stops d.inName_letter (by simp [inName, hal, hclose]) hopen
  cases items with
  | nil => exact scanDirective_whole d.inName_letter
  | cons i items =>
    cases i with
    | text str =>
      obtain ⟨hne, -⟩ := (List.forall_mem_cons.1 h.tail.valid).1
      obtain ⟨c, str, rfl⟩ := List.exists_cons_of_ne_nil hne
      have hbeside : Item.Beside (.bare d) (.text (c :: str)) := (List.isChain_cons_cons.1 h.beside).1
      obtain ⟨hal, hopen, hclose⟩ := hbeside c rfl
      exact hstop hal hopen hclose
    | bare e => exact hstop (c := 37) rfl (by decide) (by decide)
    | braced e arg => exact hstop (c := 37) rfl (by decide) (by decide)

/-- `nstr` is a text that has been read and not yet stored. -/
theorem scan_items {items : List Item} (h : WellFormed items) {nstr : Bytes}
    (hn : nstr = [] ∨ ∀ str, items.head? ≠ some (.text str)) :
    scan nstr (patternOf items) = (literal nstr ++ items.map Item.piece, false) := by
  induction items generalizing nstr with
  | nil =>
    rw [patternOf, List.flatMap_nil, scan]
    simp
  | cons i items ih =>
    cases i with
    | text str =>
      obtain rfl : nstr = [] := hn.resolve_right fun hno => hno str rfl
      obtain ⟨hne, hpct⟩ := (List.forall_mem_cons.1 h.valid).1
      have hnext : ∀ str', items.head? ≠ some (.text str') := by
        intro str' hhead
        obtain ⟨rest, rfl⟩ := List.head?_eq_some_iff.1 hhead
        exact (List.isChain_cons_cons.1 h.beside).1
      show scan [] (str ++ patternOf items) = _
      rw [scan_text hpct, List.nil_append, ih h.tail (.inr hnext)]
      simp [literal, hne, Item.piece]
    | bare d =>
      show scan nstr (37 :: d.letter :: patternOf items) = _
      rw [scan_directive (by simp [d.letter_ne]) (scan_bare h), List.drop_one, List.tail_cons,
        ih h.tail (.inl rfl)]
      simp [literal, Item.piece]
    | braced d arg =>
      have harg : 125 ∉ arg := (List.forall_mem_cons.1 h.valid).1
      have hscan : scanDirective (d.letter :: 123 :: (arg ++ 125 :: patternOf items))
          (d.letter :: 123 :: (arg ++ 125 :: patternOf items)) 0 false 0 [] [] =
            (false, [d.letter], arg, 1 + arg.length + 2) := scanDirective_braced d.inName_letter harg
      have hdrop : (d.letter :: 123 :: (arg ++ 125 :: patternOf items)).drop (1 + arg.length + 2) =
          patternOf items := drop_braced [d.letter] arg (patternOf items)
      have hwritten : patternOf (.braced d arg :: items) = 37 :: d.letter :: 123 :: (arg ++ 125 :: patternOf items) := by
        simp [patternOf, Item.written]
      rw [hwritten, scan_directive (by simp [d.letter_ne]) hscan, hdrop, ih h.tail (.inl rfl)]
      simp [literal, Item.piece]

/-- The pattern of a list of items is read without an error, and `init` finds
exactly these items. -/
theorem reads_items {items : List Item} (h : WellFormed items) :
    scan [] (patternOf items) = (items.map Item.piece, false) ∧
      (LogFormatter.new (patternOf items)).isError = false ∧
      (LogFormatter.new (patternOf items)).items = items.map Item.formatItem := by
  have hscan : scan [] (patternOf items) = (items.map Item.piece, false) := scan_items h (.inl rfl)
  refine ⟨hscan, ?_, ?_⟩
  · simp [LogFormatter.isError, LogFormatter.new, hscan, Item.item_piece]
  · simp [LogFormatter.new, hscan, Item.item_piece]

/-- The pattern `[%p] %d{%H:%M}%n`. -/
theorem reads_items_levelDate :
    (LogFormatter.new (ascii "[%p] %d{%H:%M}%n")).items =
      [.string (ascii "["), .level, .string (ascii "] "), .dataTime (ascii "%H:%M"), .newLine] := by
  have h : WellFormed [.text (ascii "["), .bare .level, .text (ascii "] "), .braced .dataTime (ascii "%H:%M"),
      .bare .newLine] := ⟨by decide, by decide⟩
  exact (reads_items h).2.2

end Linko.Log
