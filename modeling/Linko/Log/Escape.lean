import Linko.Log.Event
import Linko.Log.Pattern
/-!
# Literal texts

The pattern for a text has every `%` twice. `init` puts one `%` into the literal
and reads the other as the begin of a directive.
-/

namespace Linko.Log

open CString

/-- The pattern for a text. -/
def escaped (s : Bytes) : Bytes := s.flatMap fun b => if b = 37 then [37, 37] else [b]

/-- The pattern is accepted, and every event is formatted to the text. -/
def LogsText (clock : Clock) (s : Bytes) : Prop :=
  (LogFormatter.new (escaped s)).isError = false ∧
    ∀ level event, (LogFormatter.new (escaped s)).format clock level event = some s

theorem escaped_append (a b : Bytes) : escaped (a ++ b) = escaped a ++ escaped b := List.flatMap_append

theorem escaped_percent (s : Bytes) : escaped (37 :: s) = 37 :: 37 :: escaped s := rfl

theorem escaped_cons {b : UInt8} (hb : b ≠ 37) (s : Bytes) : escaped (b :: s) = b :: escaped s := by
  simp [escaped, hb]

theorem escaped_plain {s : Bytes} (h : 37 ∉ s) : escaped s = s := by
  induction s with
  | nil => rfl
  | cons b s ih =>
    rw [List.mem_cons, not_or] at h
    rw [escaped_cons (Ne.symm h.1), ih h.2]

theorem mem_escaped {b : UInt8} {s : Bytes} : b ∈ escaped s ↔ b ∈ s := by
  induction s with
  | nil => rfl
  | cons c s ih =>
    by_cases hc : c = 37
    · subst hc
      rw [escaped_percent]
      simp [ih]
    · rw [escaped_cons hc]
      simp [ih]

/-- `strftime` undoes it. -/
theorem strftime_escaped (clock : Clock) (tm : Tm) (s : Bytes) : strftime clock tm (escaped s) = s := by
  induction s with
  | nil => rw [escaped, List.flatMap_nil, strftime]
  | cons b s ih =>
    by_cases hb : b = 37
    · subst hb
      rw [escaped_percent, strftime, if_neg (by simp)]
      simp [Clock.convert, ih]
    · rw [escaped_cons hb, strftime, if_pos hb, ih]

theorem cstr_escaped (s : Bytes) : cstr (escaped s) = escaped (cstr s) := by
  induction s with
  | nil => rfl
  | cons b s ih =>
    unfold cstr at *
    by_cases hb : b = 37
    · subst hb
      rw [escaped_percent, List.takeWhile_cons, List.takeWhile_cons, List.takeWhile_cons, ih]
      rfl
    · rw [escaped_cons hb, List.takeWhile_cons, List.takeWhile_cons, ih]
      split
      · rw [escaped_cons hb]
      · rfl

/-! ## An event that tells -/

/-- No text of it ends with a letter of a directive or a brace. -/
def marked : LogEvent := ⟨[120], 0, 0, 0, 0, 0, [120], [120], [120]⟩

/-- The last byte of a directive with the argument `fmt`. -/
def EndOf (d : Directive) (fmt : Bytes) (b : UInt8) : Prop :=
  (b = d.letter ∧ fmt = []) ∨ (b = 125 ∧ ∃ arg, fmt = escaped arg ∧ 125 ∉ arg)

theorem EndOf.bounds {d : Directive} {fmt : Bytes} {b : UInt8} (h : EndOf d fmt b) :
    57 < b ∧ b ≠ 120 ∧ b ≠ 71 := by
  rcases h with ⟨rfl, -⟩ | ⟨rfl, -⟩
  · cases d <;> decide
  · decide

theorem getLast_digit {text front : Bytes} {b c : UInt8} (htext : text = front ++ [c]) (hc : 48 ≤ c ∧ c ≤ 57)
    (hb : 57 < b) : text.getLast? ≠ some b := by
  rw [htext, List.getLast?_concat]
  rintro ⟨rfl⟩
  exact absurd (UInt8.lt_of_lt_of_le hb hc.2) (UInt8.lt_irrefl _)

theorem getLast_default {clock : Clock} {time : UInt64} {text : Bytes} {b : UInt8} (hb : 57 < b)
    (h : dataTimeText clock time (ascii "%Y-%m-%d %H:%M:%S") = some text) : text.getLast? ≠ some b := by
  obtain ⟨tm, rfl⟩ := dataTimeText_some h
  obtain ⟨front, c, hc, hdigit⟩ := strftime_default clock tm
  exact getLast_digit hc hdigit hb

/-- The argument is written as it is, up to a NUL. -/
theorem getLast_date {clock : Clock} {time : UInt64} {arg text : Bytes} {b : UInt8} (hb : b ∉ arg)
    (h : dataTimeText clock time (escaped arg) = some text) : text.getLast? ≠ some b := by
  obtain ⟨tm, rfl⟩ := dataTimeText_some h
  rw [cstr_escaped, strftime_escaped]
  intro hlast
  exact hb ((List.takeWhile_subset _) (List.mem_of_getLast? hlast))

theorem getLast_item {clock : Clock} {d : Directive} {fmt text : Bytes} {b : UInt8} (hb : EndOf d fmt b)
    (h : (d.formatItem fmt).format clock .debug marked = some text) : text.getLast? ≠ some b := by
  obtain ⟨hdigit, hx, hG⟩ := hb.bounds
  cases d with
  | message | name | filename | threadName =>
    obtain rfl := Option.some.inj h
    simpa [marked] using Ne.symm hx
  | level =>
    obtain rfl := Option.some.inj h
    simpa [Level.toString, ascii] using Ne.symm hG
  | elapse | threadId | fiberId =>
    obtain rfl := Option.some.inj h
    obtain ⟨front, c, hc, hc'⟩ := decimal_concat 0
    exact getLast_digit hc hc' hdigit
  | line =>
    obtain rfl := Option.some.inj h
    obtain ⟨front, c, hc, hc'⟩ := signed_concat 0
    exact getLast_digit hc hc' hdigit
  | newLine | tab =>
    obtain rfl := Option.some.inj h
    rintro ⟨rfl⟩
    exact absurd hdigit (by decide)
  | dataTime =>
    have h' : dataTimeText clock 0 (if fmt = [] then ascii "%Y-%m-%d %H:%M:%S" else fmt) = some text := h
    by_cases hne : fmt = []
    · rw [if_pos hne] at h'
      exact getLast_default hdigit h'
    · rw [if_neg hne] at h'
      rcases hb with ⟨-, hnil⟩ | ⟨rfl, arg, rfl, harg⟩
      · exact absurd hnil hne
      · exact getLast_date harg h'

/-! ## Reading an escaped text -/

theorem scan_percent (nstr w : Bytes) : scan nstr (escaped (37 :: w)) = scan (nstr ++ [37]) (37 :: escaped w) := by
  rw [escaped_percent, scan, if_neg (by simp), if_pos (by simp)]

/-- A directive that is closed has no argument, or one in braces, and what is
left is the pattern of the text behind it. -/
theorem directive_ends {w str fmt : Bytes} {n : Nat}
    (hscan : scanDirective (escaped w) (escaped w) 0 false 0 [] [] = (false, str, fmt, n)) :
    (fmt = [] ∧ ∃ w', w = str ++ w' ∧ (escaped w).drop n = escaped w') ∨
      ∃ arg w', fmt = escaped arg ∧ 125 ∉ arg ∧ w = str ++ 123 :: (arg ++ 125 :: w') ∧
        (escaped w).drop n = escaped w' := by
  have hsplit : w.takeWhile inName ++ w.dropWhile inName = w := List.takeWhile_append_dropWhile
  have hin : ∀ c ∈ w.takeWhile inName, inName c = true := List.all_eq_true.1 List.all_takeWhile
  have hplain : escaped (w.takeWhile inName) = w.takeWhile inName :=
    escaped_plain fun h37 => absurd (hin 37 h37) (by decide)
  have hesc : escaped w = w.takeWhile inName ++ escaped (w.dropWhile inName) := by
    rw [← hplain, ← escaped_append, hsplit]
  have hstop := List.head?_dropWhile_not inName w
  generalize w.takeWhile inName = name at hsplit hin hesc
  generalize w.dropWhile inName = rest at hsplit hesc hstop
  subst hsplit
  rw [hesc] at hscan ⊢
  cases rest with
  | nil =>
    rw [escaped, List.flatMap_nil, List.append_nil, scanDirective_whole hin] at hscan
    simp only [Prod.mk.injEq, true_and] at hscan
    obtain ⟨rfl, rfl, rfl⟩ := hscan
    exact .inl ⟨rfl, [], rfl, List.drop_left⟩
  | cons c rest =>
    have hc : inName c = false := by simpa using hstop
    by_cases hopen : c = 123
    · subst hopen
      rw [escaped_cons (by decide)] at hscan ⊢
      by_cases hclose : 125 ∈ rest
      · obtain ⟨arg, w', rfl, harg⟩ := List.eq_append_cons_of_mem hclose
        rw [escaped_append, escaped_cons (by decide)] at hscan ⊢
        rw [scanDirective_braced hin (by rwa [mem_escaped])] at hscan
        simp only [Prod.mk.injEq, true_and] at hscan
        obtain ⟨rfl, rfl, rfl⟩ := hscan
        exact .inr ⟨arg, w', rfl, harg, rfl, drop_braced name (escaped arg) (escaped w')⟩
      · have hnever := scanDirective_never (by rwa [mem_escaped]) (name ++ 123 :: escaped rest)
          (name.length + 1) name.length name []
        rw [scanDirective_brace hin rfl] at hscan
        rw [hscan] at hnever
        cases hnever
    · have hhead : ∃ tail, escaped (c :: rest) = c :: tail := by
        by_cases hc' : c = 37
        · exact ⟨37 :: escaped rest, by rw [hc', escaped_percent]⟩
        · exact ⟨escaped rest, escaped_cons hc' rest⟩
      obtain ⟨tail, htail⟩ := hhead
      rw [htail, scanDirective_stops hin hc hopen] at hscan
      simp only [Prod.mk.injEq, true_and] at hscan
      obtain ⟨rfl, rfl, rfl⟩ := hscan
      exact .inl ⟨rfl, c :: rest, rfl, List.drop_left⟩

/-- One that is known ends with its letter or a brace. -/
theorem directive_escaped {w str fmt : Bytes} {n : Nat} {it : FormatItem}
    (hscan : scanDirective (escaped w) (escaped w) 0 false 0 [] [] = (false, str, fmt, n))
    (hit : (Piece.directive str fmt).item = some it) :
    ∃ d front b w', w = front ++ b :: w' ∧ (escaped w).drop n = escaped w' ∧ it = d.formatItem fmt ∧
      EndOf d fmt b := by
  obtain ⟨d, rfl, rfl⟩ := Directive.exists_of_find hit
  rcases directive_ends hscan with ⟨hnone, w', hw, hdrop⟩ | ⟨arg, w', hfmt, harg, hw, hdrop⟩
  · exact ⟨d, [], d.letter, w', hw, hdrop, rfl, .inl ⟨rfl, hnone⟩⟩
  · exact ⟨d, d.letter :: 123 :: arg, 125, w', hw, hdrop, rfl, .inr ⟨rfl, arg, hfmt, harg⟩⟩

theorem formatAll_append {clock : Clock} {level : Level} {event : LogEvent} {xs ys : List FormatItem} {text : Bytes}
    (h : formatAll clock level event (xs ++ ys) = some text) : ∃ a b,
      formatAll clock level event xs = some a ∧ formatAll clock level event ys = some b ∧ text = a ++ b := by
  induction xs generalizing text with
  | nil => exact ⟨[], text, rfl, h, rfl⟩
  | cons x xs ih =>
    obtain ⟨a, ha, h⟩ := Option.bind_eq_some_iff.1 h
    obtain ⟨rest, hrest, h⟩ := Option.bind_eq_some_iff.1 h
    obtain ⟨b, c, hb, hc, rfl⟩ := ih hrest
    refine ⟨a ++ b, c, ?_, hc, ?_⟩
    · simp [formatAll, ha, hb]
    · rw [← Option.some.inj h, List.append_assoc]

/-- The items of a scan. -/
def itemsOf (vec : List Piece) : List FormatItem := vec.map fun p => p.item.getD p.errorItem

theorem formatAll_literal (clock : Clock) (level : Level) (event : LogEvent) (nstr : Bytes) :
    formatAll clock level event (itemsOf (literal nstr)) = some nstr := by
  unfold literal
  split
  · rename_i hnil
    rw [hnil]
    rfl
  · simp [itemsOf, Piece.item, formatAll, FormatItem.format]

/-- The text of a literal, a directive and what is behind them. -/
theorem formatAll_directive {clock : Clock} {level : Level} {event : LogEvent} {nstr str fmt text : Bytes}
    {it : FormatItem} {more : List Piece} (hit : (Piece.directive str fmt).item = some it)
    (h : formatAll clock level event (itemsOf (literal nstr ++ .directive str fmt :: more)) = some text) :
    ∃ item rest, it.format clock level event = some item ∧
      formatAll clock level event (itemsOf more) = some rest ∧ text = nstr ++ (item ++ rest) := by
  rw [itemsOf, List.map_append] at h
  obtain ⟨lit, rest, hlit, hrest, rfl⟩ := formatAll_append h
  obtain rfl := Option.some.inj ((formatAll_literal clock level event nstr).symm.trans hlit)
  obtain ⟨item, hitem, hrest⟩ := Option.bind_eq_some_iff.1 hrest
  obtain ⟨more, hmore, hrest⟩ := Option.bind_eq_some_iff.1 hrest
  obtain rfl := Option.some.inj hrest
  exact ⟨item, more, by simpa [hit] using hitem, hmore, rfl⟩

/-- Two texts that are the same up to a byte, seen from the end. -/
def Differs (text v : List UInt8) : Prop :=
  ∃ front c back b t, text = front ++ c :: t ∧ v = back ++ b :: t ∧ c ≠ b

theorem Differs.behind {text v : List UInt8} (h : Differs text v) (xs ys : List UInt8) : Differs (xs ++ text) (ys ++ v) := by
  obtain ⟨front, c, back, b, t, rfl, rfl, hne⟩ := h
  exact ⟨xs ++ front, c, ys ++ back, b, t, by simp, by simp, hne⟩

theorem Differs.ne {text v : List UInt8} (h : Differs text v) : text ≠ v := by
  rintro rfl
  obtain ⟨front, c, back, b, t, hfront, hback, hne⟩ := h
  rw [hfront] at hback
  exact hne (List.cons.inj (List.append_inj_right' hback rfl)).1

/-- The item of a directive, behind a `%`, against its text. -/
theorem Differs.item {clock : Clock} {d : Directive} {fmt item : Bytes} {b : UInt8} (hend : EndOf d fmt b)
    (h : (d.formatItem fmt).format clock .debug marked = some item) (front t : Bytes) :
    Differs (37 :: (item ++ t)) (37 :: (front ++ b :: t)) := by
  have hlast := getLast_item hend h
  rcases List.eq_nil_or_concat' item with rfl | ⟨item, c, rfl⟩
  · refine ⟨[], 37, 37 :: front, b, t, rfl, rfl, ?_⟩
    rintro rfl
    exact absurd hend.bounds.1 (by decide)
  · rw [List.getLast?_concat] at hlast
    exact ⟨37 :: item, c, 37 :: front, b, t, by simp, rfl, fun he => hlast (congrArg some he)⟩

/-- Where a text has a `%`, the last directive that its pattern is taken to have
shows: the marked event ends it with another byte. -/
theorem differs (clock : Clock) (v nstr : Bytes) (hv : 37 ∈ v) (herr : (scan nstr (escaped v)).2 = false)
    (hknown : ∀ p ∈ (scan nstr (escaped v)).1, p.item.isSome = true) {text : Bytes}
    (htext : formatAll clock .debug marked (itemsOf (scan nstr (escaped v)).1) = some text) : Differs text v := by
  induction hlen : v.length using Nat.strongRecOn generalizing v nstr text with
  | ind len ih =>
    obtain ⟨u, w, rfl, hu⟩ := List.eq_append_cons_of_mem hv
    rw [escaped_append, escaped_plain hu, scan_text hu, scan_percent] at herr hknown htext
    by_cases hhead : (escaped w).head? = some 37
    · -- a run of `%`
      have hw : 37 ∈ w := mem_escaped.1 (List.mem_of_mem_head? hhead)
      rw [scan, if_neg (by simp), if_pos hhead] at herr hknown htext
      have hdiff := ih w.length (by simp at hlen; omega) w _ hw herr hknown htext rfl
      have hsame : u ++ 37 :: w = (u ++ [37]) ++ w := by simp
      rw [hsame]
      exact hdiff.behind [] _
    · obtain ⟨⟨st, str, fmt, n⟩, hd⟩ : ∃ d, scanDirective (escaped w) (escaped w) 0 false 0 [] [] = d := ⟨_, rfl⟩
      cases st with
      | true =>
        rw [scan, if_neg (by simp), if_neg hhead] at herr
        simp [hd] at herr
      | false =>
        rw [scan_directive hhead hd] at herr hknown htext
        obtain ⟨it, hit⟩ := Option.isSome_iff_exists.1 (hknown (.directive str fmt) (by simp))
        obtain ⟨d, front, b, w', rfl, hdrop, rfl, hend⟩ := directive_escaped hd hit
        rw [hdrop] at herr hknown htext
        obtain ⟨item, more, hitem, hmore, rfl⟩ := formatAll_directive hit htext
        by_cases hw' : 37 ∈ w'
        · have hdiff := ih w'.length (by simp at hlen; omega) w' [] hw' herr
            (fun p hp => hknown p (by simp [hp])) hmore rfl
          have hsame : u ++ 37 :: (front ++ b :: w') = (u ++ 37 :: (front ++ [b])) ++ w' := by simp
          rw [hsame, ← List.append_assoc]
          exact hdiff.behind _ _
        · -- behind it there is only a literal
          rw [escaped_plain hw', scan_literal hw', List.nil_append] at hmore
          obtain rfl := Option.some.inj ((formatAll_literal clock .debug marked w').symm.trans hmore)
          rw [List.append_assoc]
          exact (Differs.item hend hitem front w').behind (nstr ++ u) u

/-- A text is logged as it is exactly if it has no `%`. -/
theorem logsText_iff (clock : Clock) (s : Bytes) : LogsText clock s ↔ 37 ∉ s := by
  constructor
  · rintro ⟨herr, hformat⟩ hs
    simp only [LogFormatter.isError, LogFormatter.new, Bool.or_eq_false_iff, List.any_eq_false] at herr
    have hknown : ∀ p ∈ (scan [] (escaped s)).1, p.item.isSome = true := by
      intro p hp
      simpa [Option.isSome_iff_ne_none] using herr.2 p hp
    exact (differs clock s [] hs herr.1 hknown (hformat .debug marked)).ne rfl
  · intro h
    rw [LogsText, escaped_plain h]
    refine ⟨LogFormatter.new_literal h, ?_⟩
    intro level event
    rw [LogFormatter.format, LogFormatter.new, scan_literal h]
    exact formatAll_literal clock level event s

/-- The pattern `100%%` is not accepted. -/
theorem not_logsText : ¬ ∀ clock s, LogsText clock s := by
  intro h
  have herr := (h ⟨fun _ => none, fun _ _ => ([], 0)⟩ (ascii "100%")).1
  simp [LogFormatter.isError, LogFormatter.new, escaped, ascii, scan, scanDirective, literal, Piece.item,
    formatItems] at herr

end Linko.Log
