import Linko.Http.RequestParser
/-!
# The memory of a new parser

The constructor of `HttpRequestParser` runs `http_parser_init` on a member that
nothing has initialised. Two of the fields that the machine reads keep what was
in the memory before: `query_start` and `uri_relaxed`.
-/

namespace Linko.Http

open CString Ragel RequestMachine

/-- `http_parser_init` on a memory. -/
def httpParserInitIn (storage : HttpParser) : HttpParser :=
  { httpParserInit storage.uriRelaxed with queryStart := storage.queryStart }

namespace HttpRequestParser

/-- A parser that is constructed in a memory. -/
def newIn (storage : HttpParser) : HttpRequestParser := ⟨httpParserInitIn storage, HttpRequest.new, 0⟩

/-- What a caller sees of `execute` and of the parser behind it. -/
structure Seen where
  consumed : Nat
  hasError : Bool
  isFinished : Int
  data : HttpRequest

def seen (s : HttpRequestParser) (data : Bytes) : Except Fault Seen := do
  let (s, consumed, _) ← s.execute data
  .ok ⟨consumed, s.hasError, s.isFinished, s.data⟩

/-- Parsers in any two memories look the same. -/
def SeenAlike (data : Bytes) : Prop := ∀ a b : HttpParser, (newIn a).seen data = (newIn b).seen data

/-- The machine, with `uri_relaxed` off, comes to a byte of `more_delims` in a
state where the grammar asks for it. -/
def consults : Nat → Bytes → Bool
  | _, [] => false
  | cs, b :: bs => guardedOn rows cs b ||
    match (machine false).next cs b with
    | none => false
    | some (acts, t) => !acts.any breaks && consults t bs

/-! ## What the actions read -/

/-- The marks that have been set: the length of the name of a header line, and
`query_start`. -/
structure Known where
  field : Bool
  query : Bool
  deriving Repr

/-- What is known behind an action; `none` if it reads a mark that is not. -/
def Known.after (k : Known) : Act → Option Known
  | .startField => some { k with field := false }
  | .writeField => some { k with field := true }
  | .writeValue => if k.field then some k else none
  | .startQuery => some { k with query := true }
  | .queryString => if k.query then some k else none
  | _ => some k

/-- What is known in a state. -/
def known (cs : Nat) : Known := ⟨cs == 15 || cs == 16, cs == 30 || cs == 31 || cs == 32⟩

/-- The actions of a transition read only marks that are known, and leave those
known that are in its target. -/
def Informed (cs : Nat) (e : Edge Act) : Bool :=
  match e.acts.foldlM Known.after (known cs) with
  | none => false
  | some k => (!(known e.target).field || k.field) && (!(known e.target).query || k.query)

theorem rows_informed : ∀ r ∈ rows, ∀ e ∈ r.2, Informed r.1 e = true := by decide +kernel

theorem rows_exclusive : Exclusive rows := by
  unfold Exclusive
  decide +kernel

/-! ## The condition and the machine -/

/-- Where the condition is not asked for, the machine is the strict one. -/
theorem trace_unconsulted {cs : Nat} {bs : Bytes} (h : consults cs bs = false) (r : Bool) :
    (machine r).trace cs bs = (machine false).trace cs bs := by
  induction bs generalizing cs with
  | nil => rfl
  | cons b bs ih =>
    rw [consults, Bool.or_eq_false_iff] at h
    obtain ⟨hguard, hrest⟩ := h
    have hnext : (machine r).next cs b = (machine false).next cs b := lookup_unguarded hguard r
    rw [Machine.trace_next, Machine.trace_next, hnext]
    cases hn : (machine false).next cs b with
    | none => rfl
    | some x =>
      obtain ⟨acts, t⟩ := x
      rw [hn] at hrest
      by_cases hb : acts.any breaks = true
      · simp [machine, hb]
      · have ht : consults t bs = false := by simpa [hb] using hrest
        have hb' : ∀ r, ¬ acts.any (machine r).breaks = true := fun _ => hb
        simp only [if_neg (hb' r), if_neg (hb' false), ih ht]

/-- Where it is asked for, the relaxed machine goes on and the strict one does
not. -/
theorem consults_used {cs : Nat} {bs : Bytes} (h : consults cs bs = true) :
    ((machine false).trace cs bs).used < ((machine true).trace cs bs).used := by
  induction bs generalizing cs with
  | nil => cases h
  | cons b bs ih =>
    rw [consults] at h
    rw [Machine.trace_next, Machine.trace_next]
    cases hguard : guardedOn rows cs b with
    | true =>
      obtain ⟨hstrict, hrelaxed⟩ := lookup_guarded rows_exclusive hguard
      obtain ⟨x, hx⟩ := Option.isSome_iff_exists.1 hrelaxed
      have hs : (machine false).next cs b = none := hstrict
      have hr : (machine true).next cs b = some x := hx
      rw [hs, hr]
      obtain ⟨acts, t⟩ := x
      dsimp only
      split
      · exact Nat.zero_lt_one
      · exact Nat.lt_of_lt_of_le Nat.zero_lt_one (Nat.le_add_right 1 _)
    | false =>
      have hnext : (machine true).next cs b = (machine false).next cs b := lookup_unguarded hguard true
      rw [hguard, Bool.false_or] at h
      rw [hnext]
      cases hn : (machine false).next cs b with
      | none =>
        rw [hn] at h
        cases h
      | some x =>
        obtain ⟨acts, t⟩ := x
        rw [hn] at h
        simp only [Bool.and_eq_true, Bool.not_eq_true'] at h
        have hb : ∀ r, ¬ acts.any (machine r).breaks = true := fun _ hb => Bool.false_ne_true (h.1.symm.trans hb)
        simp only [if_neg (hb true), if_neg (hb false)]
        exact Nat.add_lt_add_left (ih h.2) 1

/-! ## Two parsers side by side -/

/-- The parser with other values in the two fields. -/
def inMemory (s : HttpRequestParser) (queryStart : Option Nat) (uriRelaxed : Bool) : HttpRequestParser :=
  { s with parser := { s.parser with queryStart := queryStart, uriRelaxed := uriRelaxed } }

/-- At offset `p`: the parsers differ in these fields at most, and the marks that
are known are behind. -/
structure Alike (k : Known) (p : Nat) (s t : HttpRequestParser) : Prop where
  same : ∃ q r, t = s.inMemory q r
  mark_le : s.parser.mark ≤ p
  field_le : s.parser.fieldStart ≤ p
  field : k.field = true → s.parser.fieldStart + s.parser.fieldLen ≤ p
  query : k.query = true → ∃ q ≤ p, s.parser.queryStart = some q ∧ t.parser.queryStart = some q

namespace Alike

variable {k k' : Known} {p p' : Nat} {s t s' : HttpRequestParser} {buffer : Bytes} {a : Act}

theorem mono (h : Alike k p s t) (hp : p ≤ p') (hfield : k'.field = true → k.field = true)
    (hquery : k'.query = true → k.query = true) : Alike k' p' s t := by
  refine ⟨h.same, h.mark_le.trans hp, h.field_le.trans hp, fun hk => (h.field (hfield hk)).trans hp, fun hk => ?_⟩
  obtain ⟨q, hq, hs, ht⟩ := h.query (hquery hk)
  exact ⟨q, hq.trans hp, hs, ht⟩

/-- Both store the same. -/
theorem stores {q : Option Nat} {r : Bool} (h : Alike k p s (s.inMemory q r)) (hs : s'.parser = s.parser) :
    Alike k p s' (s'.inMemory q r) := by
  refine ⟨⟨q, r, rfl⟩, hs ▸ h.mark_le, hs ▸ h.field_le, hs ▸ h.field, fun hk => ?_⟩
  obtain ⟨n, hn, hsome, ht⟩ := h.query hk
  exact ⟨n, hn, hs ▸ hsome, ht⟩

/-- The text behind the mark. -/
theorem mkString_mark (hmax : buffer.length ≤ maxSize) (hp : p < buffer.length) (h : Alike k p s t) :
    mkString buffer s.parser.mark (sizeSub p s.parser.mark) =
      .ok (Blocks.slice buffer s.parser.mark (sizeSub p s.parser.mark)) := by
  refine mkString_ok ?_ hmax
  rw [sizeSub, if_pos h.mark_le]
  have := h.mark_le
  omega

/-- An action that both parsers do alike. -/
def Agrees (buffer : Bytes) (p : Nat) (a : Act) (k' : Known) (s t : HttpRequestParser) : Prop :=
  ∃ s' t', action buffer p s a = .ok s' ∧ action buffer p t a = .ok t' ∧ Alike k' p s' t'

theorem writeValue {q : Option Nat} {r : Bool} (hmax : buffer.length ≤ maxSize) (hp : p < buffer.length)
    (h : Alike k p s (s.inMemory q r)) (hfield : k.field = true) :
    Agrees buffer p .writeValue k s (s.inMemory q r) := by
  have hname : mkString buffer s.parser.fieldStart s.parser.fieldLen = .ok _ :=
    mkString_ok ((h.field hfield).trans hp.le) hmax
  have hvalue := h.mkString_mark hmax hp
  unfold Agrees
  simp only [HttpRequestParser.action, onRequestHttpField, inMemory, hname, hvalue]
  by_cases hzero : s.parser.fieldLen = 0
  · rw [if_pos hzero, if_pos hzero]
    exact ⟨_, _, rfl, rfl, h.stores rfl⟩
  · rw [if_neg hzero, if_neg hzero]
    exact ⟨_, _, rfl, rfl, h.stores rfl⟩

theorem queryString {q : Option Nat} {r : Bool} (hmax : buffer.length ≤ maxSize) (hp : p < buffer.length)
    (h : Alike k p s (s.inMemory q r)) (hquery : k.query = true) :
    Agrees buffer p .queryString k s (s.inMemory q r) := by
  obtain ⟨n, hn, hs, ht⟩ := h.query hquery
  have hsub : sizeSub p n = p - n := if_pos hn
  have hpart : mkString buffer n (p - n) = .ok _ := mkString_ok (by omega) hmax
  unfold Agrees
  simp only [HttpRequestParser.action, hs, ht, onRequestQuery, hsub, hpart]
  exact ⟨_, _, rfl, rfl, h.stores rfl⟩

theorem done {q : Option Nat} {r : Bool} (h : Alike k p s (s.inMemory q r)) :
    Agrees buffer p .done k s (s.inMemory q r) := by
  by_cases hsent : (s.parser.xmlSent || s.parser.jsonSent) = true
  · have hs : action buffer p s .done = .ok _ := if_pos hsent
    have ht : action buffer p (s.inMemory q r) .done = .ok _ := if_pos hsent
    exact ⟨_, _, hs, ht, ⟨q, r, rfl⟩, h.mark_le, h.field_le, h.field, h.query⟩
  · have hs : action buffer p s .done = .ok _ := if_neg hsent
    have ht : action buffer p (s.inMemory q r) .done = .ok _ := if_neg hsent
    exact ⟨_, _, hs, ht, ⟨q, r, rfl⟩, h.mark_le, h.field_le, h.field, h.query⟩

theorem requestMethod {q : Option Nat} {r : Bool} (h : Alike k p s (s.inMemory q r)) :
    Agrees buffer p .requestMethod k s (s.inMemory q r) := by
  have hboth : (s.inMemory q r).onRequestMethod buffer s.parser.mark (sizeSub p s.parser.mark) =
      (s.onRequestMethod buffer s.parser.mark (sizeSub p s.parser.mark)).inMemory q r := by
    unfold onRequestMethod
    dsimp only
    split <;> rfl
  exact ⟨_, _, rfl, congrArg Except.ok hboth, h.stores (onRequestMethod_keeps s buffer _ _)⟩

theorem httpVersion {q : Option Nat} {r : Bool} (h : Alike k p s (s.inMemory q r)) :
    Agrees buffer p .httpVersion k s (s.inMemory q r) := by
  have hboth : (s.inMemory q r).onRequestVersion buffer s.parser.mark (sizeSub p s.parser.mark) =
      (s.onRequestVersion buffer s.parser.mark (sizeSub p s.parser.mark)).inMemory q r := by
    unfold onRequestVersion
    split
    · rfl
    · split <;> rfl
  exact ⟨_, _, rfl, congrArg Except.ok hboth, h.stores (onRequestVersion_keeps s buffer _ _)⟩

/-- An action that reads only what is known is done alike. -/
theorem action (hmax : buffer.length ≤ maxSize) (hp : p < buffer.length) (h : Alike k p s t)
    (hk : k.after a = some k') : Agrees buffer p a k' s t := by
  obtain ⟨q, r, rfl⟩ := h.same
  cases a with
  | mark | startValue =>
    cases hk
    exact ⟨_, _, rfl, rfl, ⟨q, r, rfl⟩, Nat.le_refl p, h.field_le, h.field, h.query⟩
  | startField =>
    cases hk
    exact ⟨_, _, rfl, rfl, ⟨q, r, rfl⟩, h.mark_le, Nat.le_refl p, nofun, h.query⟩
  | writeField =>
    cases hk
    refine ⟨_, _, rfl, rfl, ⟨q, r, rfl⟩, h.mark_le, h.field_le, fun _ => ?_, h.query⟩
    show s.parser.fieldStart + sizeSub p s.parser.fieldStart ≤ p
    rw [sizeSub, if_pos h.field_le]
    have := h.field_le
    omega
  | writeValue =>
    obtain ⟨hfield, hsame⟩ := Option.ite_none_right_eq_some.1 hk
    cases hsame
    exact h.writeValue hmax hp hfield
  | requestMethod =>
    cases hk
    exact h.requestMethod
  | requestUri =>
    cases hk
    exact ⟨_, _, rfl, rfl, h⟩
  | fragment | requestPath =>
    cases hk
    have hstring := h.mkString_mark hmax hp
    unfold Agrees
    simp only [HttpRequestParser.action, onRequestFragment, onRequestPath, inMemory, hstring]
    exact ⟨_, _, rfl, rfl, h.stores rfl⟩
  | startQuery =>
    cases hk
    exact ⟨_, _, rfl, rfl, ⟨some p, r, rfl⟩, h.mark_le, h.field_le, h.field, fun _ => ⟨p, Nat.le_refl p, rfl, rfl⟩⟩
  | queryString =>
    obtain ⟨hquery, hsame⟩ := Option.ite_none_right_eq_some.1 hk
    cases hsame
    exact h.queryString hmax hp hquery
  | httpVersion =>
    cases hk
    exact h.httpVersion
  | done =>
    cases hk
    exact h.done
  | xml | json =>
    cases hk
    exact ⟨_, _, rfl, rfl, ⟨q, r, rfl⟩, h.mark_le, h.field_le, h.field, h.query⟩

theorem actions (hmax : buffer.length ≤ maxSize) (hp : p < buffer.length) {acts : List Act} (h : Alike k p s t)
    (hk : acts.foldlM Known.after k = some k') : ∃ s' t', acts.foldlM (HttpRequestParser.action buffer p) s = .ok s' ∧
      acts.foldlM (HttpRequestParser.action buffer p) t = .ok t' ∧ Alike k' p s' t' := by
  induction acts generalizing k s t with
  | nil =>
    cases hk
    exact ⟨s, t, rfl, rfl, h⟩
  | cons a acts ih =>
    rw [List.foldlM_cons] at hk
    obtain ⟨k₁, ha, hrest⟩ := Option.bind_eq_some_iff.1 hk
    obtain ⟨s₁, t₁, hs, ht, h₁⟩ := h.action hmax hp ha
    obtain ⟨s', t', hs', ht', h'⟩ := ih h₁ hrest
    refine ⟨s', t', ?_, ?_, h'⟩
    · rw [List.foldlM_cons, hs]
      exact hs'
    · rw [List.foldlM_cons, ht]
      exact ht'

/-- A whole run: none of its callbacks fails, and the parsers stay alike. -/
theorem run (hmax : buffer.length ≤ maxSize) {bs : Bytes} {cs : Nat} (r : Bool) (h : Alike (known cs) p s t)
    (hp : p + bs.length = buffer.length) : ∃ s' t',
      runEvents (HttpRequestParser.action buffer) p ((machine r).trace cs bs).events s = .ok s' ∧
      runEvents (HttpRequestParser.action buffer) p ((machine r).trace cs bs).events t = .ok t' ∧
      ∃ q u, t' = s'.inMemory q u := by
  induction bs generalizing cs p s t with
  | nil => exact ⟨s, t, rfl, rfl, h.same⟩
  | cons b bs ih =>
    rw [Machine.trace_next]
    cases hn : (machine r).next cs b with
    | none => exact ⟨s, t, rfl, rfl, h.same⟩
    | some x =>
      obtain ⟨acts, target⟩ := x
      obtain ⟨e, hinformed, -, rfl, rfl⟩ := lookup_all (P := fun cs e => Informed cs e = true) rows_informed hn
      rw [List.length_cons] at hp
      unfold Informed at hinformed
      split at hinformed
      · cases hinformed
      · rename_i k' hk'
        obtain ⟨s₁, t₁, hs, ht, h₁⟩ := h.actions hmax (by omega) hk'
        dsimp only
        split
        · rw [runEvents_here, runEvents_here]
          exact ⟨s₁, t₁, hs, ht, h₁.same⟩
        · simp only [Bool.and_eq_true, Bool.or_eq_true, Bool.not_eq_true'] at hinformed
          have hknown : Alike (known e.target) (p + 1) s₁ t₁ := by
            refine h₁.mono (Nat.le_succ p) (fun hf => ?_) fun hq => ?_
            · exact hinformed.1.resolve_left fun hno => Bool.false_ne_true (hno.symm.trans hf)
            · exact hinformed.2.resolve_left fun hno => Bool.false_ne_true (hno.symm.trans hq)
          obtain ⟨s', t', hs', ht', hsame⟩ := ih hknown (by omega)
          refine ⟨s', t', ?_, ?_, hsame⟩
          · rw [runEvents_append, runEvents_here, hs]
            exact (runEvents_shift ..).trans hs'
          · rw [runEvents_append, runEvents_here, ht]
            exact (runEvents_shift ..).trans ht'

end Alike

/-! ## What is seen of a new parser -/

/-- `execute` on a new parser, as far as it is seen, after a run of the machine
that ends with `tr`. -/
def look (tr : Trace Act) (s : HttpRequestParser) : Seen where
  consumed := tr.used
  hasError := s.error ≠ 0 || tr.state = RequestMachine.error
  isFinished := if tr.state = RequestMachine.error then -1 else if tr.state ≥ firstFinal then 1 else 0
  data := s.data

theorem seen_of_run {a : HttpParser} {data : Bytes} {s : HttpRequestParser} (hpos : 0 < data.length)
    (hlen : data.length < 2 ^ 31)
    (hrun : runEvents (action data) 0 ((machine a.uriRelaxed).trace start data).events
      ((newIn a).rewind data.length) = .ok s) :
    (newIn a).seen data = .ok (look ((machine a.uriRelaxed).trace start data) s) := by
  have hcs : (newIn a).parser.cs ≠ RequestMachine.error := show start ≠ RequestMachine.error by decide
  have hexec := @execute_ok (newIn a) s data hpos hlen hcs (Nat.zero_le _) hrun
  rw [seen, hexec]
  rfl

theorem seen_long {data : Bytes} (hlen : 2 ^ 31 ≤ data.length) (a : HttpParser) :
    (newIn a).seen data = .error .assertion := by
  have hne : toInt data.length ≠ data.length := by
    have := toInt_lt data.length
    omega
  have hpos : data.length ≠ 0 := by omega
  rw [seen, execute, httpParserExecute]
  simp only [if_neg hpos, if_pos hne]
  rfl

theorem alike_new (a b : HttpParser) (len : Nat) :
    Alike (known start) 0 ((newIn a).rewind len) ((newIn b).rewind len) :=
  ⟨⟨b.queryStart, b.uriRelaxed, rfl⟩, Nat.le_refl 0, Nat.le_refl 0, nofun, nofun⟩

/-- A new parser gets through every text. -/
theorem run_new {data : Bytes} (hlen : data.length < 2 ^ 31) (a : HttpParser) :
    ∃ s, runEvents (action data) 0 ((machine a.uriRelaxed).trace start data).events
      ((newIn a).rewind data.length) = .ok s := by
  have hmax : data.length ≤ maxSize := Nat.le_of_lt (hlen.trans (by decide))
  obtain ⟨s, -, hs, -⟩ := (alike_new a a data.length).run hmax a.uriRelaxed (Nat.zero_add _)
  exact ⟨s, hs⟩

/-- With the condition asked for, two memories are told apart. -/
theorem consumed_ne {data : Bytes} (hlen : data.length < 2 ^ 31) (h : consults start data = true) (q : HttpParser) :
    (newIn { q with uriRelaxed := false }).seen data ≠ (newIn { q with uriRelaxed := true }).seen data := by
  have hpos : 0 < data.length := by
    rcases data with _ | ⟨b, bs⟩
    · cases h
    · exact Nat.succ_pos _
  obtain ⟨s, hs⟩ := run_new hlen { q with uriRelaxed := false }
  obtain ⟨t, ht⟩ := run_new hlen { q with uriRelaxed := true }
  rw [seen_of_run hpos hlen hs, seen_of_run hpos hlen ht]
  intro he
  exact absurd (congrArg Seen.consumed (Except.ok.inj he)) (Nat.ne_of_lt (consults_used h))

/-- What is seen of a new parser does not depend on its memory exactly when the
text never comes to a `{`, `}` or `^` where the grammar asks for `uri_relaxed`,
or is too long for the assertion. -/
theorem seenAlike_iff (data : Bytes) : SeenAlike data ↔ 2 ^ 31 ≤ data.length ∨ consults start data = false := by
  constructor
  · intro h
    by_contra hno
    rw [not_or, not_le, Bool.not_eq_false] at hno
    exact consumed_ne hno.1 hno.2 (httpParserInit false) (h _ _)
  · rintro (hlong | hquiet) a b
    · rw [seen_long hlong, seen_long hlong]
    · rcases Nat.lt_or_ge data.length (2 ^ 31) with hlen | hlong
      · rcases Nat.eq_zero_or_pos data.length with hzero | hpos
        · obtain rfl := List.length_eq_zero_iff.1 hzero
          rfl
        · have hmax : data.length ≤ maxSize := Nat.le_of_lt (hlen.trans (by decide))
          obtain ⟨s, t, hs, ht, q, r, rfl⟩ := (alike_new a b data.length).run hmax false (Nat.zero_add _)
          have ha := trace_unconsulted hquiet a.uriRelaxed
          have hb := trace_unconsulted hquiet b.uriRelaxed
          rw [seen_of_run hpos hlen (ha ▸ hs), seen_of_run hpos hlen (hb ▸ ht), ha, hb]
          rfl
      · rw [seen_long hlong, seen_long hlong]

/-- One of two parsers stops at the brace, the other one does not. -/
theorem not_seenAlike : ¬ ∀ data : Bytes, SeenAlike data := by
  intro h
  have hasked : consults start (ascii "GET /\x7b HTTP/1.1\r\n\r\n") = true := by decide +kernel
  exact consumed_ne (by decide) hasked (httpParserInit false) (h _ _ _)

end HttpRequestParser

end Linko.Http
