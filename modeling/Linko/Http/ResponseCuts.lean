import Linko.Http.Connection
/-!
# A response header in several reads

The marks of the response parser are set back like those of the request parser.
A response with a chunked body is not lost by it, whatever ends up in its header
map, as long as the version and the end of every name keep their beginning.
-/

namespace Linko.Http

open CString Ragel Ragel.Machine ResponseMachine

namespace HttpResponseParser

/-! ## Where a read must not begin -/

/-- An action at offset `p` fails when a read begins at `c`: inside the version,
or at the `:` behind a name. -/
def lost (q : HttpClientParser) (p : Nat) : Act → Nat → Bool
  | .httpVersion, c => q.mark < c && c < p
  | .writeField, c => c == p
  | _, _ => false

def lostIn (block : Bytes) (q : HttpClientParser) : List (Nat × Act) → Nat → Bool
  | [], _ => false
  | (p, a) :: evs, c => lost q p a c || lostIn block (moved block p q a) evs c

/-- Whether `field_len` has been set since the start of the name. -/
def named (n : Bool) : Act → Bool
  | .startField => false
  | .writeField => true
  | _ => n

/-- Every value has a name of its own. -/
def wellNamed : Bool → List Act → Bool
  | _, [] => true
  | n, a :: acts => (a ≠ .writeValue || n) && wellNamed (named n a) acts

/-- A header block that announces a chunked body: one call accepts it, and each
of its lines has a name. -/
structure ChunkedHead (head : Bytes) : Prop where
  accepted : ∃ parser, new.execute head false = .ok (parser, head.length, []) ∧ parser.hasError = false ∧
    parser.isFinished = 1 ∧ parser.parser.chunked = true
  named : wellNamed false ((machine.trace start head).events.map (·.2)) = true

/-- The reads of a header block leave the version and the names whole enough. -/
def HeadUncut (head : Bytes) (reads : List Bytes) : Prop :=
  ∀ c ∈ starts 0 reads, lostIn head (new.rewind head.length).parser (machine.trace start head).events c = false

instance (head : Bytes) (reads : List Bytes) : Decidable (HeadUncut head reads) :=
  inferInstanceAs (Decidable (∀ c ∈ _, _))

/-! ## What the table guarantees -/

/-- None leads to the error state, and the first final state is only entered by
`done`. -/
def Checked (e : Edge Act) : Prop :=
  e.target ≠ ResponseMachine.error ∧ (e.target = firstFinal → Act.done ∈ e.acts)

instance (e : Edge Act) : Decidable (Checked e) := inferInstanceAs (Decidable (_ ∧ _))

theorem rows_checked : ∀ r ∈ rows, ∀ e ∈ r.2, Checked e := by decide +kernel

/-- The states in which the loop reads on. -/
def Reading (cs : Nat) : Prop := cs ≠ ResponseMachine.error ∧ cs ≠ firstFinal

theorem next_reading {cs t : Nat} {b : UInt8} {acts : List Act} (h : machine.next cs b = some (acts, t))
    (hb : acts.any machine.breaks = false) : Reading t := by
  obtain ⟨e, hc, -, rfl, rfl⟩ := lookup_all (P := fun _ e => Checked e) rows_checked h
  refine ⟨hc.1, fun hf => ?_⟩
  rw [List.any_eq_false] at hb
  exact hb .done (hc.2 hf) rfl

/-! ## Two parsers side by side -/

/-- At offset `p` of the block: `s` has read it from its start, `s'` the piece of
`len` bytes from offset `c` on. What was set before `c` is set back. -/
structure Sync (c p len : Nat) (n : Bool) (s s' : HttpResponseParser) : Prop where
  error : s'.error = 0
  chunked : s'.parser.chunked = s.parser.chunked
  mark_le : s.parser.mark ≤ p
  field_le : s.parser.fieldStart ≤ p
  mark : c ≤ s.parser.mark → c + s'.parser.mark = s.parser.mark
  mark_back : s.parser.mark < c → s'.parser.mark = 0
  field : c ≤ s.parser.fieldStart → c + s'.parser.fieldStart = s.parser.fieldStart
  field_back : s.parser.fieldStart < c → s'.parser.fieldStart = 0
  name : n = true → c ≤ s.parser.fieldStart →
    s'.parser.fieldLen = s.parser.fieldLen ∧ s.parser.fieldStart + s.parser.fieldLen ≤ p
  name_back : n = true → s.parser.fieldStart < c → s'.parser.fieldLen ≠ 0 ∧ s'.parser.fieldLen ≤ len

/-- An error stays. -/
theorem action_error {buffer : Bytes} {p : Nat} {s s' : HttpResponseParser} {a : Act}
    (h : action buffer p s a = .ok s') (he : s.error ≠ 0) : s'.error ≠ 0 := by
  cases a with
  | writeValue =>
    rw [action, onResponseHttpField] at h
    split at h
    · rw [Except.ok.injEq] at h
      exact h ▸ (by decide : (1002 : Int) ≠ 0)
    · obtain ⟨k, -, h⟩ := bind_ok h
      obtain ⟨v, -, h⟩ := bind_ok h
      rw [Except.ok.injEq] at h
      exact h ▸ he
  | reasonPhrase =>
    obtain ⟨v, -, h⟩ := bind_ok h
    rw [Except.ok.injEq] at h
    exact h ▸ he
  | httpVersion =>
    rw [action, Except.ok.injEq, onResponseVersion] at h
    split at h
    · exact h ▸ he
    · split at h
      · exact h ▸ he
      · exact h ▸ (by decide : (1001 : Int) ≠ 0)
  | _ =>
    rw [action, Except.ok.injEq] at h
    exact h ▸ he

theorem runEvents_error {buffer : Bytes} {p : Nat} {evs : List (Nat × Act)} {s s' : HttpResponseParser}
    (hrun : runEvents (action buffer) p evs s = .ok s') (h : s'.error = 0) : s.error = 0 := by
  by_contra hne
  exact runEvents_inv (I := fun u => u.error ≠ 0) (fun e _ u u' hu hact => action_error hact hu) hne hrun h

namespace Sync

variable {c p len : Nat} {n : Bool} {s s' : HttpResponseParser}

theorem mono {p' : Nat} (h : Sync c p len n s s') (hp : p ≤ p') : Sync c p' len n s s' :=
  { h with
    mark_le := h.mark_le.trans hp
    field_le := h.field_le.trans hp
    name := fun hn hc => ⟨(h.name hn hc).1, (h.name hn hc).2.trans hp⟩ }

/-- The data may change. -/
theorem stores {s₁ s₁' : HttpResponseParser} (h : Sync c p len n s s') (hq : s₁.parser = s.parser)
    (hq' : s₁'.parser = s'.parser) (he : s₁'.error = 0) : Sync c p len n s₁ s₁' := by
  obtain ⟨-, h₂, h₃, h₄, h₅, h₆, h₇, h₈, h₉, h₁₀⟩ := h
  rw [← hq] at h₃ h₄
  rw [← hq, ← hq'] at h₂ h₅ h₆ h₇ h₈ h₉ h₁₀
  exact ⟨he, h₂, h₃, h₄, h₅, h₆, h₇, h₈, h₉, h₁₀⟩

theorem mark_le' (h : Sync c p len n s s') (hc : c ≤ p) : c + s'.parser.mark ≤ p := by
  by_cases hm : c ≤ s.parser.mark
  · rw [h.mark hm]
    exact h.mark_le
  · rw [h.mark_back (by omega)]
    exact hc

variable {block pre l post extra b : Bytes} {i : Nat}

/-- The version is compared as in the block, or not at all. -/
theorem onResponseVersion_sync (h : Sync c (pre.length + i) len n s s') (hc : c = pre.length)
    (hblock : block = pre ++ (l ++ post)) (hb : b = l ++ extra) (hi : i < l.length)
    (hlost : ¬ (s.parser.mark < c ∧ c < pre.length + i))
    (herr : (s.onResponseVersion block s.parser.mark (sizeSub (pre.length + i) s.parser.mark)).error = 0) :
    Sync c (pre.length + i) len n
      (s.onResponseVersion block s.parser.mark (sizeSub (pre.length + i) s.parser.mark))
      (s'.onResponseVersion b s'.parser.mark (sizeSub i s'.parser.mark)) := by
  refine h.stores (onResponseVersion_keeps _ _ _ _) (onResponseVersion_keeps _ _ _ _) ?_
  have hle := h.mark_le
  by_cases hm : c ≤ s.parser.mark
  · have hmark := h.mark hm
    have hlen : sizeSub (pre.length + i) s.parser.mark = sizeSub i s'.parser.mark := by
      rw [sizeSub, sizeSub, if_pos hle, if_pos (by omega)]
      omega
    have hshort : sizeSub i s'.parser.mark ≤ (l.drop s'.parser.mark).length := by
      rw [List.length_drop, sizeSub, if_pos (by omega)]
      omega
    have hcmp : ∀ v, strncmpEq (block.drop s.parser.mark) v (sizeSub i s'.parser.mark) =
        strncmpEq (b.drop s'.parser.mark) v (sizeSub i s'.parser.mark) := by
      intro v
      rw [← hmark, hc, hblock, hb, ← List.drop_drop, List.drop_left, List.drop_append_of_le_length (by omega),
        List.drop_append_of_le_length (by omega), strncmpEq_append hshort, strncmpEq_append hshort]
    unfold onResponseVersion at herr ⊢
    rw [hlen, hcmp, hcmp] at herr
    split at herr
    · rename_i h₁
      rw [if_pos h₁]
      exact h.error
    · rename_i h₁
      split at herr
      · rename_i h₂
        rw [if_neg h₁, if_pos h₂]
        exact h.error
      · exact absurd herr (by decide : (1001 : Int) ≠ 0)
  · have hi0 : i = 0 := by omega
    have hnone : strncmpEq (b.drop 0) (ascii "HTTP/1.1") (sizeSub 0 0) = true := by
      rw [sizeSub, if_pos (Nat.le_refl 0), strncmpEq]
    rw [h.mark_back (by omega), hi0, onResponseVersion, if_pos hnone]
    exact h.error

/-- A header line whose name is not empty is stored, under whatever name. -/
theorem onResponseHttpField_sync {s₁ : HttpResponseParser} (h : Sync c (pre.length + i) b.length n s s')
    (hc : c = pre.length) (hi : i < b.length) (hmax : b.length ≤ maxSize) (hn : n = true)
    (hact : s.onResponseHttpField block s.parser.fieldStart s.parser.fieldLen s.parser.mark
      (sizeSub (pre.length + i) s.parser.mark) = .ok s₁) (herr : s₁.error = 0) :
    ∃ s₁', s'.onResponseHttpField b s'.parser.fieldStart s'.parser.fieldLen s'.parser.mark
      (sizeSub i s'.parser.mark) = .ok s₁' ∧ Sync c (pre.length + i) b.length n s₁ s₁' := by
  have hlen : s.parser.fieldLen ≠ 0 := by
    intro h0
    rw [onResponseHttpField, if_pos h0, Except.ok.injEq] at hact
    rw [← hact] at herr
    exact absurd herr (by decide : (1002 : Int) ≠ 0)
  have hname : s'.parser.fieldLen ≠ 0 ∧ s'.parser.fieldStart + s'.parser.fieldLen ≤ b.length := by
    by_cases hf : c ≤ s.parser.fieldStart
    · obtain ⟨heq, hle⟩ := h.name hn hf
      have := h.field hf
      omega
    · obtain ⟨hne, hle⟩ := h.name_back hn (by omega)
      rw [h.field_back (by omega), Nat.zero_add]
      exact ⟨hne, hle⟩
  have hmark := h.mark_le' (by omega)
  have hvalue : s'.parser.mark + sizeSub i s'.parser.mark ≤ b.length := by
    rw [sizeSub, if_pos (by omega)]
    omega
  rw [onResponseHttpField, if_neg hname.1, mkString_ok hname.2 hmax, mkString_ok hvalue hmax]
  exact ⟨_, rfl, h.stores (onResponseHttpField_keeps hact) rfl h.error⟩

/-- One action, on the block and on the piece. -/
theorem step {s₁ : HttpResponseParser} {a : Act} (h : Sync c (pre.length + i) b.length n s s')
    (hc : c = pre.length)
    (hblock : block = pre ++ (l ++ post)) (hb : b = l ++ extra) (hi : i < l.length) (hmax : b.length ≤ maxSize)
    (hn : a = .writeValue → n = true) (hlost : lost s.parser (pre.length + i) a c = false)
    (hact : action block (pre.length + i) s a = .ok s₁) (herr : s₁.error = 0) :
    ∃ s₁', action b i s' a = .ok s₁' ∧ Sync c (pre.length + i) b.length (named n a) s₁ s₁' := by
  have hib : i < b.length := by
    rw [hb, List.length_append]
    omega
  cases a with
  | mark | startValue =>
    rw [action, Except.ok.injEq] at hact
    exact ⟨_, rfl, hact ▸ { h with
      mark_le := Nat.le_refl _
      mark := fun _ => hc ▸ rfl
      mark_back := fun hlt => absurd hlt (show ¬ pre.length + i < c by omega) }⟩
  | startField =>
    rw [action, Except.ok.injEq] at hact
    exact ⟨_, rfl, hact ▸ { h with
      field_le := Nat.le_refl _
      field := fun _ => hc ▸ rfl
      field_back := fun hlt => absurd hlt (show ¬ pre.length + i < c by omega)
      name := fun hn => absurd hn Bool.false_ne_true
      name_back := fun hn => absurd hn Bool.false_ne_true }⟩
  | writeField =>
    rw [action, Except.ok.injEq] at hact
    refine ⟨_, rfl, hact ▸ { h with name := fun _ hf => ?_, name_back := fun _ hf => ?_ }⟩
    · have hf' := h.field hf
      have hle := h.field_le
      simp only [sizeSub] at hf' ⊢
      rw [if_pos hle, if_pos (by omega)]
      omega
    · have hne : c ≠ pre.length + i := by simpa [lost] using hlost
      have hf' := h.field_back hf
      simp only [hf', sizeSub, Nat.zero_le, if_true]
      omega
  | writeContentLen | writeConnectionClose | statusCode | done =>
    rw [action, Except.ok.injEq] at hact
    exact ⟨_, rfl, hact ▸ { h with }⟩
  | chunkSize | transChunked =>
    rw [action, Except.ok.injEq] at hact
    exact ⟨_, rfl, hact ▸ { h with chunked := rfl }⟩
  | reasonPhrase =>
    obtain ⟨v, -, hact⟩ := bind_ok hact
    rw [Except.ok.injEq] at hact
    have hmark := h.mark_le' (by omega)
    have hread : s'.parser.mark + sizeSub i s'.parser.mark ≤ b.length := by
      rw [sizeSub, if_pos (by omega)]
      omega
    refine ⟨{ s' with data :=
      { s'.data with reason := Blocks.slice b s'.parser.mark (sizeSub i s'.parser.mark) } }, ?_,
      hact ▸ h.stores rfl rfl h.error⟩
    rw [action, onResponseReason, mkString_ok hread hmax]
    rfl
  | httpVersion =>
    rw [action, Except.ok.injEq] at hact
    exact ⟨_, rfl, hact ▸ h.onResponseVersion_sync hc hblock hb hi (by simpa [lost] using hlost) (hact ▸ herr)⟩
  | writeValue => exact h.onResponseHttpField_sync hc hib hmax (hn rfl) hact herr

/-- A run over the piece, beside the part of the block's run that lies in it. -/
theorem run {lo : Nat} {evs : List (Nat × Act)} {s₁ : HttpResponseParser}
    (h : Sync c (pre.length + lo) b.length n s s') (hc : c = pre.length) (hblock : block = pre ++ (l ++ post))
    (hb : b = l ++ extra) (hmax : b.length ≤ maxSize) (ht : Timed lo l.length evs)
    (hn : wellNamed n (evs.map (·.2)) = true) (hlost : lostIn block s.parser (shift pre.length evs) c = false)
    (hrun : runEvents (action block) pre.length evs s = .ok s₁) (herr : s₁.error = 0) :
    ∃ s₁', runEvents (action b) 0 evs s' = .ok s₁' ∧ s₁'.error = 0 ∧
      s₁'.parser.chunked = s₁.parser.chunked := by
  induction evs generalizing lo n s s' with
  | nil =>
    rw [runEvents_nil, Except.ok.injEq] at hrun
    exact ⟨s', rfl, h.error, hrun ▸ h.chunked⟩
  | cons e evs ih =>
    obtain ⟨i, a⟩ := e
    obtain ⟨hlo, hi, hrest⟩ := ht
    rw [runEvents_cons] at hrun
    obtain ⟨s₂, hact, hrun⟩ := bind_ok hrun
    simp only [List.map_cons, wellNamed, Bool.and_eq_true, Bool.or_eq_true, decide_eq_true_eq] at hn
    simp only [shift, List.map_cons, lostIn, Bool.or_eq_false_iff] at hlost
    have herr₂ : s₂.error = 0 := runEvents_error hrun herr
    obtain ⟨s₂', hact', hsync⟩ := (h.mono (Nat.add_le_add_left hlo pre.length)).step hc hblock hb hi hmax
      (fun ha => hn.1.resolve_left fun hne => hne ha) hlost.1 hact herr₂
    obtain ⟨s₁', hrun', heq⟩ := ih hsync hrest hn.2 (action_moves hact ▸ hlost.2) hrun
    refine ⟨s₁', ?_, heq⟩
    rw [runEvents_cons, Nat.zero_add, hact']
    exact hrun'

end Sync

/-! ## A piece at a time -/

theorem wellNamed_append (n : Bool) (xs ys : List Act) :
    wellNamed n (xs ++ ys) = (wellNamed n xs && wellNamed (xs.foldl named n) ys) := by
  induction xs generalizing n with
  | nil => rfl
  | cons a xs ih => simp only [List.cons_append, wellNamed, ih, List.foldl_cons, Bool.and_assoc]

theorem lostIn_append {block : Bytes} {s s' : HttpResponseParser} {xs : List (Nat × Act)}
    (hrun : runEvents (action block) 0 xs s = .ok s') (ys : List (Nat × Act)) (c : Nat) :
    lostIn block s.parser (xs ++ ys) c = (lostIn block s.parser xs c || lostIn block s'.parser ys c) := by
  induction xs generalizing s with
  | nil =>
    rw [runEvents_nil, Except.ok.injEq] at hrun
    rw [hrun]
    rfl
  | cons e xs ih =>
    rw [runEvents_cons, Nat.zero_add] at hrun
    obtain ⟨s₁, hact, hrun⟩ := bind_ok hrun
    rw [List.cons_append, lostIn, lostIn, ← action_moves hact, ih hrun, Bool.or_assoc]

/-- The marks that names and values are read through lie before `c`. -/
structure Below (c : Nat) (q : HttpClientParser) : Prop where
  mark : q.mark < c
  field : q.fieldStart < c

theorem Below.moved {c p : Nat} {q : HttpClientParser} (h : Below c q) (hp : p < c) (buffer : Bytes) (a : Act) :
    Below c (moved buffer p q a) := by
  cases a with
  | mark | startValue => exact ⟨hp, h.field⟩
  | startField => exact ⟨h.mark, hp⟩
  | _ => exact ⟨h.mark, h.field⟩

theorem Below.mono {c c' : Nat} {q : HttpClientParser} (h : Below c q) (hc : c ≤ c') : Below c' q :=
  ⟨h.mark.trans_le hc, h.field.trans_le hc⟩

/-- What a piece marks lies before its end. -/
theorem Below.piece {buffer b : Bytes} {p cs : Nat} {s s' : HttpResponseParser}
    (h : Below (p + b.length) s.parser)
    (hrun : runEvents (action buffer) p (machine.trace cs b).events s = .ok s') :
    Below (p + b.length) s'.parser := by
  have htimed := (machine.trace_timed cs b).weaken (machine.trace_used_le cs b)
  refine runEvents_inv (I := fun u => Below (p + b.length) u.parser) ?_ h hrun
  intro e he u u' hu hact
  rw [action_moves hact]
  exact hu.moved (Nat.add_lt_add_left (htimed.lt e he) p) buffer e.2

/-- In a state between the first and the last the loop reads on. -/
theorem Reading.goes_on {u : HttpResponseParser} (h : Reading u.parser.cs) (he : u.error = 0) :
    u.isFinished = 0 ∧ u.hasError = false := by
  constructor
  · rw [isFinished, if_neg h.1, if_neg h.2]
  · simp [hasError, he, h.1]

theorem isFinished_final {u : HttpResponseParser} (h : u.parser.cs = firstFinal) (he : u.error = 0) :
    u.isFinished = 1 ∧ u.hasError = false := by
  constructor
  · rw [isFinished, h]
    rfl
  · rw [hasError, he, h]
    rfl

/-- Before the first read. -/
theorem Sync.start (m len : Nat) :
    Sync 0 0 len false (HttpResponseParser.new.rewind m) (HttpResponseParser.new.rewind len) where
  error := rfl
  chunked := rfl
  mark_le := Nat.le_refl 0
  field_le := Nat.le_refl 0
  mark _ := rfl
  mark_back hm := absurd hm (Nat.not_lt_zero _)
  field _ := rfl
  field_back hf := absurd hf (Nat.not_lt_zero _)
  name hn := absurd hn Bool.false_ne_true
  name_back hn := absurd hn Bool.false_ne_true

/-- At the start of a piece everything is set back. -/
theorem Sync.fresh {c len : Nat} {s s' : HttpResponseParser} (h : Below c s.parser) (hlen : len ≠ 0)
    (he : s'.error = 0)
    (hc : s'.parser.chunked = s.parser.chunked) (n : Bool) : Sync c c len n s (s'.rewind len) where
  error := he
  chunked := hc
  mark_le := h.mark.le
  field_le := h.field.le
  mark hm := absurd hm (Nat.not_le_of_lt h.mark)
  mark_back _ := rfl
  field hf := absurd hf (Nat.not_le_of_lt h.field)
  field_back _ := rfl
  name _ hf := absurd hf (Nat.not_le_of_lt h.field)
  name_back _ _ := ⟨hlen, Nat.le_refl len⟩

section

variable {block pre l post extra b : Bytes} {n : Bool} {s s' s₁ : HttpResponseParser}

/-- The call that is given a piece of the header block. -/
theorem execute_piece (hblock : block = pre ++ (l ++ post)) (hb : b = l ++ extra) (hpos : 0 < b.length)
    (hlen : b.length < 2 ^ 31) (hbody : s'.parser.bodyStart = 0)
    (hsync : Sync pre.length pre.length b.length n s (s'.rewind b.length)) {tr : Trace Act}
    (htr : tr = machine.trace s'.parser.cs b) (hused : tr.used ≤ l.length)
    (hn : wellNamed n (tr.events.map (·.2)) = true)
    (hlost : lostIn block s.parser (shift pre.length tr.events) pre.length = false)
    (hrun : runEvents (action block) pre.length tr.events s = .ok s₁) (herr : s₁.error = 0) :
    ∃ t, s'.execute b false = .ok (t, tr.used, b.drop tr.used) ∧ t.error = 0 ∧
      t.parser.chunked = s₁.parser.chunked ∧ t.parser.cs = tr.state ∧
      (tr.halted = false → t.parser.bodyStart = 0) := by
  subst htr
  have htimed := (machine.trace_timed s'.parser.cs b).weaken hused
  have hmax : b.length ≤ maxSize := by
    unfold maxSize
    omega
  obtain ⟨s₁', hrun', he, hc⟩ := hsync.run rfl hblock hb hmax htimed hn hlost hrun herr
  refine ⟨_, @execute_ok s' s₁' b hpos hlen (hbody ▸ Nat.zero_le _) hrun', he, hc, rfl, fun hgo => ?_⟩
  refine runEvents_inv (I := fun u => u.parser.bodyStart = 0) (fun e hmem u u' hu hact => ?_)
    (s := s'.rewind b.length)
    hbody hrun'
  have hdone : e.2 ≠ .done := by
    have hbr := trace_breaks _ hgo e hmem
    intro hd
    rw [hd] at hbr
    cases hbr
  rw [action_moves hact]
  generalize e.2 = a at hdone
  cases a <;> first | exact hu | exact absurd rfl hdone

end

end HttpResponseParser

namespace HttpConnection

open HttpResponseParser

/-- The read of the last bytes of a header block: `fbreak` stops in front of
`extra`. -/
theorem recvLoop_last {buffSize : Nat} (hbuf : buffSize < 2 ^ 31) {pre tail extra b : Bytes} {n : Bool}
    {s s' t : HttpResponseParser} (herr : t.error = 0) (w : Wire) (hb : b = tail ++ extra) (htail : tail ≠ [])
    (hfit : b.length < buffSize) (hread : b.length ≤ Wire.maxRead) (hbody : s'.parser.bodyStart = 0)
    (hcs : Reading s'.parser.cs) (hsync : Sync pre.length pre.length b.length n s (s'.rewind b.length))
    {tr : Trace Act} (htr : tr = machine.trace s'.parser.cs tail) (hn : wellNamed n (tr.events.map (·.2)) = true)
    (hlost : lostIn (pre ++ tail) s.parser (shift pre.length tr.events) pre.length = false)
    (hrun : runEvents (action (pre ++ tail)) pre.length tr.events s = .ok t) (hused : tr.used = tail.length)
    (hfin : tr.state = firstFinal) :
    ∃ t', recvLoop buffSize false s' [] (b :: w) = .returned (t', extra, w) ∧ t'.error = 0 ∧
      t'.parser.chunked = t.parser.chunked := by
  have hextra : extra.length < b.length := by
    have := List.length_pos_iff.2 htail
    rw [hb, List.length_append]
    omega
  have hsize : ([] : Bytes).length + b.length < buffSize := by simpa using hfit
  have hstop : tr.halted = true := by
    by_contra hgo
    rw [htr] at hgo hfin
    exact (trace_state _ next_reading (by simpa using hgo) hcs).2 hfin
  have htr' : tr = machine.trace s'.parser.cs b := by
    rw [hb, trace_halted _ (htr ▸ hstop), htr]
  have hall : pre ++ tail = pre ++ (tail ++ []) := by rw [List.append_nil]
  obtain ⟨u, hex, he, hc, hucs, -⟩ := execute_piece hall hb (by omega) (by omega) hbody hsync htr' hused.le hn hlost
    hrun herr
  rw [hused, hb, List.drop_left] at hex
  obtain ⟨hdone, hnerr⟩ := isFinished_final (hucs.trans hfin) he
  refine ⟨u, ?_, he, hc⟩
  have hroom : ¬ ((extra.length : Int) = toInt buffSize) := by
    rw [toInt_natCast hbuf]
    omega
  rw [recvLoop_step hsize hread (by omega) (by rw [List.nil_append, hb]; exact hex) hnerr, if_neg hroom,
    if_pos (by rw [hdone]; decide)]

/-- The loop over the reads of what is left of a header block; the last read may
go on behind it. -/
theorem recvLoop_head {buffSize : Nat} (hbuf : buffSize < 2 ^ 31) {head extra : Bytes} {t : HttpResponseParser}
    (herr : t.error = 0) (w : Wire) {bs : List Bytes} {pre tail : Bytes} {n : Bool} {s s' : HttpResponseParser}
    (hhead : head = pre ++ tail) (hbs : bs.flatten = tail ++ extra) (hne : ∀ b ∈ bs, b ≠ [])
    (hin : ∀ c ∈ starts pre.length bs, c < head.length) (htail : tail ≠ [])
    (hfits : ∀ b ∈ bs, b.length < buffSize ∧ b.length ≤ Wire.maxRead) (hbody : s'.parser.bodyStart = 0)
    (hcs : Reading s'.parser.cs) (hsync : ∀ m, m ≠ 0 → Sync pre.length pre.length m n s (s'.rewind m))
    (hbelow : Below (pre.length + 1) s.parser) {tr : Trace Act} (htr : tr = machine.trace s'.parser.cs tail)
    (hn : wellNamed n (tr.events.map (·.2)) = true)
    (hlost : ∀ c ∈ starts pre.length bs, lostIn head s.parser (shift pre.length tr.events) c = false)
    (hrun : runEvents (action head) pre.length tr.events s = .ok t) (hused : tr.used = tail.length)
    (hfin : tr.state = firstFinal) :
    ∃ t', recvLoop buffSize false s' [] (bs ++ w) = .returned (t', extra, w) ∧ t'.error = 0 ∧
      t'.parser.chunked = t.parser.chunked := by
  induction bs generalizing pre tail n s s' tr with
  | nil =>
    rw [List.flatten_nil] at hbs
    exact absurd (List.append_eq_nil_iff.1 hbs.symm).1 htail
  | cons b rest ih =>
    have hpos : 0 < b.length := List.length_pos_iff.2 (hne b List.mem_cons_self)
    obtain ⟨hfit, hread⟩ := hfits b List.mem_cons_self
    have hsize : ([] : Bytes).length + b.length < buffSize := by simpa using hfit
    rw [List.flatten_cons] at hbs
    cases rest with
    | nil =>
      rw [List.flatten_nil, List.append_nil] at hbs
      subst hhead
      exact recvLoop_last hbuf herr w hbs htail hfit hread hbody hcs (hsync _ (by omega)) htr hn
        (hlost _ List.mem_cons_self) hrun hused hfin
    | cons b' rest =>
      have hnext : pre.length + b.length < head.length := hin _ (by simp [starts])
      -- the next read begins inside the head, so this one is a piece of it
      obtain ⟨tail', rfl, hbs'⟩ : ∃ tail', tail = b ++ tail' ∧ (b' :: rest).flatten = tail' ++ extra := by
        rcases List.append_eq_append_iff.1 hbs with ⟨as, htl, hfl⟩ | ⟨cs, hb, -⟩
        · exact ⟨as, htl, hfl⟩
        · rw [hhead, hb, List.length_append, List.length_append] at hnext
          omega
      have hmore : 0 < tail'.length := by
        rw [hhead, List.length_append, List.length_append] at hnext
        omega
      have hgoes : (machine.trace s'.parser.cs b).halted = false := by
        refine trace_goes _ tail' ?_
        rw [← htr, hused, List.length_append]
        omega
      rw [trace_append _ hgoes] at htr
      subst htr
      simp only [List.length_append, Nat.add_left_cancel_iff] at hused hfin
      have hmap : ∀ d xs, (shift d xs).map (·.2) = xs.map (fun e : Nat × Act => e.2) := by simp [shift]
      simp only [List.map_append, hmap, wellNamed_append, Bool.and_eq_true] at hn
      rw [runEvents_append] at hrun
      obtain ⟨s₁, hrun₁, hrun₂⟩ := bind_ok hrun
      rw [runEvents_shift] at hrun₂
      have hrun₀ :
          runEvents (action head) 0 (shift pre.length (machine.trace s'.parser.cs b).events) s = .ok s₁ := by
        rw [runEvents_shift, Nat.zero_add]
        exact hrun₁
      simp only [shift_append, shift_shift, lostIn_append hrun₀, Bool.or_eq_false_iff] at hlost
      have herr₁ : s₁.error = 0 := runEvents_error hrun₂ herr
      obtain ⟨u, hex, he, hc, hucs, hkeep⟩ := execute_piece hhead (List.append_nil b).symm hpos
        (by omega) hbody (hsync _ (by omega)) rfl (machine.trace_used_le _ b) hn.1
          (hlost _ List.mem_cons_self).1 hrun₁ herr₁
      have hureads : Reading u.parser.cs := hucs ▸ trace_state _ next_reading hgoes hcs
      rw [trace_used _ hgoes, List.drop_length] at hex
      have hlen₁ : (pre ++ b).length = pre.length + b.length := List.length_append
      have hbelow₁ : Below (pre ++ b).length s₁.parser := by
        rw [hlen₁]
        exact (hbelow.mono (by omega)).piece hrun₁
      obtain ⟨hufin, hnerr⟩ := hureads.goes_on he
      -- the buffer is empty, which does not count as full
      have hempty : ¬ ((([] : Bytes).length : Int) = toInt buffSize) := by
        rw [toInt_natCast hbuf, List.length_nil]
        omega
      rw [List.cons_append, recvLoop_step hsize hread hpos.ne' hex hnerr, if_neg hempty,
        if_neg (by rw [hufin]; decide)]
      rw [← hlen₁] at hrun₂ hlost
      exact ih (by rw [hhead, List.append_assoc]) hbs' (fun d hd => hne d (List.mem_cons_of_mem _ hd))
        (fun k hk => hin k (List.mem_cons_of_mem _ (hlen₁ ▸ hk))) (List.length_pos_iff.1 hmore)
        (fun d hd => hfits d (List.mem_cons_of_mem _ hd)) (hkeep hgoes) hureads
        (fun m hm => Sync.fresh hbelow₁ hm he hc _)
        (hbelow₁.mono (Nat.le_succ _)) (by rw [hucs]) hn.2
        (fun k hk => (hlost k (List.mem_cons_of_mem _ (hlen₁ ▸ hk))).2) hrun₂ hused hfin

end HttpConnection

end Linko.Http
