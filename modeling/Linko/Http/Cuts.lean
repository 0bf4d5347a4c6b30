import Linko.Http.Session
/-!
# A header block in several reads

`http_parser_execute` sets its marks back at every call, and the callbacks take
offsets into the buffer of the current call. A token that is cut by the end of
a read is therefore stored wrong. Cut anywhere else, a header block is parsed
as if it had come in one read.
-/

namespace Linko.Http

open CString Ragel Ragel.Machine RequestMachine HttpRequestParser

/-! ## Tokens -/

/-- The parts of the text that an action at offset `p` reads back through the
marks, from where they were set: the token that ends at `p`, and for a header
line the name with the value and the value alone. -/
def readsBack (q : HttpParser) (p : Nat) : Act → List (Nat × Nat)
  | .requestMethod | .requestPath | .fragment | .httpVersion => [(q.mark, p)]
  | .queryString =>
    match q.queryStart with
    | some x => [(x, p)]
    | none => []
  | .writeValue => [(q.fieldStart, p), (q.mark, p)]
  | _ => []

def tokens (q : HttpParser) : List (Nat × Act) → List (Nat × Nat)
  | [] => []
  | (p, a) :: evs => readsBack q p a ++ tokens (moved p q a) evs

/-- No read begins inside a token or right behind it, at the byte that ends it. -/
def CutsBetween (uriRelaxed : Bool) (block : Bytes) (pieces : List Bytes) : Prop :=
  ∀ k ∈ starts 0 pieces, ∀ sp ∈ tokens ((new uriRelaxed).rewind block.length).parser
    ((machine uriRelaxed).trace start block).events, ¬ (sp.1 < k ∧ k ≤ sp.2)

instance (uriRelaxed : Bool) (block : Bytes) (pieces : List Bytes) :
    Decidable (CutsBetween uriRelaxed block pieces) :=
  inferInstanceAs (Decidable (∀ k ∈ _, _))

/-! ## What the table guarantees -/

/-- The states behind the `:` of a header line. -/
def inValue (cs : Nat) : Bool := cs = 15 || cs = 16

/-- Whether `field_len` has been set since the start of the name. -/
def named (n : Bool) : Act → Bool
  | .startField => false
  | .writeField => true
  | _ => n

/-- A value is only written when the name has been. -/
def wellNamed : Bool → List Act → Bool
  | _, [] => true
  | n, a :: acts => (a ≠ .writeValue || n) && wellNamed (named n a) acts

/-- What is checked of each transition: none leads to the error state, a final
state is only entered by `done`, `request_method` runs on a space, and the name
of a header line is complete before its value. -/
def Checked (cs : Nat) (e : Edge Act) : Prop :=
  e.target ≠ RequestMachine.error ∧ (firstFinal ≤ e.target → Act.done ∈ e.acts) ∧
    (Act.requestMethod ∈ e.acts → e.on = one ' ') ∧
    wellNamed (inValue cs) e.acts = true ∧ (inValue e.target = true → e.acts.foldl named (inValue cs) = true)

instance (cs : Nat) (e : Edge Act) : Decidable (Checked cs e) := inferInstanceAs (Decidable (_ ∧ _))

theorem rows_checked : ∀ r ∈ rows, ∀ e ∈ r.2, Checked r.1 e := by decide +kernel

section

variable {r : Bool} {cs t : Nat} {b : UInt8} {acts : List Act}

theorem next_checked (h : (machine r).next cs b = some (acts, t)) :
    ∃ e, Checked cs e ∧ e.on.has b = true ∧ e.acts = acts ∧ e.target = t := lookup_all rows_checked h

/-- The states between the first and the last. -/
def Reading (cs : Nat) : Prop := cs ≠ RequestMachine.error ∧ cs < firstFinal

theorem next_reading (h : (machine r).next cs b = some (acts, t)) (hb : acts.any (machine r).breaks = false) :
    Reading t := by
  obtain ⟨e, hc, -, rfl, rfl⟩ := next_checked h
  refine ⟨hc.1, Nat.lt_of_not_le fun hle => ?_⟩
  rw [List.any_eq_false] at hb
  exact hb .done (hc.2.1 hle) rfl

theorem next_method (h : (machine r).next cs b = some (acts, t)) (ha : Act.requestMethod ∈ acts) : b = 32 := by
  obtain ⟨e, hc, hon, rfl, rfl⟩ := next_checked h
  have hspace : ∀ b, (one ' ').has b = true → b = 32 := by decide +kernel
  exact hspace b (hc.2.2.1 ha ▸ hon)

end

theorem wellNamed_mono {n n' : Bool} (h : n = true → n' = true) {acts : List Act}
    (hw : wellNamed n acts = true) :
    wellNamed n' acts = true := by
  induction acts generalizing n n' with
  | nil => rfl
  | cons a acts ih =>
    simp only [wellNamed, Bool.and_eq_true, Bool.or_eq_true] at hw ⊢
    refine ⟨hw.1.imp id h, ih (fun hn => ?_) hw.2⟩
    cases a <;> first | exact h hn | exact hn

theorem wellNamed_append {n : Bool} {xs ys : List Act} (hx : wellNamed n xs = true)
    (hy : wellNamed (xs.foldl named n) ys = true) : wellNamed n (xs ++ ys) = true := by
  induction xs generalizing n with
  | nil => exact hy
  | cons a xs ih =>
    simp only [List.cons_append, wellNamed, Bool.and_eq_true] at hx ⊢
    exact ⟨hx.1, ih hx.2 hy⟩

theorem trace_wellNamed (r : Bool) (cs : Nat) (xs : Bytes) :
    wellNamed (inValue cs) (((machine r).trace cs xs).events.map (·.2)) = true := by
  induction xs generalizing cs with
  | nil => rfl
  | cons b bs ih =>
    rw [trace_next]
    cases hn : (machine r).next cs b with
    | none => rfl
    | some e =>
      obtain ⟨acts, t⟩ := e
      obtain ⟨e, ⟨-, -, -, hacts, htarget⟩, -, rfl, rfl⟩ := next_checked hn
      have hmap : (e.acts.map fun a => (0, a)).map (·.2) = e.acts := by simp
      by_cases hb : e.acts.any (machine r).breaks
      · simp only [hb, if_true, hmap]
        exact hacts
      · simp only [hb, Bool.false_eq_true, if_false, List.map_append, hmap, shift, List.map_map,
          Function.comp_def]
        exact wellNamed_append hacts (wellNamed_mono htarget (ih e.target))

/-! ## A piece of the block -/

section

variable {block pre b post : Bytes}

theorem drop_piece (hblock : block = pre ++ (b ++ post)) {i : Nat} (hi : i ≤ b.length) :
    block.drop (pre.length + i) = b.drop i ++ post := by
  rw [hblock, ← List.drop_drop, List.drop_left, List.drop_append_of_le_length hi]

/-- A string that lies in the piece. -/
theorem mkString_piece (hblock : block = pre ++ (b ++ post)) {i n : Nat} (h : i + n ≤ b.length) :
    mkString block (pre.length + i) n = mkString b i n := by
  have hlen : pre.length + i + n ≤ block.length := by
    rw [hblock, List.length_append, List.length_append]
    omega
  have htake : Blocks.slice block (pre.length + i) n = Blocks.slice b i n := by
    rw [Blocks.slice, Blocks.slice, drop_piece hblock (by omega), List.take_append_of_le_length]
    rw [List.length_drop]
    omega
  rw [mkString, mkString, if_pos hlen, if_pos h, htake]

/-- The name of a method that a space in the piece ends. -/
theorem charsToHttpMethod_piece (hblock : block = pre ++ (b ++ post)) {i j : Nat} (hij : i ≤ j)
    (hj : b[j]? = some 32) :
    charsToHttpMethod (block.drop (pre.length + i)) = charsToHttpMethod (b.drop i) := by
  obtain ⟨hlt, hget⟩ := List.getElem?_eq_some_iff.1 hj
  have hsplit : b.drop i = (b.drop i).take (j - i) ++ 32 :: b.drop (j + 1) := by
    rw [← hget, ← List.drop_eq_getElem_cons hlt]
    have hd : b.drop j = (b.drop i).drop (j - i) := by
      rw [List.drop_drop]
      congr 1
      omega
    rw [hd, List.take_append_drop]
  rw [drop_piece hblock (by omega), hsplit, List.append_assoc, List.cons_append]
  exact charsToHttpMethod_until _ _ _

end

/-! ## Two parsers side by side -/

/-- At offset `p` of the block: `s` has read it from its start, `s'` the piece
from offset `c` on. What was set since `c` they have in common. -/
structure Sync (c p : Nat) (n : Bool) (s s' : HttpRequestParser) : Prop where
  data : s'.data = s.data
  error : s'.error = s.error
  mark_le : s.parser.mark ≤ p
  field_le : s.parser.fieldStart ≤ p
  query_le : ∀ q, s.parser.queryStart = some q → q ≤ p
  mark : c ≤ s.parser.mark → c + s'.parser.mark = s.parser.mark
  field : c ≤ s.parser.fieldStart → c + s'.parser.fieldStart = s.parser.fieldStart
  query : ∀ q, s.parser.queryStart = some q → c ≤ q → ∃ q', s'.parser.queryStart = some q' ∧ c + q' = q
  len : n = true → c ≤ s.parser.fieldStart →
    s'.parser.fieldLen = s.parser.fieldLen ∧ s.parser.fieldStart + s.parser.fieldLen ≤ p

namespace Sync

variable {c p : Nat} {n : Bool} {s s' : HttpRequestParser}

theorem mono {p' : Nat} (h : Sync c p n s s') (hp : p ≤ p') : Sync c p' n s s' :=
  ⟨h.data, h.error, h.mark_le.trans hp, h.field_le.trans hp, fun q hq => (h.query_le q hq).trans hp,
    h.mark, h.field, h.query, fun hn hc => ⟨(h.len hn hc).1, (h.len hn hc).2.trans hp⟩⟩

/-- The request may change, in both alike. -/
theorem stores {s₁ s₁' : HttpRequestParser} (h : Sync c p n s s') (hq : s₁.parser = s.parser)
    (hq' : s₁'.parser = s'.parser) (hd : s₁'.data = s₁.data) (he : s₁'.error = s₁.error) :
    Sync c p n s₁ s₁' := by
  obtain ⟨-, -, hm, hf, hx, hmark, hfield, hquery, hlen⟩ := h
  rw [← hq] at hm hf hx
  rw [← hq, ← hq'] at hmark hfield hquery hlen
  exact ⟨hd, he, hm, hf, hx, hmark, hfield, hquery, hlen⟩

variable {block pre b post : Bytes} {i : Nat}

/-- A token that was not cut is read from the piece as from the block. -/
theorem mkString_eq (hblock : block = pre ++ (b ++ post)) (hi : i < b.length) {x x' : Nat}
    (hx : pre.length + x' = x)
    (hle : x ≤ pre.length + i) :
    mkString b x' (sizeSub i x') = mkString block x (sizeSub (pre.length + i) x) := by
  have hlen : sizeSub i x' = sizeSub (pre.length + i) x := by
    rw [sizeSub, sizeSub, if_pos (by omega), if_pos hle]
    omega
  rw [← hlen, ← hx]
  refine (mkString_piece hblock ?_).symm
  rw [sizeSub, if_pos (by omega)]
  omega

/-- The mark of a token that is not cut. -/
theorem mark_eq (h : Sync c p n s s') {a : Act} (hread : (s.parser.mark, p) ∈ readsBack s.parser p a)
    (hp : c ≤ p)
    (hcut : ∀ sp ∈ readsBack s.parser p a, ¬ (sp.1 < c ∧ c ≤ sp.2)) : c + s'.parser.mark = s.parser.mark :=
  h.mark (Nat.le_of_not_lt fun hlt => hcut _ hread ⟨hlt, hp⟩)

theorem onRequestMethod_sync (h : Sync c (pre.length + i) n s s') (hc : c = pre.length)
    (hblock : block = pre ++ (b ++ post)) (hm : c + s'.parser.mark = s.parser.mark) (hspace : b[i]? = some 32)
    (m m' : Nat) :
    Sync c (pre.length + i) n (s.onRequestMethod block s.parser.mark m)
      (s'.onRequestMethod b s'.parser.mark m') := by
  have hle := h.mark_le
  have hname : charsToHttpMethod (block.drop s.parser.mark) = charsToHttpMethod (b.drop s'.parser.mark) := by
    rw [← hm, hc]
    exact charsToHttpMethod_piece hblock (by omega) hspace
  unfold onRequestMethod
  rw [hname]
  dsimp only
  split
  · exact h.stores rfl rfl h.data rfl
  · exact h.stores rfl rfl (by rw [h.data]) h.error

theorem onRequestVersion_sync (h : Sync c (pre.length + i) n s s') (hc : c = pre.length)
    (hblock : block = pre ++ (b ++ post)) (hi : i < b.length) (hm : c + s'.parser.mark = s.parser.mark) :
    Sync c (pre.length + i) n (s.onRequestVersion block s.parser.mark (sizeSub (pre.length + i) s.parser.mark))
      (s'.onRequestVersion b s'.parser.mark (sizeSub i s'.parser.mark)) := by
  have hle := h.mark_le
  have hlen : sizeSub (pre.length + i) s.parser.mark = sizeSub i s'.parser.mark := by
    rw [sizeSub, sizeSub, if_pos hle, if_pos (by omega)]
    omega
  have hcmp : ∀ l, strncmpEq (block.drop s.parser.mark) l (sizeSub i s'.parser.mark) =
      strncmpEq (b.drop s'.parser.mark) l (sizeSub i s'.parser.mark) := by
    intro l
    rw [← hm, hc, drop_piece hblock (by omega)]
    refine strncmpEq_append ?_
    rw [List.length_drop, sizeSub, if_pos (by omega)]
    omega
  unfold onRequestVersion
  rw [hlen, hcmp, hcmp]
  split
  · exact h.stores rfl rfl (by rw [h.data]) h.error
  · split
    · exact h.stores rfl rfl (by rw [h.data]) h.error
    · exact h.stores rfl rfl h.data rfl

theorem onRequestHttpField_sync {s₁ : HttpRequestParser} (h : Sync c (pre.length + i) n s s')
    (hc : c = pre.length)
    (hblock : block = pre ++ (b ++ post)) (hi : i < b.length) (hn : n = true)
    (hm : c + s'.parser.mark = s.parser.mark)
    (hf : c ≤ s.parser.fieldStart)
    (hact : s.onRequestHttpField block s.parser.fieldStart s.parser.fieldLen s.parser.mark
      (sizeSub (pre.length + i) s.parser.mark) = .ok s₁) :
    ∃ s₁', s'.onRequestHttpField b s'.parser.fieldStart s'.parser.fieldLen s'.parser.mark
      (sizeSub i s'.parser.mark) = .ok s₁' ∧ Sync c (pre.length + i) n s₁ s₁' := by
  obtain ⟨hlen, hend⟩ := h.len hn hf
  have hfs := h.field hf
  have hname : mkString b s'.parser.fieldStart s'.parser.fieldLen =
      mkString block s.parser.fieldStart s.parser.fieldLen := by
    rw [hlen, ← hfs, hc]
    exact (mkString_piece hblock (by omega)).symm
  have hvalue := mkString_eq hblock hi (hc ▸ hm) h.mark_le
  unfold onRequestHttpField at hact ⊢
  rw [hname, hvalue, hlen]
  split at hact
  · rename_i h0
    rw [Except.ok.injEq] at hact
    rw [if_pos h0]
    exact ⟨_, rfl, hact ▸ h.stores rfl rfl h.data rfl⟩
  · rename_i h0
    obtain ⟨k, hk, hact⟩ := bind_ok hact
    obtain ⟨v, hv, hact⟩ := bind_ok hact
    rw [Except.ok.injEq] at hact
    rw [if_neg h0, hk, hv]
    exact ⟨_, rfl, hact ▸ h.stores rfl rfl (by rw [h.data]) h.error⟩

/-- The callbacks that store a token. -/
theorem store_sync {r r' : Except Fault Bytes} {f : HttpRequest → Bytes → HttpRequest} {s₁ : HttpRequestParser}
    (h : Sync c p n s s') (hr : r' = r)
    (hact : (do let v ← r; .ok { s with data := f s.data v }) = Except.ok (ε := Fault) s₁) :
    ∃ s₁', (do let v ← r'; .ok { s' with data := f s'.data v }) = Except.ok (ε := Fault) s₁' ∧
      Sync c p n s₁ s₁' := by
  obtain ⟨v, hv, hact⟩ := bind_ok hact
  rw [Except.ok.injEq] at hact
  rw [hr, hv]
  exact ⟨_, rfl, hact ▸ h.stores rfl rfl (by rw [h.data]) h.error⟩

/-- One action, on the block and on the piece. -/
theorem step {s₁ : HttpRequestParser} {a : Act} (h : Sync c (pre.length + i) n s s') (hc : c = pre.length)
    (hblock : block = pre ++ (b ++ post)) (hi : i < b.length) (hn : a = .writeValue → n = true)
    (hspace : a = .requestMethod → b[i]? = some 32)
    (hcut : ∀ sp ∈ readsBack s.parser (pre.length + i) a, ¬ (sp.1 < c ∧ c ≤ sp.2))
    (hact : action block (pre.length + i) s a = .ok s₁) :
    ∃ s₁', action b i s' a = .ok s₁' ∧ Sync c (pre.length + i) (named n a) s₁ s₁' := by
  have hp : c ≤ pre.length + i := by omega
  cases a with
  | mark | startValue =>
    rw [action, Except.ok.injEq] at hact
    exact ⟨_, rfl, hact ▸ ⟨h.data, h.error, Nat.le_refl _, h.field_le, h.query_le, fun _ => hc ▸ rfl,
      h.field, h.query, h.len⟩⟩
  | startField =>
    rw [action, Except.ok.injEq] at hact
    exact ⟨_, rfl, hact ▸ ⟨h.data, h.error, h.mark_le, Nat.le_refl _, h.query_le, h.mark,
      fun _ => hc ▸ rfl, h.query, fun hn => absurd hn Bool.false_ne_true⟩⟩
  | writeField =>
    rw [action, Except.ok.injEq] at hact
    refine ⟨_, rfl, hact ▸ ⟨h.data, h.error, h.mark_le, h.field_le, h.query_le, h.mark, h.field, h.query, ?_⟩⟩
    intro _ hf
    have hf' := h.field hf
    have hle := h.field_le
    simp only [sizeSub] at hf' ⊢
    rw [if_pos hle, if_pos (by omega)]
    omega
  | startQuery =>
    rw [action, Except.ok.injEq] at hact
    refine ⟨_, rfl, hact ▸ ⟨h.data, h.error, h.mark_le, h.field_le, fun q hq => ?_, h.mark, h.field,
      fun q hq _ => ?_, h.len⟩⟩
    · exact (Option.some.inj hq) ▸ Nat.le_refl _
    · exact ⟨i, rfl, hc ▸ Option.some.inj hq⟩
  | xml | json | requestUri =>
    rw [action, Except.ok.injEq] at hact
    exact ⟨_, rfl, hact ▸ ⟨h.data, h.error, h.mark_le, h.field_le, h.query_le, h.mark, h.field, h.query, h.len⟩⟩
  | done =>
    rw [action] at hact ⊢
    split at hact <;> split <;>
    · rw [Except.ok.injEq] at hact
      exact ⟨_, rfl, hact ▸ ⟨h.data, h.error, h.mark_le, h.field_le, h.query_le, h.mark, h.field,
        h.query, h.len⟩⟩
  | requestMethod =>
    rw [action, Except.ok.injEq] at hact
    have hm := h.mark_eq (a := .requestMethod) List.mem_cons_self hp hcut
    exact ⟨_, rfl, hact ▸ h.onRequestMethod_sync hc hblock hm (hspace rfl) _ _⟩
  | httpVersion =>
    rw [action, Except.ok.injEq] at hact
    have hm := h.mark_eq (a := .httpVersion) List.mem_cons_self hp hcut
    exact ⟨_, rfl, hact ▸ h.onRequestVersion_sync hc hblock hi hm⟩
  | fragment =>
    have hm := h.mark_eq (a := .fragment) List.mem_cons_self hp hcut
    exact h.store_sync (f := fun d v => { d with fragment := v })
      (mkString_eq hblock hi (hc ▸ hm) h.mark_le) hact
  | requestPath =>
    have hm := h.mark_eq (a := .requestPath) List.mem_cons_self hp hcut
    exact h.store_sync (f := fun d v => { d with path := v }) (mkString_eq hblock hi (hc ▸ hm) h.mark_le) hact
  | queryString =>
    rw [action] at hact
    split at hact
    · cases hact
    · rename_i q hq
      -- the query is read back, so its start is not in an earlier piece
      have hle : c ≤ q := by
        refine Nat.le_of_not_lt fun hlt => hcut (q, pre.length + i) ?_ ⟨hlt, hp⟩
        rw [readsBack, hq]
        exact List.mem_cons_self
      obtain ⟨q', hq', hcq⟩ := h.query q hq hle
      rw [action, hq']
      exact h.store_sync (f := fun d v => { d with query := v })
        (mkString_eq hblock hi (hc ▸ hcq) (h.query_le q hq)) hact
  | writeValue =>
    have hm := h.mark_eq (a := .writeValue) (List.mem_cons_of_mem _ List.mem_cons_self) hp hcut
    -- the value is read back together with the name
    have hf : c ≤ s.parser.fieldStart := Nat.le_of_not_lt fun hlt => hcut _ List.mem_cons_self ⟨hlt, hp⟩
    exact h.onRequestHttpField_sync hc hblock hi (hn rfl) hm hf hact

/-- A run over the piece, beside the part of the block's run that lies in it. -/
theorem run {lo : Nat} {evs : List (Nat × Act)} {s₁ : HttpRequestParser} (h : Sync c (pre.length + lo) n s s')
    (hc : c = pre.length) (hblock : block = pre ++ (b ++ post)) (ht : Timed lo b.length evs)
    (hn : wellNamed n (evs.map (·.2)) = true) (hspace : ∀ e ∈ evs, e.2 = .requestMethod → b[e.1]? = some 32)
    (hcut : ∀ sp ∈ tokens s.parser (shift pre.length evs), ¬ (sp.1 < c ∧ c ≤ sp.2))
    (hrun : runEvents (action block) pre.length evs s = .ok s₁) :
    ∃ s₁', runEvents (action b) 0 evs s' = .ok s₁' ∧ s₁'.data = s₁.data ∧ s₁'.error = s₁.error := by
  induction evs generalizing lo n s s' with
  | nil =>
    rw [runEvents_nil, Except.ok.injEq] at hrun
    exact ⟨s', rfl, hrun ▸ h.data, hrun ▸ h.error⟩
  | cons e evs ih =>
    obtain ⟨i, a⟩ := e
    obtain ⟨hlo, hi, hrest⟩ := ht
    rw [runEvents_cons] at hrun
    obtain ⟨s₂, hact, hrun⟩ := bind_ok hrun
    simp only [List.map_cons, wellNamed, Bool.and_eq_true, Bool.or_eq_true, decide_eq_true_eq] at hn
    have hcut' : ∀ sp ∈ readsBack s.parser (pre.length + i) a, ¬ (sp.1 < c ∧ c ≤ sp.2) :=
      fun sp hsp => hcut sp (List.mem_append_left _ hsp)
    obtain ⟨s₂', hact', hsync⟩ := (h.mono (Nat.add_le_add_left hlo pre.length)).step hc hblock hi
      (fun ha => hn.1.resolve_left fun hne => hne ha) (hspace (i, a) List.mem_cons_self) hcut' hact
    obtain ⟨s₁', hrun', heq⟩ := ih hsync hrest hn.2 (fun d hd => hspace d (List.mem_cons_of_mem _ hd))
      (fun sp hsp => hcut sp (List.mem_append_right _ (action_moves hact ▸ hsp))) hrun
    refine ⟨s₁', ?_, heq⟩
    rw [runEvents_cons, Nat.zero_add, hact']
    exact hrun'

end Sync

/-! ## A piece at a time -/

theorem tokens_append {block : Bytes} {s s' : HttpRequestParser} {xs : List (Nat × Act)}
    (hrun : runEvents (action block) 0 xs s = .ok s') (ys : List (Nat × Act)) :
    tokens s.parser (xs ++ ys) = tokens s.parser xs ++ tokens s'.parser ys := by
  induction xs generalizing s with
  | nil =>
    rw [runEvents_nil, Except.ok.injEq] at hrun
    rw [hrun]
    rfl
  | cons e xs ih =>
    rw [runEvents_cons, Nat.zero_add] at hrun
    obtain ⟨s₁, hact, hrun⟩ := bind_ok hrun
    rw [List.cons_append, tokens, tokens, ← action_moves hact, ih hrun, List.append_assoc]

/-- All marks lie before `c`. -/
structure Below (c : Nat) (q : HttpParser) : Prop where
  mark : q.mark < c
  field : q.fieldStart < c
  query : ∀ x, q.queryStart = some x → x < c

theorem Below.mono {c c' : Nat} {q : HttpParser} (h : Below c q) (hc : c ≤ c') : Below c' q :=
  ⟨h.mark.trans_le hc, h.field.trans_le hc, fun x hx => (h.query x hx).trans_le hc⟩

theorem Below.moved {c p : Nat} {q : HttpParser} (h : Below c q) (hp : p < c) (a : Act) :
    Below c (HttpRequestParser.moved p q a) := by
  cases a with
  | mark | startValue => exact ⟨hp, h.field, h.query⟩
  | startField => exact ⟨h.mark, hp, h.query⟩
  | startQuery => exact ⟨h.mark, h.field, fun x hx => Option.some.inj hx ▸ hp⟩
  | done =>
    unfold HttpRequestParser.moved
    dsimp only
    split
    · exact ⟨h.mark, h.field, h.query⟩
    · exact ⟨h.mark, h.field, h.query⟩
  | _ => exact ⟨h.mark, h.field, h.query⟩

/-- At the start of a piece nothing is marked in it. -/
theorem Sync.fresh {c : Nat} {s s' : HttpRequestParser} (h : Below c s.parser) (hd : s'.data = s.data)
    (he : s'.error = s.error) (n : Bool) : Sync c c n s s' where
  data := hd
  error := he
  mark_le := h.mark.le
  field_le := h.field.le
  query_le q hq := (h.query q hq).le
  mark hc := absurd hc (Nat.not_le_of_lt h.mark)
  field hc := absurd hc (Nat.not_le_of_lt h.field)
  query q hq hc := absurd hc (Nat.not_le_of_lt (h.query q hq))
  len _ hc := absurd hc (Nat.not_le_of_lt h.field)

/-- An error stays. -/
theorem action_error {buffer : Bytes} {p : Nat} {s s' : HttpRequestParser} {a : Act}
    (h : action buffer p s a = .ok s') (he : s.error ≠ 0) : s'.error ≠ 0 := by
  have store : ∀ {r : Except Fault Bytes} {f : Bytes → HttpRequest},
      (do let v ← r; .ok { s with data := f v }) = Except.ok (ε := Fault) s' → s'.error ≠ 0 := by
    intro r f h
    obtain ⟨v, -, h⟩ := bind_ok h
    rw [Except.ok.injEq] at h
    exact h ▸ he
  cases a with
  | mark | startField | writeField | startValue | startQuery | xml | json | requestUri =>
    rw [action, Except.ok.injEq] at h
    exact h ▸ he
  | writeValue =>
    rw [action, onRequestHttpField] at h
    split at h
    · rw [Except.ok.injEq] at h
      exact h ▸ (by decide : (1002 : Int) ≠ 0)
    · obtain ⟨k, -, h⟩ := bind_ok h
      exact store h
  | requestMethod =>
    rw [action, Except.ok.injEq, onRequestMethod] at h
    dsimp only at h
    split at h
    · exact h ▸ (by decide : (1000 : Int) ≠ 0)
    · exact h ▸ he
  | httpVersion =>
    rw [action, Except.ok.injEq, onRequestVersion] at h
    split at h
    · exact h ▸ he
    · split at h
      · exact h ▸ he
      · exact h ▸ (by decide : (1001 : Int) ≠ 0)
  | fragment | requestPath => exact store h
  | queryString =>
    rw [action] at h
    split at h
    · cases h
    · exact store h
  | done =>
    rw [action] at h
    split at h <;>
    · rw [Except.ok.injEq] at h
      exact h ▸ he

section

variable {block pre b post : Bytes} {s s' s₁ : HttpRequestParser}

/-- The call that is given a piece without a cut token. -/
theorem execute_piece (hblock : block = pre ++ (b ++ post)) (hb : 0 < b.length) (hlen : b.length < 2 ^ 31)
    (hcs : s'.parser.cs ≠ RequestMachine.error) (hbody : s'.parser.bodyStart = 0)
    (hsync : Sync pre.length pre.length (inValue s'.parser.cs) s (s'.rewind b.length)) {tr : Trace Act}
    (htr : tr = (machine s'.parser.uriRelaxed).trace s'.parser.cs b)
    (hcut : ∀ sp ∈ tokens s.parser (shift pre.length tr.events), ¬ (sp.1 < pre.length ∧ pre.length ≤ sp.2))
    (hrun : runEvents (action block) pre.length tr.events s = .ok s₁) :
    ∃ t, s'.execute b = .ok (t, tr.used, b.drop tr.used) ∧ t.data = s₁.data ∧ t.error = s₁.error ∧
      t.parser.cs = tr.state ∧
      (tr.halted = false → t.parser.bodyStart = 0 ∧ t.parser.uriRelaxed = s'.parser.uriRelaxed) := by
  subst htr
  have htimed := (machine s'.parser.uriRelaxed).trace_timed s'.parser.cs b
  have hused := (machine s'.parser.uriRelaxed).trace_used_le s'.parser.cs b
  have hspace : ∀ e ∈ ((machine s'.parser.uriRelaxed).trace s'.parser.cs b).events, e.2 = .requestMethod →
      b[e.1]? = some 32 := by
    intro e he hm
    obtain ⟨m, c, acts, t, hn, ha, hc⟩ := trace_event _ e he
    rw [hc, next_method hn (hm ▸ ha)]
  obtain ⟨s₁', hrun', hd, he⟩ := hsync.run rfl hblock (htimed.weaken hused)
    (trace_wellNamed s'.parser.uriRelaxed s'.parser.cs b) hspace hcut hrun
  refine ⟨_, @execute_ok s' s₁' b hb hlen hcs (hbody ▸ Nat.zero_le _) hrun', hd, he, rfl, fun hgo => ?_⟩
  refine runEvents_inv (I := fun u => u.parser.bodyStart = 0 ∧ u.parser.uriRelaxed = s'.parser.uriRelaxed)
    (fun e hmem u u' hu hact => ?_) (s := s'.rewind b.length) ⟨hbody, rfl⟩ hrun'
  -- only `done` sets `bodyStart`, and it would have stopped the machine
  have hdone : e.2 ≠ .done := by
    have hbr := trace_breaks _ hgo e hmem
    intro hd
    rw [hd] at hbr
    cases hbr
  rw [action_moves hact]
  generalize e.2 = a at hdone
  cases a <;> first | exact hu | exact absurd rfl hdone

end

theorem runEvents_error {buffer : Bytes} {p : Nat} {evs : List (Nat × Act)} {s s' : HttpRequestParser}
    (hrun : runEvents (action buffer) p evs s = .ok s') (h : s'.error = 0) : s.error = 0 := by
  by_contra hne
  exact runEvents_inv (I := fun u => u.error ≠ 0) (fun e _ u u' hu hact => action_error hact hu) hne hrun h

/-- What a piece marks lies before its end. -/
theorem Below.piece {buffer b : Bytes} {r : Bool} {p cs : Nat} {s s' : HttpRequestParser}
    (h : Below (p + b.length) s.parser)
    (hrun : runEvents (action buffer) p ((machine r).trace cs b).events s = .ok s') :
    Below (p + b.length) s'.parser := by
  have htimed := ((machine r).trace_timed cs b).weaken ((machine r).trace_used_le cs b)
  refine runEvents_inv (I := fun u => Below (p + b.length) u.parser) ?_ h hrun
  intro e he u u' hu hact
  rw [action_moves hact]
  exact hu.moved (Nat.add_lt_add_left (htimed.lt e he) p) e.2

/-- In a state between the first and the last the loop reads on. -/
theorem Reading.goes_on {u : HttpRequestParser} (h : Reading u.parser.cs) (he : u.error = 0) :
    u.isFinished = 0 ∧ u.hasError = false := by
  constructor
  · rw [isFinished, if_neg h.1, if_neg (Nat.not_le_of_lt h.2)]
  · simp [hasError, he, h.1]

theorem isFinished_final {u : HttpRequestParser} (h : firstFinal ≤ u.parser.cs) (he : u.error = 0) :
    u.isFinished = 1 ∧ u.hasError = false := by
  have hlive : u.parser.cs ≠ RequestMachine.error := Nat.ne_of_gt (Nat.lt_of_lt_of_le (by decide) h)
  constructor
  · rw [isFinished, if_neg hlive, if_pos h]
  · simp [hasError, he, hlive]

/-- The loop over the pieces of what is left of a block. -/
theorem recvLoop_pieces {buffSize : Nat} {block : Bytes} {t : HttpRequestParser} (h0 : toInt buffSize ≠ 0)
    (hbuf : block.length ≤ buffSize) (hmax : block.length ≤ Wire.maxRead) (hlen : block.length < 2 ^ 31)
    (herr : t.error = 0) {bs : List Bytes} {pre : Bytes} {s s' : HttpRequestParser}
    (hblock : block = pre ++ bs.flatten)
    (hne : ∀ b ∈ bs, b ≠ []) (hbs : bs ≠ []) (hcs : Reading s'.parser.cs)
    (hbody : s'.parser.bodyStart = 0)
    (hsync : ∀ m, Sync pre.length pre.length (inValue s'.parser.cs) s (s'.rewind m))
    (hbelow : Below (pre.length + 1) s.parser) {tr : Trace Act}
    (htr : tr = (machine s'.parser.uriRelaxed).trace s'.parser.cs bs.flatten)
    (hcut : ∀ k ∈ starts pre.length bs, ∀ sp ∈ tokens s.parser (shift pre.length tr.events),
      ¬ (sp.1 < k ∧ k ≤ sp.2))
    (hrun : runEvents (action block) pre.length tr.events s = .ok t) (hused : tr.used = bs.flatten.length)
    (hfin : firstFinal ≤ tr.state) :
    ∃ t', HttpSession.recvLoop buffSize s' [] bs = .returned (t', [], []) ∧ t'.isFinished = 1 ∧
      t'.data = t.data := by
  induction bs generalizing pre s s' tr with
  | nil => exact absurd rfl hbs
  | cons b rest ih =>
    have hpos : 0 < b.length := List.length_pos_iff.2 (hne b List.mem_cons_self)
    rw [List.flatten_cons] at hblock htr hused
    have hsize : pre.length + (b.length + rest.flatten.length) = block.length := by
      rw [hblock, List.length_append, List.length_append]
    have hread : Wire.read (b :: rest) (sizeSub buffSize ([] : Bytes).length) = some (b, rest) :=
      Wire.read_whole (by simp [sizeSub]; omega) (by omega)
    have hgo : ¬ ((([] : Bytes).length : Int) = toInt buffSize) := fun h => h0 h.symm
    cases rest with
    | nil =>
      rw [List.flatten_nil, List.append_nil] at htr hused
      -- the last piece: the block ends in a final state
      obtain ⟨u, hex, hd, he, hucs, -⟩ := execute_piece hblock hpos (by omega) hcs.1 hbody (hsync _) htr
        (hcut _ List.mem_cons_self) hrun
      rw [hused, List.drop_length] at hex
      obtain ⟨hfin', herr'⟩ := isFinished_final (hucs ▸ hfin) (he.trans herr)
      refine ⟨u, ?_, hfin', hd⟩
      rw [HttpSession.recvLoop_step hread hpos.ne' hex herr', if_neg hgo, if_pos (by rw [hfin']; decide)]
    | cons b' rest =>
      have hpos' : 0 < b'.length := List.length_pos_iff.2 (hne b' (by simp))
      generalize hr : s'.parser.uriRelaxed = r at *
      -- all of the block is used, so the machine does not stop in this piece
      have hgoes : ((machine r).trace s'.parser.cs b).halted = false := by
        refine trace_goes _ (b' :: rest).flatten ?_
        rw [← htr, hused, List.length_append, List.flatten_cons, List.length_append]
        omega
      rw [trace_append _ hgoes] at htr
      subst htr
      simp only [List.length_append, Nat.add_left_cancel_iff] at hused hfin
      rw [runEvents_append] at hrun
      obtain ⟨s₁, hrun₁, hrun₂⟩ := bind_ok hrun
      rw [runEvents_shift] at hrun₂
      have hrun₀ :
          runEvents (action block) 0 (shift pre.length ((machine r).trace s'.parser.cs b).events) s = .ok s₁ := by
        rw [runEvents_shift, Nat.zero_add]
        exact hrun₁
      simp only [shift_append, shift_shift, tokens_append hrun₀] at hcut
      have herr₁ : s₁.error = 0 := runEvents_error hrun₂ herr
      obtain ⟨u, hex, hd, he, hucs, hkeep⟩ :=
        execute_piece hblock hpos (by omega) hcs.1 hbody (hsync _) (by rw [hr])
          (fun sp hsp => hcut _ List.mem_cons_self sp (List.mem_append_left _ hsp)) hrun₁
      obtain ⟨hubody, hur⟩ := hkeep hgoes
      -- behind the piece the loop reads on, with nothing left in the buffer
      have hureads : Reading u.parser.cs := hucs ▸ trace_state _ next_reading hgoes hcs
      rw [trace_used _ hgoes, List.drop_length] at hex
      have hbelow₁ : Below (pre.length + b.length) s₁.parser := (hbelow.mono (by omega)).piece hrun₁
      obtain ⟨hufin, huerr⟩ := hureads.goes_on (he.trans herr₁)
      rw [HttpSession.recvLoop_step hread hpos.ne' hex huerr, if_neg hgo, if_neg (by rw [hufin]; decide)]
      have hlen₁ : (pre ++ b).length = pre.length + b.length := List.length_append
      rw [← hlen₁] at hrun₂ hcut hbelow₁
      refine ih (by rw [hblock, List.append_assoc]) (fun c hc => hne c (List.mem_cons_of_mem _ hc))
        (by simp) hureads
        hubody (fun m => @Sync.fresh _ s₁ (u.rewind m) hbelow₁ hd he _)
          (hbelow₁.mono (Nat.le_succ _)) (by rw [hur, hr, hucs])
        (fun k hk sp hsp => hcut k (List.mem_cons_of_mem _ (hlen₁ ▸ hk)) sp
          (List.mem_append_right _ hsp)) hrun₂ hused hfin

/-- What one read of the whole block does. -/
theorem recvLoop_single {buffSize : Nat} {r : Bool} {block : Bytes} {parser : HttpRequestParser}
    (hfits : block.length ≤ buffSize) (hmax : block.length ≤ Wire.maxRead)
    (h : HttpSession.recvLoop buffSize (new r) [] [block] = .returned (parser, [], [])) :
    block.length ≠ 0 ∧ toInt buffSize ≠ 0 ∧ (∃ n, (new r).execute block = .ok (parser, n, [])) ∧
      parser.hasError = false ∧ parser.isFinished ≠ 0 := by
  obtain ⟨bs, w₁, parser₁, n, data₁, hr, hbs, hex, herr, hfull, hnext⟩ := HttpSession.recvLoop_returned h
  have hcap : sizeSub buffSize ([] : Bytes).length = buffSize := by simp [sizeSub]
  rw [hcap, Wire.read_whole hfits hmax, Option.some.injEq, Prod.mk.injEq] at hr
  obtain ⟨rfl, rfl⟩ := hr
  rcases hnext with ⟨hfin, hret⟩ | hagain
  · simp only [Prod.mk.injEq] at hret
    obtain ⟨rfl, rfl, -⟩ := hret
    exact ⟨hbs, fun h0 => hfull h0.symm, ⟨n, hex⟩, herr, hfin⟩
  · rw [HttpSession.recvLoop_waits] at hagain
    cases hagain

/-- A header block that is accepted in one read is parsed the same from any
reads that do not cut a token. -/
theorem recvLoop_cutsBetween {buffSize : Nat} {r : Bool} {block : Bytes} {pieces : List Bytes}
    {parser : HttpRequestParser} (hfits : block.length ≤ buffSize) (hmax : block.length ≤ Wire.maxRead)
    (hone : HttpSession.recvLoop buffSize (new r) [] [block] = .returned (parser, [], []))
    (hne : ∀ b ∈ pieces, b ≠ []) (hflat : pieces.flatten = block) (hcut : CutsBetween r block pieces) :
    ∃ parser', HttpSession.recvLoop buffSize (new r) [] pieces = .returned (parser', [], []) ∧
      parser'.isFinished = 1 ∧ parser'.data = parser.data := by
  obtain ⟨hpos, h0, ⟨n, hex⟩, herr, hfin⟩ := recvLoop_single hfits hmax hone
  obtain ⟨hlen, hn, hstate, s₁, hrun, hd, he⟩ := execute_run hpos Nat.one_ne_zero hex
  have hused : n = block.length := by
    have hle := (machine r).trace_used_le start block
    have hdrop := congrArg List.length (execute_data hex)
    rw [List.length_drop, List.length_nil] at hdrop
    exact Nat.le_antisymm (hn ▸ hle) (by omega)
  simp only [hasError, Bool.or_eq_false_iff, decide_eq_false_iff_not, not_not] at herr
  have hfinal : firstFinal ≤ ((machine r).trace start block).state := by
    rw [isFinished, if_neg herr.2, ite_ne_right_iff, hstate] at hfin
    exact hfin.1
  have hpieces : pieces ≠ [] := by
    rintro rfl
    exact hpos (congrArg List.length hflat.symm)
  have hsync : ∀ m, Sync 0 0 false ((new r).rewind block.length) ((new r).rewind m) := fun m =>
    ⟨rfl, rfl, Nat.le_refl 0, Nat.le_refl 0, nofun, fun _ => rfl, fun _ => rfl, nofun, nofun⟩
  obtain ⟨parser', hloop, hfin', hd'⟩ :=
    @recvLoop_pieces buffSize block s₁ h0 hfits hmax hlen (he ▸ herr.1) pieces []
      ((new r).rewind block.length) (new r) hflat.symm hne hpieces
        ⟨Nat.one_ne_zero, show start < firstFinal by decide⟩ rfl hsync
      ⟨Nat.zero_lt_one, Nat.zero_lt_one, nofun⟩ _ rfl
        (by rw [hflat, List.length_nil, shift_zero]; exact hcut) (by rw [hflat]; exact hrun)
      (by rw [hflat]; exact hn.symm.trans hused) (by rw [hflat]; exact hfinal)
  exact ⟨parser', hloop, hfin', hd'.trans hd.symm⟩

def getAbc : Bytes := ascii "GET /abc?k=v HTTP/1.1\r\nHost: here\r\n\r\n"

/-- Reads that begin after the method, in front of the query, after the
version and inside the end of a line. -/
def getAbcBetween : List Bytes :=
  [ascii "GET ", ascii "/abc?", ascii "k=v ", ascii "HTTP/1.1\r", ascii "\n",
    ascii "Host: here\r\n\r", ascii "\n"]

/-- One read begins inside the path. -/
def getAbcInside : List Bytes := [ascii "GET /a", ascii "bc?k=v HTTP/1.1\r\nHost: here\r\n\r\n"]

theorem recvLoop_getAbc :
    ∃ parser, HttpSession.recvLoop 4096 (new false) [] [getAbc] = .returned (parser, [], []) ∧
    parser.data.path = ascii "/abc" :=
  ⟨_, HttpSession.recvLoop_once 4096 [] (by decide) (by decide) (by decide) rfl rfl rfl (by decide), rfl⟩

theorem recvLoop_getAbcBetween : ∃ parser parser',
    HttpSession.recvLoop 4096 (new false) [] [getAbc] = .returned (parser, [], []) ∧
      HttpSession.recvLoop 4096 (new false) [] getAbcBetween = .returned (parser', [], []) ∧
      parser'.isFinished = 1 ∧ parser'.data = parser.data := by
  obtain ⟨parser, hone, -⟩ := recvLoop_getAbc
  obtain ⟨parser', h⟩ :=
    @recvLoop_cutsBetween 4096 false getAbc getAbcBetween parser (by decide) (by decide) hone
      (by decide) (by decide) (by decide +kernel)
  exact ⟨parser, parser', hone, h⟩

/-- The second read stores the path without its beginning. -/
theorem recvLoop_getAbcInside :
    ∃ parser, HttpSession.recvLoop 4096 (new false) [] [getAbc] = .returned (parser, [], []) ∧
    getAbcInside.flatten = getAbc ∧ (∀ b ∈ getAbcInside, b ≠ []) ∧
    ¬ ∃ parser', HttpSession.recvLoop 4096 (new false) [] getAbcInside = .returned (parser', [], []) ∧
      parser'.isFinished = 1 ∧ parser'.data = parser.data := by
  obtain ⟨parser, hone, hpath⟩ := recvLoop_getAbc
  refine ⟨parser, hone, by decide, by decide, ?_⟩
  rintro ⟨parser', hloop, -, hdata⟩
  have hfirst : ∃ p₁, (new false).execute (ascii "GET /a") = .ok (p₁, 6, []) ∧ p₁.hasError = false ∧
    p₁.isFinished = 0 ∧
      ∃ p₂, p₁.execute (ascii "bc?k=v HTTP/1.1\r\nHost: here\r\n\r\n") = .ok (p₂, 31, []) ∧
        p₂.hasError = false ∧
        p₂.isFinished = 1 ∧ p₂.data.path = ascii "bc" := ⟨_, rfl, rfl, rfl, _, rfl, rfl, rfl, rfl⟩
  obtain ⟨p₁, hex₁, herr₁, hfin₁, p₂, hex₂, herr₂, hfin₂, hbc⟩ := hfirst
  have hread : Wire.read getAbcInside (sizeSub 4096 ([] : Bytes).length) = some _ :=
    Wire.read_whole (by decide) (by decide)
  have hlast := HttpSession.recvLoop_once 4096 [] (by decide) (by decide) (by decide) hex₂ herr₂ hfin₂ (by decide)
  rw [HttpSession.recvLoop_step hread (by decide) hex₁ herr₁, if_neg (by decide),
    if_neg (by rw [hfin₁]; decide), hlast] at hloop
  simp only [Recv.returned.injEq, Prod.mk.injEq] at hloop
  rw [← hloop.1] at hdata
  rw [hdata, hpath] at hbc
  exact absurd hbc (by decide)

end Linko.Http
