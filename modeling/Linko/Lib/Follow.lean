import Linko.Lib.Regex
/-!
# Expressions and machines

The ways to compare an expression with a machine: `post` follows all words of
an expression from a set of states, `enters` does so behind a first byte that
runs actions, and `agree` follows the expression and the machine byte by byte
to compare what they accept.
-/

namespace Ragel

open Regex

namespace Machine

variable {Act σ ε : Type} (M : Machine Act)

/-! ## Words without actions -/

/-- The state behind a word on which the machine runs no action. -/
def quiet : Nat → List UInt8 → Option Nat
  | cs, [] => some cs
  | cs, b :: bs =>
    match M.next cs b with
    | some ([], t) => quiet t bs
    | _ => none

theorem quiet_cons {cs t : Nat} {b : UInt8} (h : M.next cs b = some ([], t)) (bs : List UInt8) :
    M.quiet cs (b :: bs) = M.quiet t bs := by
  rw [quiet, h]

theorem quiet_append {cs t : Nat} {xs : List UInt8} (h : M.quiet cs xs = some t) (ys : List UInt8) :
    M.quiet cs (xs ++ ys) = M.quiet t ys := by
  induction xs generalizing cs with
  | nil =>
    cases h
    rfl
  | cons b xs ih =>
    rw [quiet] at h
    split at h
    · rename_i hn
      rw [List.cons_append, M.quiet_cons hn]
      exact ih h
    · cases h

theorem exec_quiet (act : Nat → σ → Act → Except ε σ) {cs t : Nat} {xs : List UInt8}
    (h : M.quiet cs xs = some t)
    (p : Nat) (s : σ) (ys : List UInt8) : M.exec act cs p s (xs ++ ys) = M.exec act t (p + xs.length) s ys := by
  induction xs generalizing cs p with
  | nil =>
    cases h
    rfl
  | cons b xs ih =>
    rw [quiet] at h
    split at h
    · rename_i hn
      rw [List.cons_append, exec, hn, List.length_cons, ← Nat.add_assoc, Nat.add_right_comm]
      exact ih h (p + 1)
    · cases h

/-- Somewhere in the word there is no transition, and no action runs before. -/
def Dead : Nat → List UInt8 → Prop
  | _, [] => False
  | cs, b :: bs =>
    match M.next cs b with
    | none => True
    | some ([], t) => Dead t bs
    | some (_ :: _, _) => False

theorem dead_none {cs : Nat} {b : UInt8} (h : M.next cs b = none) (bs : List UInt8) : M.Dead cs (b :: bs) := by
  rw [Dead, h]
  trivial

theorem dead_cons {cs t : Nat} {b : UInt8} (h : M.next cs b = some ([], t)) (bs : List UInt8) :
    M.Dead cs (b :: bs) ↔ M.Dead t bs := by
  rw [Dead, h]

theorem dead_append {cs t : Nat} {xs : List UInt8} (h : M.quiet cs xs = some t) (ys : List UInt8) :
    M.Dead cs (xs ++ ys) ↔ M.Dead t ys := by
  induction xs generalizing cs with
  | nil =>
    cases h
    rfl
  | cons b xs ih =>
    rw [quiet] at h
    split at h
    · rename_i hn
      rw [List.cons_append, M.dead_cons hn]
      exact ih h
    · cases h

theorem dead_left {cs : Nat} {xs : List UInt8} (h : M.Dead cs xs) (ys : List UInt8) : M.Dead cs (xs ++ ys) := by
  induction xs generalizing cs with
  | nil => exact h.elim
  | cons b xs ih =>
    rw [Dead] at h
    split at h
    · rename_i hn
      exact M.dead_none hn _
    · rename_i hn
      exact (M.dead_cons hn _).2 (ih h)
    · exact h.elim

/-- A run into a dead end is over before the end of the buffer. -/
theorem exec_dead (act : Nat → σ → Act → Except ε σ) {cs : Nat} {xs : List UInt8} (h : M.Dead cs xs) (p : Nat)
    (s : σ) : ∃ q, q < p + xs.length ∧ M.exec act cs p s xs = .ok (0, q, s) := by
  induction xs generalizing cs p with
  | nil => exact h.elim
  | cons b xs ih =>
    rw [Dead] at h
    split at h
    · rename_i hn
      refine ⟨p, by rw [List.length_cons]; omega, ?_⟩
      rw [exec, hn]
    · rename_i t hn
      obtain ⟨q, hq, heq⟩ := ih h (p + 1)
      refine ⟨q, by rw [List.length_cons]; omega, ?_⟩
      rw [exec, hn]
      exact heq
    · exact h.elim

/-- From the states `S`, the words of `L` lead without actions to the states `T`. -/
def Leads (S : List Nat) (L : Language UInt8) (T : List Nat) : Prop :=
  ∀ s ∈ S, ∀ w ∈ L, ∃ t ∈ T, M.quiet s w = some t

theorem Leads.seq {S T U : List Nat} {a b : Regex} (ha : M.Leads S a.lang T) (hb : M.Leads T b.lang U) :
    M.Leads S (Regex.seq a b).lang U := by
  rintro s hs w ⟨u, hu, v, hv, rfl⟩
  obtain ⟨t, ht, hq⟩ := ha s hs u hu
  obtain ⟨x, hx, hr⟩ := hb t ht v hv
  exact ⟨x, hx, (M.quiet_append hq v).trans hr⟩

theorem Leads.star {T : List Nat} {a : Regex} (ha : M.Leads T a.lang T) : M.Leads T (Regex.star a).lang T := by
  rintro s hs w ⟨ws, rfl, hws⟩
  induction ws generalizing s with
  | nil => exact ⟨s, hs, rfl⟩
  | cons u ws ih =>
    obtain ⟨hu, hrest⟩ := List.forall_mem_cons.1 hws
    obtain ⟨t, ht, hq⟩ := ha s hs u hu
    obtain ⟨x, hx, hr⟩ := ih t ht hrest
    exact ⟨x, hx, (M.quiet_append hq ws.flatten).trans hr⟩

/-! ## The states behind an expression -/

def bytes (k : ByteClass) : List UInt8 := k.flatMap fun r => (List.range' r.1 (r.2 + 1 - r.1)).map UInt8.ofNat

theorem mem_bytes {k : ByteClass} {b : UInt8} (h : k.has b = true) : b ∈ bytes k := by
  obtain ⟨r, hr, hb⟩ := List.any_eq_true.1 h
  obtain ⟨hlo, hhi⟩ := Bool.and_eq_true_iff.1 hb
  have hlo := Nat.le_of_ble_eq_true hlo
  have hhi := Nat.le_of_ble_eq_true hhi
  refine List.mem_flatMap.2 ⟨r, hr, List.mem_map.2 ⟨b.toNat, List.mem_range'_1.2 ⟨hlo, by omega⟩, ?_⟩⟩
  exact UInt8.ofNat_toNat

/-- One byte from all of `S`; the states are added to `T`. -/
def postByte (b : UInt8) : List Nat → List Nat → Option (List Nat)
  | [], T => some T
  | s :: S, T =>
    match M.next s b with
    | some ([], t) => postByte b S (T.insert t)
    | _ => none

def postBytes (S : List Nat) : List UInt8 → List Nat → Option (List Nat)
  | [], T => some T
  | b :: bs, T =>
    match M.postByte b S T with
    | some T => postBytes S bs T
    | none => none

/-- `new` is what has not been followed by `f` yet. -/
def closure (f : List Nat → Option (List Nat)) : Nat → List Nat → List Nat → Option (List Nat)
  | 0, _, _ => none
  | n + 1, T, new =>
    match f new with
    | none => none
    | some U =>
      match U.filter (fun u => !T.elem u) with
      | [] => some T
      | u :: us => closure f n (u :: us ++ T) (u :: us)

/-- The states behind the words of an expression from the states `S`, if none
of them runs an action or gets stuck. -/
def post : Regex → List Nat → Option (List Nat)
  | .eps, S => some S
  | .cls k, S => M.postBytes S (bytes k) []
  | .alt a b, S =>
    match post a S, post b S with
    | some T, some U => some (T ++ U)
    | _, _ => none
  | .seq a b, S =>
    match post a S with
    | some T => post b T
    | none => none
  | .star a, S => closure (post a) 64 S S

theorem postByte_spec {b : UInt8} {S T U : List Nat} (h : M.postByte b S T = some U) :
    (∀ t ∈ T, t ∈ U) ∧ ∀ s ∈ S, ∃ t ∈ U, M.next s b = some ([], t) := by
  induction S generalizing T with
  | nil =>
    cases h
    exact ⟨fun _ ht => ht, nofun⟩
  | cons s S ih =>
    rw [postByte] at h
    split at h
    · rename_i t hn
      obtain ⟨hT, hS⟩ := ih h
      refine ⟨fun u hu => hT u (List.mem_insert_of_mem hu), List.forall_mem_cons.2 ⟨?_, hS⟩⟩
      exact ⟨t, hT t List.mem_insert_self, hn⟩
    · cases h

theorem postBytes_spec {S T U : List Nat} {bs : List UInt8} (h : M.postBytes S bs T = some U) :
    (∀ t ∈ T, t ∈ U) ∧ ∀ b ∈ bs, ∀ s ∈ S, ∃ t ∈ U, M.next s b = some ([], t) := by
  induction bs generalizing T with
  | nil =>
    cases h
    exact ⟨fun _ ht => ht, nofun⟩
  | cons b bs ih =>
    rw [postBytes] at h
    split at h
    · rename_i V hV
      obtain ⟨hT, hS⟩ := M.postByte_spec hV
      obtain ⟨hV', hrest⟩ := ih h
      refine ⟨fun t ht => hV' t (hT t ht), List.forall_mem_cons.2 ⟨fun s hs => ?_, hrest⟩⟩
      obtain ⟨t, ht, hn⟩ := hS s hs
      exact ⟨t, hV' t ht, hn⟩
    · cases h

/-- What `closure` returns contains what it starts from and is closed under `f`. -/
theorem closure_spec {f : List Nat → Option (List Nat)} {L : Language UInt8}
    (hf : ∀ S T, f S = some T → M.Leads S L T) {n : Nat} {T new U : List Nat} (hnew : ∀ t ∈ new, t ∈ T)
    (hdone : ∀ t ∈ T, t ∈ new ∨ M.Leads [t] L T) (h : closure f n T new = some U) :
    (∀ t ∈ T, t ∈ U) ∧ M.Leads U L U := by
  induction n generalizing T new with
  | zero => cases h
  | succ n ih =>
    rw [closure] at h
    split at h
    · cases h
    · rename_i V hV
      have hlead := hf new V hV
      split at h
      -- nothing new: what has been followed is closed
      · rename_i hnone
        cases h
        refine ⟨fun _ ht => ht, fun s hs w hw => ?_⟩
        rcases hdone s hs with hs' | hs'
        · obtain ⟨t, ht, hq⟩ := hlead s hs' w hw
          have hold := (List.filter_eq_nil_iff.1 hnone) t ht
          exact ⟨t, by simpa using hold, hq⟩
        · exact hs' s List.mem_cons_self w hw
      · rename_i u us hsome
        have hsub : ∀ t ∈ V, t ∈ u :: us ++ T := by
          intro t ht
          by_cases hold : t ∈ T
          · exact List.mem_append_right _ hold
          · apply List.mem_append_left
            rw [← hsome]
            exact List.mem_filter.2 ⟨ht, by simpa using hold⟩
        have hdone' : ∀ t ∈ u :: us ++ T, t ∈ u :: us ∨ M.Leads [t] L (u :: us ++ T) := by
          intro t ht
          rcases List.mem_append.1 ht with ht | ht
          · exact .inl ht
          · refine .inr fun s hs w hw => ?_
            rw [List.mem_singleton] at hs
            subst hs
            rcases hdone s ht with hs | hs
            · obtain ⟨x, hx, hq⟩ := hlead s hs w hw
              exact ⟨x, hsub x hx, hq⟩
            · obtain ⟨x, hx, hq⟩ := hs s List.mem_cons_self w hw
              exact ⟨x, List.mem_append_right _ hx, hq⟩
        obtain ⟨hU, hclosed⟩ := ih (fun t ht => List.mem_append_left _ ht) hdone' h
        exact ⟨fun t ht => hU t (List.mem_append_right _ ht), hclosed⟩

theorem post_spec {r : Regex} {S T : List Nat} (h : M.post r S = some T) : M.Leads S r.lang T := by
  induction r generalizing S T with
  | eps =>
    cases h
    rintro s hs w rfl
    exact ⟨s, hs, rfl⟩
  | cls k =>
    rintro s hs w ⟨b, hb, rfl⟩
    obtain ⟨t, ht, hn⟩ := (M.postBytes_spec h).2 b (mem_bytes hb) s hs
    exact ⟨t, ht, M.quiet_cons hn []⟩
  | alt a b iha ihb =>
    rw [post] at h
    split at h
    · rename_i T U hT hU
      cases h
      rintro s hs w (hw | hw)
      · obtain ⟨t, ht, hq⟩ := iha hT s hs w hw
        exact ⟨t, List.mem_append_left _ ht, hq⟩
      · obtain ⟨t, ht, hq⟩ := ihb hU s hs w hw
        exact ⟨t, List.mem_append_right _ ht, hq⟩
    · cases h
  | seq a b iha ihb =>
    rw [post] at h
    split at h
    · rename_i U hU
      exact Leads.seq M (iha hU) (ihb h)
    · cases h
  | star a ih =>
    obtain ⟨hS, hclosed⟩ := M.closure_spec (fun S T => ih) (fun _ ht => ht) (fun _ ht => .inl ht) h
    intro s hs w hw
    exact Leads.star M hclosed s (hS s hs) w hw

/-- `post` with a check of the states it ends in. -/
def follows (S : List Nat) (r : Regex) (P : Nat → Bool) : Bool :=
  match M.post r S with
  | some T => T.all P
  | none => false

theorem follows_spec {S : List Nat} {r : Regex} {P : Nat → Bool} (h : M.follows S r P = true) {s : Nat}
    (hs : s ∈ S) {w : List UInt8} (hw : w ∈ r.lang) : ∃ t, M.quiet s w = some t ∧ P t = true := by
  unfold follows at h
  split at h
  · rename_i T hT
    obtain ⟨t, ht, hq⟩ := M.post_spec hT s hs w hw
    exact ⟨t, hq, List.all_eq_true.1 h t ht⟩
  · cases h

/-! ## Words that begin with actions -/

/-- What is left to follow, and from where. -/
abbrev Groups := List (Regex × List Nat)

def group (t : Nat) (r : Regex) : Groups → Groups
  | [] => [(r, [t])]
  | (x, T) :: gs => if x = r then (x, T.insert t) :: gs else (x, T) :: group t r gs

def Groups.Has (gs : Groups) (r : Regex) (t : Nat) : Prop := ∃ g ∈ gs, g.1 = r ∧ t ∈ g.2

theorem has_group {gs : Groups} {r x : Regex} {t u : Nat} :
    Groups.Has (group t r gs) x u ↔ x = r ∧ u = t ∨ Groups.Has gs x u := by
  unfold Groups.Has
  induction gs with
  | nil => simp [group, eq_comm]
  | cons g gs ih =>
    obtain ⟨y, T⟩ := g
    rw [group]
    split
    · rename_i hy
      subst hy
      simp only [List.exists_mem_cons_iff, List.mem_insert_iff]
      constructor
      · rintro (⟨rfl, rfl | hu⟩ | h)
        · exact .inl ⟨rfl, rfl⟩
        · exact .inr (.inl ⟨rfl, hu⟩)
        · exact .inr (.inr h)
      · rintro (⟨rfl, rfl⟩ | ⟨rfl, hu⟩ | h)
        · exact .inl ⟨rfl, .inl rfl⟩
        · exact .inl ⟨rfl, .inr hu⟩
        · exact .inr h
    · simp only [List.exists_mem_cons_iff, ih]
      tauto

theorem has_foldr {gs : Groups} {rs : List Regex} {x : Regex} {t u : Nat} :
    Groups.Has (rs.foldr (group t) gs) x u ↔ x ∈ rs ∧ u = t ∨ Groups.Has gs x u := by
  induction rs with
  | nil => simp
  | cons r rs ih =>
    rw [List.foldr_cons, has_group, ih, List.mem_cons]
    tauto

section

variable [DecidableEq Act]

/-- The groups behind a first byte, which has to run `acts`. -/
def starts (acts : List Act) (s : Nat) (r : Regex) : List UInt8 → Groups → Option Groups
  | [], gs => some gs
  | b :: bs, gs =>
    match r.deriv b with
    | [] => starts acts s r bs gs
    | x :: xs =>
      match M.next s b with
      | some (acts', t) => if acts' = acts then starts acts s r bs ((x :: xs).foldr (group t) gs) else none
      | none => none

/-- The first byte of a word runs `acts` from `s` and the others nothing, for
the words that begin in `k`. -/
def enters (k : ByteClass) (acts : List Act) (s : Nat) (r : Regex) (P : Nat → Bool) : Bool :=
  match M.starts acts s r (bytes k) [] with
  | some gs => gs.all fun g => M.follows g.2 g.1 P
  | none => false

theorem starts_spec {acts : List Act} {s : Nat} {r : Regex} {bs : List UInt8} {gs gs' : Groups}
    (h : M.starts acts s r bs gs = some gs') :
    (∀ x t, gs.Has x t → gs'.Has x t) ∧
      ∀ b ∈ bs, ∀ x ∈ r.deriv b, ∃ t, M.next s b = some (acts, t) ∧ gs'.Has x t := by
  induction bs generalizing gs with
  | nil =>
    cases h
    exact ⟨fun _ _ hg => hg, nofun⟩
  | cons b bs ih =>
    rw [starts] at h
    split at h
    · rename_i hnone
      obtain ⟨hgs, hbs⟩ := ih h
      refine ⟨hgs, List.forall_mem_cons.2 ⟨?_, hbs⟩⟩
      rw [hnone]
      nofun
    · rename_i y ys hsome
      split at h
      · rename_i acts' t hn
        split at h
        · rename_i hacts
          subst hacts
          obtain ⟨hgs, hbs⟩ := ih h
          refine ⟨fun x u hg => hgs x u (has_foldr.2 (.inr hg)), List.forall_mem_cons.2 ⟨fun x hx => ?_, hbs⟩⟩
          rw [hsome] at hx
          exact ⟨t, hn, hgs x t (has_foldr.2 (.inl ⟨hx, rfl⟩))⟩
        · cases h
      · cases h

theorem enters_spec {k : ByteClass} {acts : List Act} {s : Nat} {r : Regex} {P : Nat → Bool}
    (h : M.enters k acts s r P = true) {b : UInt8} (hb : k.has b = true) {w : List UInt8}
    (hw : b :: w ∈ r.lang) :
    ∃ t u, M.next s b = some (acts, t) ∧ M.quiet t w = some u ∧ P u = true := by
  unfold enters at h
  split at h
  · rename_i gs hgs
    obtain ⟨x, hx, hxw⟩ := cons_mem_lang.1 hw
    obtain ⟨t, hn, g, hg, rfl, ht⟩ := (M.starts_spec hgs).2 b (mem_bytes hb) x hx
    obtain ⟨u, hq, hu⟩ := M.follows_spec (List.all_eq_true.1 h g hg) ht hxw
    exact ⟨t, u, hn, hq, hu⟩
  · cases h

end

/-! ## What is accepted -/

/-- A state and the expressions for what is still to come. -/
abbrev Pairs := List (Nat × List Regex)

def Pairs.at (q : Nat) : Pairs → Option (List Regex)
  | [] => none
  | (n, rs) :: V => if Nat.beq n q then some rs else Pairs.at q V

/-- The pairs behind `(q, rs)`: `V` is what has been seen, `F` what is still to
be expanded. -/
def expand (q : Nat) (rs : List Regex) : List UInt8 → Pairs → Pairs → Option (Pairs × Pairs)
  | [], V, F => some (V, F)
  | b :: bs, V, F =>
    match M.next q b, derivs b rs with
    | none, [] => expand q rs bs V F
    | some ([], t), x :: xs =>
      match V.at t with
      | some us => if us.all (x :: xs).elem && (x :: xs).all us.elem then expand q rs bs V F else none
      | none => expand q rs bs ((t, x :: xs) :: V) ((t, x :: xs) :: F)
    | _, _ => none

def explore (al : List UInt8) : Nat → Pairs → Pairs → Option Pairs
  | 0, _, _ => none
  | _ + 1, V, [] => some V
  | n + 1, V, (q, rs) :: F =>
    match M.expand q rs al V F with
    | some (V, F) => explore al n V F
    | none => none

/-- The machine follows an expression from `q` on, as far as words over `al` go:
`P` holds of each state they lead to, and of whether the word is complete. -/
def agree (al : List UInt8) (n q : Nat) (r : Regex) (P : Nat → Bool → Bool) : Bool :=
  match M.explore al n [(q, [r])] [(q, [r])] with
  | some V => V.all fun p => P p.1 (p.2.any nullable)
  | none => false

/-- What happens to a pair on the byte `b`. -/
def Step (V : Pairs) (p : Nat × List Regex) (b : UInt8) : Prop :=
  M.next p.1 b = none ∧ derivs b p.2 = [] ∨
    ∃ t us, M.next p.1 b = some ([], t) ∧ (t, us) ∈ V ∧ ∀ x, x ∈ us ↔ x ∈ derivs b p.2

theorem Step.mono {V W : Pairs} (hsub : V ⊆ W) {p : Nat × List Regex} {b : UInt8} (h : M.Step V p b) :
    M.Step W p b := by
  rcases h with h | ⟨t, us, hn, hmem, hus⟩
  · exact .inl h
  · exact .inr ⟨t, us, hn, hsub hmem, hus⟩

theorem Pairs.mem_of_at {V : Pairs} {q : Nat} {rs : List Regex} (h : V.at q = some rs) : (q, rs) ∈ V := by
  induction V with
  | nil => cases h
  | cons p V ih =>
    obtain ⟨n, us⟩ := p
    rw [Pairs.at] at h
    split at h
    · rename_i hn
      obtain rfl := Nat.eq_of_beq_eq_true hn
      cases h
      exact List.mem_cons_self
    · exact List.mem_cons_of_mem _ (ih h)

theorem expand_spec {q : Nat} {rs : List Regex} {bs : List UInt8} {V F W G : Pairs}
    (h : M.expand q rs bs V F = some (W, G)) :
    V ⊆ W ∧ F ⊆ G ∧ (∀ p ∈ W, p ∈ V ∨ p ∈ G) ∧ ∀ b ∈ bs, M.Step W (q, rs) b := by
  induction bs generalizing V F with
  | nil =>
    cases h
    exact ⟨List.Subset.refl _, List.Subset.refl _, fun p hp => .inl hp, nofun⟩
  | cons b bs ih =>
    rw [expand] at h
    split at h
    · rename_i hn hd
      obtain ⟨hV, hF, hnew, hbs⟩ := ih h
      exact ⟨hV, hF, hnew, List.forall_mem_cons.2 ⟨.inl ⟨hn, hd⟩, hbs⟩⟩
    · rename_i t x xs hn hd
      split at h
      -- a state that has been seen needs the same expressions
      · rename_i us hat
        split at h
        · rename_i heq
          obtain ⟨hV, hF, hnew, hbs⟩ := ih h
          refine ⟨hV, hF, hnew, List.forall_mem_cons.2 ⟨.inr ⟨t, us, hn, hV (Pairs.mem_of_at hat), ?_⟩, hbs⟩⟩
          intro y
          rw [hd]
          rw [Bool.and_eq_true, List.all_eq_true, List.all_eq_true] at heq
          exact ⟨fun hy => List.elem_iff.1 (heq.1 y hy), fun hy => List.elem_iff.1 (heq.2 y hy)⟩
        · cases h
      · obtain ⟨hV, hF, hnew, hbs⟩ := ih h
        rw [List.cons_subset] at hV hF
        refine ⟨hV.2, hF.2, ?_, List.forall_mem_cons.2 ⟨.inr ⟨t, x :: xs, hn, hV.1, ?_⟩, hbs⟩⟩
        · intro p hp
          rcases hnew p hp with hp | hp
          · rcases List.mem_cons.1 hp with rfl | hp
            · exact .inr hF.1
            · exact .inl hp
          · exact .inr hp
        · intro y
          rw [hd]
    · cases h

/-- The pairs that `explore` returns contain what follows each of them. -/
theorem explore_spec {al : List UInt8} {n : Nat} {V F W : Pairs}
    (hdone : ∀ p ∈ V, p ∈ F ∨ ∀ b ∈ al, M.Step V p b) (h : M.explore al n V F = some W) :
    V ⊆ W ∧ ∀ p ∈ W, ∀ b ∈ al, M.Step W p b := by
  induction n generalizing V F with
  | zero => cases h
  | succ n ih =>
    rcases F with _ | ⟨⟨q, rs⟩, F⟩
    · cases h
      refine ⟨List.Subset.refl _, fun p hp => ?_⟩
      exact (hdone p hp).resolve_left List.not_mem_nil
    · rw [explore] at h
      split at h
      · rename_i V' F' hexp
        obtain ⟨hV, hF, hnew, hstep⟩ := M.expand_spec hexp
        have hdone' : ∀ p ∈ V', p ∈ F' ∨ ∀ b ∈ al, M.Step V' p b := by
          intro p hp
          -- a pair that was there is done, waits, or has just been expanded
          rcases hnew p hp with hp | hp
          · rcases hdone p hp with hp | hp
            · rcases List.mem_cons.1 hp with rfl | hp
              · exact .inr hstep
              · exact .inl (hF hp)
            · exact .inr fun b hb => Step.mono M hV (hp b hb)
          · exact .inl hp
        obtain ⟨hW, hclosed⟩ := ih hdone' h
        exact ⟨List.Subset.trans hV hW, hclosed⟩
      · cases h

theorem quiet_langs {al : List UInt8} {V : Pairs} (hclosed : ∀ p ∈ V, ∀ b ∈ al, M.Step V p b)
    {p : Nat × List Regex} (hp : p ∈ V) {w : List UInt8} (hw : ∀ b ∈ w, b ∈ al) :
    M.Dead p.1 w ∧ w ∉ langs p.2 ∨
      ∃ t us, M.quiet p.1 w = some t ∧ (t, us) ∈ V ∧ (w ∈ langs p.2 ↔ us.any nullable = true) := by
  induction w generalizing p with
  | nil => exact .inr ⟨p.1, p.2, rfl, hp, nil_mem_langs⟩
  | cons b w ih =>
    obtain ⟨hb, hw⟩ := List.forall_mem_cons.1 hw
    -- both stop at `b` or both go on
    rcases hclosed p hp b hb with ⟨hn, hd⟩ | ⟨t, us, hn, hmem, hus⟩
    · refine .inl ⟨M.dead_none hn w, fun hlang => ?_⟩
      obtain ⟨x, hx, -⟩ := cons_mem_langs.1 hlang
      rw [hd] at hx
      cases hx
    · have hsame : b :: w ∈ langs p.2 ↔ w ∈ langs us := by
        rw [cons_mem_langs]
        exact ⟨fun ⟨x, hx, hxw⟩ => ⟨x, (hus x).2 hx, hxw⟩, fun ⟨x, hx, hxw⟩ => ⟨x, (hus x).1 hx, hxw⟩⟩
      rw [M.quiet_cons hn, M.dead_cons hn, hsame]
      exact ih hmem hw

theorem agree_spec {al : List UInt8} {n q : Nat} {r : Regex} {P : Nat → Bool → Bool}
    (h : M.agree al n q r P = true) {w : List UInt8} (hw : ∀ b ∈ w, b ∈ al) :
    M.Dead q w ∧ w ∉ r.lang ∨
      ∃ t done, M.quiet q w = some t ∧ P t done = true ∧ (w ∈ r.lang ↔ done = true) := by
  unfold agree at h
  split at h
  · rename_i V hV
    obtain ⟨hmem, hclosed⟩ := M.explore_spec (fun p hp => .inl hp) hV
    rw [← mem_langs_singleton]
    rcases M.quiet_langs hclosed (hmem List.mem_cons_self) hw with hdead | ⟨t, us, hq, hus, hl⟩
    · exact .inl hdead
    · exact .inr ⟨t, us.any nullable, hq, List.all_eq_true.1 h (t, us) hus, hl⟩
  · cases h

/-! ## Bytes that are alike -/

theorem dead_quiet {cs : Nat} {xs : List UInt8} (h : M.Dead cs xs) : M.quiet cs xs = none := by
  induction xs generalizing cs with
  | nil => exact h.elim
  | cons b xs ih =>
    rw [Dead] at h
    rw [quiet]
    split at h
    · rename_i hn
      rw [hn]
    · rename_i hn
      rw [hn]
      exact ih h
    · exact h.elim

/-- Two words lead to the same place. -/
def SameEnd (q : Nat) (v w : List UInt8) : Prop := M.quiet q v = M.quiet q w ∧ (M.Dead q v ↔ M.Dead q w)

theorem SameEnd.snoc {q t : Nat} {v w : List UInt8} {b c : UInt8} (h : M.SameEnd q v w) (ht : M.quiet q w = some t)
    (hn : M.next t b = M.next t c) : M.SameEnd q (v ++ [b]) (w ++ [c]) := by
  have hv : M.quiet q v = some t := h.1.trans ht
  constructor
  · rw [M.quiet_append hv, M.quiet_append ht, quiet, quiet, hn]
  · rw [M.dead_append hv, M.dead_append ht, Dead, Dead, hn]

theorem SameEnd.dead {q : Nat} {v w : List UInt8} {b c : UInt8} (h : M.SameEnd q v w) (hw : M.Dead q w) :
    M.SameEnd q (v ++ [b]) (w ++ [c]) := by
  have hv := M.dead_left (h.2.2 hw) [b]
  have hw := M.dead_left hw [c]
  exact ⟨(M.dead_quiet hv).trans (M.dead_quiet hw).symm, fun _ => hw, fun _ => hv⟩

/-- `agree` for the words that `f` takes to words over `al`, where the bytes and
their images are alike to the expression and to the states that are met. -/
theorem agree_map {al : List UInt8} {n q : Nat} {r : Regex} {P : Nat → Bool → Bool}
    (h : M.agree al n q r P = true) {B : UInt8 → Prop} {f : UInt8 → UInt8} (hf : ∀ b, B b → f b ∈ al)
    (hr : ∀ k ∈ r.classes, ∀ b, B b → k.has (f b) = k.has b)
    (hM : ∀ t done, P t done = true → ∀ b, B b → M.next t b = M.next t (f b)) {w : List UInt8}
    (hw : ∀ b ∈ w, B b) :
    M.Dead q w ∧ w ∉ r.lang ∨
      ∃ t done, M.quiet q w = some t ∧ P t done = true ∧ (w ∈ r.lang ↔ done = true) := by
  have hmap : ∀ v : List UInt8, (∀ b ∈ v, B b) → ∀ b ∈ v.map f, b ∈ al := by
    intro v hv b hb
    obtain ⟨c, hc, rfl⟩ := List.mem_map.1 hb
    exact hf c (hv c hc)
  have hend : M.SameEnd q w (w.map f) := by
    induction w using List.reverseRecOn with
    | nil => exact ⟨rfl, Iff.rfl⟩
    | append_singleton w b ih =>
      have hw' : ∀ c ∈ w, B c := fun c hc => hw c (List.mem_append_left [b] hc)
      rw [List.map_append]
      rcases M.agree_spec h (hmap w hw') with ⟨hdead, -⟩ | ⟨t, done, hq, hP, -⟩
      · exact SameEnd.dead M (ih hw') hdead
      · exact SameEnd.snoc M (ih hw') hq (hM t done hP b (hw b (by simp)))
  rw [hend.1, hend.2, ← mem_lang_map (fun k hk b hb => hr k hk b (hw b hb))]
  exact M.agree_spec h (hmap w hw)

end Machine

end Ragel
