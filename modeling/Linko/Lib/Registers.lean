import Mathlib.Data.List.Induction
import Linko.Lib.Runs
/-!
# Registers

A history is a list of writes under keys. `last` is the value written last under
a key. Where a write may also take the key away, `live` are the values that no
later write under their key has replaced, in their order. Stores that answer with
either are characterised by what one write does.
-/

namespace Registers

variable {κ α : Type} [DecidableEq κ]

/-- The value written last under a key. -/
def last (k : κ) (ws : List (κ × α)) : Option α := ws.foldl (fun o w => if w.1 = k then some w.2 else o) none

@[simp] theorem last_nil (k : κ) : last k ([] : List (κ × α)) = none := rfl

@[simp] theorem last_snoc (k : κ) (ws : List (κ × α)) (w : κ × α) :
    last k (ws ++ [w]) = if w.1 = k then some w.2 else last k ws := by
  simp [last]

/-- It is the one behind which the key is not written again. -/
theorem last_eq_some {k : κ} {v : α} {ws : List (κ × α)} :
    last k ws = some v ↔ ∃ before after, ws = before ++ (k, v) :: after ∧ ∀ w ∈ after, w.1 ≠ k := by
  induction ws using List.reverseRecOn with
  | nil => simp
  | append_singleton ws w ih =>
    rw [last_snoc]
    constructor
    · intro h
      split at h
      · rename_i hk
        obtain rfl := Option.some.inj h
        exact ⟨ws, [], by rw [← hk], by simp⟩
      · rename_i hk
        obtain ⟨before, after, rfl, hafter⟩ := ih.1 h
        refine ⟨before, after ++ [w], by simp, ?_⟩
        intro x hx
        rcases List.mem_append.1 hx with hx | hx
        · exact hafter x hx
        · rw [List.mem_singleton.1 hx]
          exact hk
    · rintro ⟨before, after, heq, hafter⟩
      rcases Runs.split_concat heq with ⟨-, rfl, -⟩ | ⟨after, rfl, rfl⟩
      · simp
      · rw [if_neg (hafter w (by simp)), ih.2 ⟨before, after, rfl, fun x hx => hafter x (by simp [hx])⟩]

theorem last_eq_none {k : κ} {ws : List (κ × α)} : last k ws = none ↔ ∀ w ∈ ws, w.1 ≠ k := by
  induction ws using List.reverseRecOn with
  | nil => simp
  | append_singleton ws w ih =>
    rw [last_snoc]
    split
    · rename_i hk
      constructor
      · intro h
        cases h
      · intro h
        exact absurd hk (h w (by simp))
    · rename_i hk
      rw [ih]
      simp [hk, or_imp, forall_and]

/-! ## Live writes -/

/-- `v` stands under `k` since the write at place `i`. -/
def LiveAt (ws : List (κ × Option α)) (i : Nat) (k : κ) (v : α) : Prop :=
  ∃ before after, ws = before ++ (k, some v) :: after ∧ before.length = i ∧ ∀ w ∈ after, w.1 ≠ k

/-- The values that stand, in the order of the writes they stand since. -/
def live : List (κ × Option α) → List (κ × α)
  | [] => []
  | w :: ws => if ws.all (fun x => x.1 ≠ w.1) then (w.2.map (w.1, ·)).toList ++ live ws else live ws

theorem exists_liveAt {ws : List (κ × Option α)} {k : κ} {v : α} :
    (∃ i, LiveAt ws i k v) ↔ last k ws = some (some v) := by
  rw [last_eq_some]
  constructor
  · rintro ⟨-, before, after, heq, -, hafter⟩
    exact ⟨before, after, heq, hafter⟩
  · rintro ⟨before, after, heq, hafter⟩
    exact ⟨before.length, before, after, heq, rfl, hafter⟩

omit [DecidableEq κ] in
@[simp] theorem not_liveAt_nil (i : Nat) (k : κ) (v : α) : ¬ LiveAt [] i k v := by
  rintro ⟨before, after, heq, -⟩
  simp at heq

omit [DecidableEq κ] in
@[simp] theorem liveAt_cons_zero (w : κ × Option α) (ws : List (κ × Option α)) (k : κ) (v : α) :
    LiveAt (w :: ws) 0 k v ↔ w = (k, some v) ∧ ∀ x ∈ ws, x.1 ≠ k := by
  constructor
  · rintro ⟨before, after, heq, hlen, hafter⟩
    obtain rfl := List.length_eq_zero_iff.1 hlen
    obtain ⟨rfl, rfl⟩ := List.cons.inj heq
    exact ⟨rfl, hafter⟩
  · rintro ⟨rfl, hafter⟩
    exact ⟨[], ws, rfl, rfl, hafter⟩

omit [DecidableEq κ] in
@[simp] theorem liveAt_cons_succ (w : κ × Option α) (ws : List (κ × Option α)) (i : Nat) (k : κ) (v : α) :
    LiveAt (w :: ws) (i + 1) k v ↔ LiveAt ws i k v := by
  constructor
  · rintro ⟨before, after, heq, hlen, hafter⟩
    cases before with
    | nil => simp at hlen
    | cons b before =>
      obtain ⟨rfl, rfl⟩ := List.cons.inj heq
      exact ⟨before, after, rfl, by simpa using hlen, hafter⟩
  · rintro ⟨before, after, rfl, rfl, hafter⟩
    exact ⟨w :: before, after, rfl, rfl, hafter⟩

/-- A write takes away what stood under its key; its own value comes last. -/
theorem live_snoc (ws : List (κ × Option α)) (w : κ × Option α) :
    live (ws ++ [w]) = (live ws).filter (fun x => x.1 ≠ w.1) ++ (w.2.map (w.1, ·)).toList := by
  induction ws with
  | nil => simp [live]
  | cons x ws ih =>
    rw [List.cons_append, live, live, ih]
    by_cases hlater : ws.all (fun y => y.1 ≠ x.1)
    · by_cases hx : w.1 = x.1
      · rw [if_neg (by simp [hx]), if_pos hlater]
        cases x.2 <;> simp [hx]
      · rw [if_pos (by simpa [hx] using hlater), if_pos hlater]
        cases x.2 <;> simp [Ne.symm hx]
    · have hlater' : ¬ (ws ++ [w]).all (fun y => y.1 ≠ x.1) := by
        intro h
        rw [List.all_append, Bool.and_eq_true] at h
        exact hlater h.1
      rw [if_neg hlater', if_neg hlater]

/-- No key stands twice. -/
theorem nodup_live (ws : List (κ × Option α)) : ((live ws).map Prod.fst).Nodup := by
  induction ws using List.reverseRecOn with
  | nil => simp [live]
  | append_singleton ws w ih =>
    have hkept : (((live ws).filter fun x => x.1 ≠ w.1).map Prod.fst).Nodup :=
      ih.sublist (List.Sublist.map _ List.filter_sublist)
    rw [live_snoc, List.map_append, List.nodup_append]
    refine ⟨hkept, by cases w.2 <;> simp, ?_⟩
    intro k hk k' hk' heq
    obtain ⟨x, hx, rfl⟩ := List.mem_map.1 hk
    have hne : x.1 ≠ w.1 := by simpa using (List.mem_filter.1 hx).2
    cases hv : w.2 with
    | none => simp [hv] at hk'
    | some v =>
      have hkey : k' = w.1 := by simpa [hv] using hk'
      exact hne (heq.trans hkey)

theorem live_cons (w : κ × Option α) (ws : List (κ × Option α)) :
    (∃ v, LiveAt (w :: ws) 0 w.1 v ∧ live (w :: ws) = (w.1, v) :: live ws) ∨
      (∀ k v, ¬ LiveAt (w :: ws) 0 k v) ∧ live (w :: ws) = live ws := by
  obtain ⟨k, o⟩ := w
  by_cases hlater : ws.all (fun x => x.1 ≠ k)
  · cases o with
    | none => exact .inr ⟨by simp, by simp [live]⟩
    | some v =>
      refine .inl ⟨v, ?_, by rw [live, if_pos hlater]; rfl⟩
      rw [liveAt_cons_zero]
      exact ⟨rfl, by simpa using hlater⟩
  · refine .inr ⟨?_, by rw [live, if_neg hlater]⟩
    intro k' v h
    obtain ⟨heq, hafter⟩ := (liveAt_cons_zero _ _ _ _).1 h
    obtain ⟨rfl, -⟩ := Prod.mk.inj heq
    exact hlater (by simpa using hafter)

/-- The first of them that a test accepts stands since the oldest write. -/
theorem find_live {ws : List (κ × Option α)} {p : κ × α → Bool} {k : κ} {v : α}
    (h : (live ws).find? p = some (k, v)) :
    ∃ i, LiveAt ws i k v ∧ p (k, v) ∧ ∀ j k' v', LiveAt ws j k' v' → p (k', v') → i ≤ j := by
  induction ws with
  | nil => cases h
  | cons w ws ih =>
    -- a later write is the first one only where the write in front is refused
    have later : (∀ k' v', LiveAt (w :: ws) 0 k' v' → ¬ p (k', v')) → (live ws).find? p = some (k, v) →
        ∃ i, LiveAt (w :: ws) i k v ∧ p (k, v) ∧ ∀ j k' v', LiveAt (w :: ws) j k' v' → p (k', v') → i ≤ j := by
      intro hfront hrest
      obtain ⟨i, hi, hp, hfirst⟩ := ih hrest
      refine ⟨i + 1, (liveAt_cons_succ _ _ _ _ _).2 hi, hp, ?_⟩
      intro j k' v' hj hp'
      cases j with
      | zero => exact absurd hp' (hfront k' v' hj)
      | succ j =>
        have hij := hfirst j k' v' ((liveAt_cons_succ _ _ _ _ _).1 hj) hp'
        omega
    rcases live_cons w ws with ⟨v₀, hlive, heq⟩ | ⟨hnone, heq⟩
    · rw [heq, List.find?_cons] at h
      split at h
      · rename_i hp
        obtain ⟨rfl, rfl⟩ := Prod.mk.inj (Option.some.inj h)
        exact ⟨0, hlive, hp, fun j _ _ _ _ => Nat.zero_le j⟩
      · rename_i hp
        refine later ?_ h
        intro k' v' hj
        obtain ⟨rfl, -⟩ := (liveAt_cons_zero _ _ _ _).1 hj
        obtain ⟨heq', -⟩ := (liveAt_cons_zero _ _ _ _).1 hlive
        obtain rfl : v' = v₀ := by simpa using heq'
        simp [hp]
    · rw [heq] at h
      exact later (fun k' v' hj => absurd hj (hnone k' v')) h

theorem find_live_none {ws : List (κ × Option α)} {p : κ × α → Bool} (h : (live ws).find? p = none) :
    ∀ i k v, LiveAt ws i k v → ¬ p (k, v) := by
  induction ws with
  | nil => simp
  | cons w ws ih =>
    intro i k v hi
    rcases live_cons w ws with ⟨v₀, hlive, heq⟩ | ⟨hnone, heq⟩
    · rw [heq, List.find?_cons] at h
      split at h
      · cases h
      rename_i hp
      cases i with
      | zero =>
        obtain ⟨rfl, -⟩ := (liveAt_cons_zero _ _ _ _).1 hi
        obtain ⟨heq', -⟩ := (liveAt_cons_zero _ _ _ _).1 hlive
        obtain rfl : v = v₀ := by simpa using heq'
        simp [hp]
      | succ i => exact ih h i k v ((liveAt_cons_succ _ _ _ _ _).1 hi)
    · rw [heq] at h
      cases i with
      | zero => exact absurd hi (hnone k v)
      | succ i => exact ih h i k v ((liveAt_cons_succ _ _ _ _ _).1 hi)

/-! ## Keyed lists -/

/-- Where no key stands twice, erasing the first entry of a key is filtering it out. -/
theorem eraseP_eq_filter {l : List (κ × α)} (h : (l.map Prod.fst).Nodup) (k : κ) :
    l.eraseP (fun x => x.1 = k) = l.filter fun x => x.1 ≠ k := by
  induction l with
  | nil => rfl
  | cons x l ih =>
    obtain ⟨hx, hl⟩ := List.nodup_cons.1 h
    by_cases hk : x.1 = k
    · have hothers : ∀ y ∈ l, y.1 ≠ k := fun y hy hyk => hx (List.mem_map.2 ⟨y, hy, hyk.trans hk.symm⟩)
      rw [List.eraseP_cons_of_pos (by simpa using hk), List.filter_cons_of_neg (by simpa using hk)]
      exact (List.filter_eq_self.2 fun y hy => by simpa using hothers y hy).symm
    · rw [List.eraseP_cons_of_neg (by simpa using hk), List.filter_cons_of_pos (by simpa using hk), ih hl]

end Registers
