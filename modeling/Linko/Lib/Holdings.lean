import Mathlib.Data.Set.Insert
import Mathlib.Logic.Function.Basic
/-!
# Holdings

Things that are taken and given back. At any time a thing that is out is one of those
that were out before, or it has exactly one holder.
-/

namespace Holdings

variable {ι κ : Type} {held held' : ι → Option κ} {base out : Set κ} {i j : ι} {k : κ}

/-- `held` is who holds what, `base` is what was out before, `out` is what is out now. -/
structure Exact (held : ι → Option κ) (base out : Set κ) : Prop where
  out_iff : ∀ k, k ∈ out ↔ k ∈ base ∨ ∃ i, held i = some k
  one : ∀ i j k, held i = some k → held j = some k → i = j
  taken : ∀ i k, held i = some k → k ∉ base

theorem exact_start : Exact (fun _ : ι => none) base base where
  out_iff k := by simp
  one _ _ _ hi := nomatch hi
  taken _ _ hi := nomatch hi

theorem Exact.mem_out (h : Exact held base out) (hi : held i = some k) : k ∈ out := (h.out_iff k).2 (.inr ⟨i, hi⟩)

variable [DecidableEq ι]

theorem Exact.take (h : Exact held base out) (hi : held i = none) (hk : k ∉ out) :
    Exact (Function.update held i (some k)) base (insert k out) where
  out_iff k' := by
    rw [Set.mem_insert_iff, h.out_iff]
    constructor
    · rintro (rfl | hbase | ⟨j, hj⟩)
      · exact .inr ⟨i, Function.update_self ..⟩
      · exact .inl hbase
      · refine .inr ⟨j, ?_⟩
        rw [Function.update_of_ne, hj]
        rintro rfl
        rw [hi] at hj
        cases hj
    · rintro (hbase | ⟨j, hj⟩)
      · exact .inr (.inl hbase)
      · by_cases hji : j = i
        · subst hji
          rw [Function.update_self] at hj
          exact .inl (Option.some.inj hj).symm
        · rw [Function.update_of_ne hji] at hj
          exact .inr (.inr ⟨j, hj⟩)
  one a b c ha hb := by
    by_cases hai : a = i
    · subst hai
      rw [Function.update_self] at ha
      by_contra hne
      rw [Function.update_of_ne (Ne.symm hne)] at hb
      exact hk (Option.some.inj ha ▸ h.mem_out hb)
    · rw [Function.update_of_ne hai] at ha
      by_cases hbi : b = i
      · subst hbi
        rw [Function.update_self] at hb
        exact absurd (Option.some.inj hb ▸ h.mem_out ha) hk
      · rw [Function.update_of_ne hbi] at hb
        exact h.one a b c ha hb
  taken a c ha := by
    by_cases hai : a = i
    · subst hai
      rw [Function.update_self] at ha
      obtain rfl := Option.some.inj ha
      exact fun hbase => hk ((h.out_iff k).2 (.inl hbase))
    · rw [Function.update_of_ne hai] at ha
      exact h.taken a c ha

theorem Exact.drop (h : Exact held base out) (hi : held i = some k) :
    Exact (Function.update held i none) base (out \ {k}) where
  out_iff k' := by
    rw [Set.mem_sdiff, Set.mem_singleton_iff, h.out_iff]
    constructor
    · rintro ⟨hbase | ⟨j, hj⟩, hne⟩
      · exact .inl hbase
      · refine .inr ⟨j, ?_⟩
        rw [Function.update_of_ne, hj]
        rintro rfl
        exact hne (Option.some.inj (hj.symm.trans hi))
    · rintro (hbase | ⟨j, hj⟩)
      · refine ⟨.inl hbase, ?_⟩
        rintro rfl
        exact h.taken i _ hi hbase
      · by_cases hji : j = i
        · subst hji
          rw [Function.update_self] at hj
          cases hj
        · rw [Function.update_of_ne hji] at hj
          refine ⟨.inr ⟨j, hj⟩, ?_⟩
          rintro rfl
          exact hji (h.one j i _ hj hi)
  one a b c ha hb := by
    have hof : ∀ {x}, Function.update held i none x = some c → held x = some c := by
      intro x hx
      by_cases hxi : x = i
      · subst hxi
        rw [Function.update_self] at hx
        cases hx
      · rwa [Function.update_of_ne hxi] at hx
    exact h.one a b c (hof ha) (hof hb)
  taken a c ha := by
    by_cases hai : a = i
    · subst hai
      rw [Function.update_self] at ha
      cases ha
    · rw [Function.update_of_ne hai] at ha
      exact h.taken a c ha

end Holdings
