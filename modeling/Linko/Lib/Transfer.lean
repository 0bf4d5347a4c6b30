import Mathlib.Algebra.GroupWithZero.Nat
import Mathlib.Algebra.Ring.Int.Defs
import Mathlib.Data.List.Basic
/-!
# Transfers in parts

A loop that calls a function until nothing is left: each call is told how much
is left and says how much it has transferred. The count is a `size_t` and the
value of a call an `int`, so that an error code becomes a large number.
-/

namespace Transfer

variable {τ : Type} {call : τ → UInt64 → Int32 × τ} {left left' : UInt64} {t t' : τ} {ks : List Nat} {fuel : Nat}

/-! ## Conversions -/

/-- From `int` to `size_t`. -/
def sizeOfInt (n : Int32) : UInt64 := n.toInt64.toUInt64

/-- From `size_t` to `int`. -/
def intOfSize (n : UInt64) : Int32 := n.toUInt32.toInt32

theorem toNat_sizeOfInt (n : Int32) :
    ((sizeOfInt n).toNat : Int) = if 0 ≤ n.toInt then n.toInt else 2 ^ 64 + n.toInt := by
  have hint : n.toInt64.toBitVec.toInt = n.toInt := Int32.toInt_toInt64 n
  have hnat : (sizeOfInt n).toNat = n.toInt64.toBitVec.toNat := rfl
  have hcond := BitVec.toInt_eq_toNat_cond n.toInt64.toBitVec
  have hlt := n.toInt64.toBitVec.isLt
  rw [hnat]
  split at hcond <;> split <;> omega

theorem toInt_intOfSize (n : UInt64) :
    (intOfSize n).toInt = if n.toNat % 2 ^ 32 < 2 ^ 31 then (n.toNat % 2 ^ 32 : Int) else n.toNat % 2 ^ 32 - 2 ^ 32 := by
  have hnat : (intOfSize n).toBitVec.toNat = n.toNat % 2 ^ 32 := UInt64.toNat_toUInt32 n
  have hcond := BitVec.toInt_eq_toNat_cond (intOfSize n).toBitVec
  have hint : (intOfSize n).toInt = (intOfSize n).toBitVec.toInt := rfl
  rw [hint, hcond, hnat]
  split <;> split <;> omega

theorem toInt_intOfSize_eq_iff {n : UInt64} : (intOfSize n).toInt = n.toNat ↔ n.toNat < 2 ^ 31 := by
  rw [toInt_intOfSize]
  split <;> omega

/-! ## The loop -/

/-- `while (left > 0) { size_t len = call(left); left -= len; }` -/
def loop (call : τ → UInt64 → Int32 × τ) : Nat → UInt64 → τ → Option τ
  | 0, _, _ => none
  | fuel + 1, left, t =>
    if 0 < left then loop call fuel (left - sizeOfInt (call t left).1) (call t left).2 else some t

/-- Calls that each transfer a part of what is left, with their sizes. -/
inductive Calls (call : τ → UInt64 → Int32 × τ) : UInt64 → τ → List Nat → UInt64 → τ → Prop where
  | done (left : UInt64) (t : τ) : Calls call left t [] left t
  | next {left left' : UInt64} {t t' : τ} {k : Nat} {ks : List Nat} : 0 < k → k ≤ left.toNat →
      (call t left).1.toInt = k → Calls call (left - UInt64.ofNat k) (call t left).2 ks left' t' →
      Calls call left t (k :: ks) left' t'

theorem sizeOfInt_eq {n : Int32} {k : Nat} (h : n.toInt = k) : sizeOfInt n = UInt64.ofNat k := by
  have hsize := toNat_sizeOfInt n
  rw [h, if_pos (Int.natCast_nonneg k)] at hsize
  have hk : (sizeOfInt n).toNat = k := by exact_mod_cast hsize
  rw [← hk, UInt64.ofNat_toNat]

theorem toNat_sub_ofNat {k : Nat} (h : k ≤ left.toNat) : (left - UInt64.ofNat k).toNat = left.toNat - k := by
  have hlt := left.toNat_lt
  have hk : (UInt64.ofNat k).toNat = k := UInt64.toNat_ofNat_of_lt' (by show k < 2 ^ 64; omega)
  rw [UInt64.toNat_sub_of_le _ _ (by rw [UInt64.le_iff_toNat_le, hk]; exact h), hk]

theorem Calls.sum_eq (h : Calls call left t ks left' t') : left'.toNat + ks.sum = left.toNat := by
  induction h with
  | done => simp
  | next hk hle hval _ ih =>
    rw [toNat_sub_ofNat hle] at ih
    rw [List.sum_cons]
    omega

/-- The loop makes these calls. -/
theorem Calls.loop_eq (h : Calls call left t ks left' t') :
    loop call (fuel + ks.length) left t = loop call fuel left' t' := by
  induction h with
  | done => rfl
  | @next left left' t t' k ks hk hle hval _ ih =>
    have hpos : 0 < left := by
      rw [UInt64.lt_iff_toNat_lt]
      exact Nat.lt_of_lt_of_le hk hle
    rw [List.length_cons, ← Nat.add_assoc, loop, if_pos hpos, sizeOfInt_eq hval, ih]

/-- With calls that always transfer something, while an invariant holds, the
loop ends. -/
theorem exists_calls {I : UInt64 → τ → Prop} (h : ∀ t left, I left t → 0 < left.toNat → ∃ k : Nat,
      (0 < k ∧ k ≤ left.toNat) ∧ (call t left).1.toInt = k ∧ I (left - UInt64.ofNat k) (call t left).2)
    (hI : I left t) : ∃ ks t', Calls call left t ks 0 t' := by
  induction hn : left.toNat using Nat.strongRecOn generalizing left t with
  | ind n ih =>
    by_cases hzero : left.toNat = 0
    · obtain rfl : left = 0 := UInt64.toNat_inj.1 hzero
      exact ⟨[], t, .done 0 t⟩
    · obtain ⟨k, ⟨hk, hle⟩, hval, hnext⟩ := h t left hI (Nat.pos_of_ne_zero hzero)
      obtain ⟨ks, t', hrest⟩ := ih _ (by omega) hnext (toNat_sub_ofNat hle)
      exact ⟨k :: ks, t', .next hk hle hval hrest⟩

theorem loop_mono {m : Nat} (h : loop call fuel left t = some t') : loop call (fuel + m) left t = some t' := by
  induction fuel generalizing left t with
  | zero => cases h
  | succ fuel ih =>
    rw [Nat.add_right_comm]
    unfold loop at h ⊢
    split at h
    · rename_i hpos
      rw [if_pos hpos]
      exact ih h
    · rename_i hpos
      rw [if_neg hpos]
      exact h

/-- What no call changes, the loop does not change. -/
theorem loop_keeps {α : Type} {f : τ → α} (hcall : ∀ t left, f (call t left).2 = f t)
    (h : loop call fuel left t = some t') : f t' = f t := by
  induction fuel generalizing left t with
  | zero => cases h
  | succ fuel ih =>
    unfold loop at h
    split at h
    · rw [ih h, hcall]
    · rw [Option.some.inj h]

/-- A loop that transfers all in parts ends behind its last call and nowhere
else. -/
theorem Calls.ends_iff (h : Calls call left t ks 0 t') {r : τ} :
    (∃ fuel, loop call fuel left t = some r) ↔ r = t' := by
  have hends : loop call (1 + ks.length) left t = some t' := h.loop_eq
  constructor
  · rintro ⟨fuel, hr⟩
    have hone := loop_mono (m := 1 + ks.length) hr
    have htwo := loop_mono (m := fuel) hends
    rw [Nat.add_comm, htwo] at hone
    exact (Option.some.inj hone).symm
  · rintro rfl
    exact ⟨_, hends⟩

theorem Calls.le (h : Calls call left t ks left' t') : ∀ k ∈ ks, k ≤ left.toNat := by
  induction h with
  | done => simp
  | next _ hle _ _ ih =>
    intro x hx
    rcases List.mem_cons.1 hx with rfl | hx
    · exact hle
    · have := ih x hx
      rw [toNat_sub_ofNat hle] at this
      omega

/-! ## The calls of a loop -/

/-- A call that is put into a log, with what was left and with its value. -/
def logged (call : τ → UInt64 → Int32 × τ) (s : τ × List (UInt64 × Int32)) (left : UInt64) :
    Int32 × τ × List (UInt64 × Int32) :=
  ((call s.1 left).1, (call s.1 left).2, s.2 ++ [(left, (call s.1 left).1)])

variable {log : List (UInt64 × Int32)} {s : τ × List (UInt64 × Int32)}

/-- The log makes no difference to the loop. -/
theorem loop_logged (call : τ → UInt64 → Int32 × τ) (fuel : Nat) (left : UInt64) (t : τ) (log : List (UInt64 × Int32)) :
    (loop (logged call) fuel left (t, log)).map Prod.fst = loop call fuel left t := by
  induction fuel generalizing left t log with
  | zero => rfl
  | succ fuel ih =>
    unfold loop
    split
    · exact ih _ _ _
    · rfl

theorem loop_log (h : loop (logged call) fuel left (t, log) = some s) : log.length ≤ s.2.length := by
  induction fuel generalizing left t log with
  | zero => cases h
  | succ fuel ih =>
    unfold loop at h
    split at h
    · have hle := ih h
      rw [List.length_append] at hle
      exact Nat.le_trans (Nat.le_add_right log.length _) hle
    · obtain rfl := Option.some.inj h
      exact Nat.le_refl _

/-- While something is left the loop goes on. -/
theorem loop_goes_on (hleft : left ≠ 0) (h : loop (logged call) fuel left (t, log) = some s) :
    log.length < s.2.length := by
  cases fuel with
  | zero => cases h
  | succ fuel =>
    unfold loop at h
    rw [if_pos (UInt64.pos_iff_ne_zero.2 hleft)] at h
    have hle := loop_log h
    rw [List.length_append] at hle
    exact hle

/-- None of the calls of a transfer in parts has taken more than was left. -/
theorem Calls.logged (h : Calls call left t ks left' t') (log : List (UInt64 × Int32)) :
    ∃ new, Calls (logged call) left (t, log) ks left' (t', log ++ new) ∧
      new.length = ks.length ∧ ∀ x ∈ new, sizeOfInt x.2 ≤ x.1 := by
  induction h generalizing log with
  | done left t => exact ⟨[], by simpa using Calls.done left (t, log), rfl, by simp⟩
  | @next left left' t t' k ks hk hle hval _ ih =>
    obtain ⟨new, hnew, hlen, hall⟩ := ih (log ++ [(left, (call t left).1)])
    refine ⟨(left, (call t left).1) :: new, ?_, by simp [hlen], ?_⟩
    · rw [← List.append_cons] at hnew
      exact .next hk hle hval hnew
    · intro x hx
      rcases List.mem_cons.1 hx with rfl | hx
      · have hsize := toNat_sizeOfInt (call t left).1
        rw [hval, if_pos (Int.natCast_nonneg k)] at hsize
        have hle' : (sizeOfInt (call t left).1).toNat ≤ left.toNat := by omega
        exact UInt64.le_iff_toNat_le.2 hle'
      · exact hall x hx

end Transfer
