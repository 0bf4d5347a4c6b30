import Mathlib.Algebra.Ring.Int.Defs
import Mathlib.Data.Nat.Basic
/-!
# Folding the sign into the lowest bit

A word shifted left by one, with its bits from `k` on (an arithmetic shift) laid
over it: small numbers of either sign become small unsigned ones. Undoing it
gives the word back exactly when all bits from `k` on are the sign.
-/

namespace SignFold

variable {w : Nat}

def fold (k : Nat) (v : BitVec w) : BitVec w := (v <<< 1) ^^^ v.sshiftRight k

def unfold (e : BitVec w) : BitVec w := (e >>> 1) ^^^ -(e &&& 1)

/-- The bit of the sign extension of `v`. -/
def bit (v : BitVec w) (j : Nat) : Bool := v.getLsbD (min j (w - 1))

theorem getLsbD_sshiftRight_eq {k j : Nat} (v : BitVec w) (hj : j < w) :
    (v.sshiftRight k).getLsbD j = bit v (j + k) := by
  rw [BitVec.getLsbD_sshiftRight, bit, Nat.add_comm j k]
  by_cases h : k + j < w
  · rw [if_pos h, Nat.min_eq_left (by omega)]
    simp [hj]
  · rw [if_neg h, Nat.min_eq_right (by omega), BitVec.msb_eq_getLsbD_last]
    simp [hj]

theorem fold_zero {k : Nat} (v : BitVec w) (hk : k < w) : (fold k v).getLsbD 0 = v.getLsbD k := by
  rw [fold, BitVec.getLsbD_xor, getLsbD_sshiftRight_eq v (by omega), bit, Nat.zero_add,
    Nat.min_eq_left (by omega)]
  simp

theorem fold_succ {k j : Nat} (v : BitVec w) (hj : j + 1 < w) :
    (fold k v).getLsbD (j + 1) = (v.getLsbD j ^^ bit v (j + 1 + k)) := by
  rw [fold, BitVec.getLsbD_xor, getLsbD_sshiftRight_eq v hj, BitVec.getLsbD_shiftLeft]
  simp only [hj, decide_true, Bool.true_and, Nat.not_lt.2 (Nat.le_add_left 1 j), decide_false, Bool.not_false,
    Nat.add_sub_cancel]

/-- The lowest bit spread over the whole word. -/
theorem neg_and_one (e : BitVec w) : -(e &&& 1) = BitVec.fill w (e.getLsbD 0) := by
  show -(e &&& 1#w) = _
  rw [BitVec.and_one_eq_setWidth_ofBool_getLsbD]
  cases e.getLsbD 0
  · simp [BitVec.fill]
  · rw [BitVec.fill, cond_true]
    congr 1
    apply BitVec.eq_of_toNat_eq
    simp

theorem getLsbD_unfold (e : BitVec w) {j : Nat} (hj : j < w) :
    (unfold e).getLsbD j = (e.getLsbD (j + 1) ^^ e.getLsbD 0) := by
  rw [unfold, neg_and_one, BitVec.getLsbD_xor, BitVec.getLsbD_ushiftRight, BitVec.fill, Nat.add_comm]
  cases e.getLsbD 0
  · simp
  · simp [BitVec.neg_one_eq_allOnes, hj]

/-- The folded word determines the word: bit by bit from the sign down. -/
theorem fold_injective {k : Nat} (hk : k < w) : Function.Injective (fold (w := w) k) := by
  intro a b h
  -- whether two bits agree is the same question at every place, and at `k` they agree
  have hsame : ∀ n i, i + n = w - 1 → (a.getLsbD i = b.getLsbD i ↔ a.getLsbD (w - 1) = b.getLsbD (w - 1)) := by
    intro n
    induction n using Nat.strongRecOn with
    | ind n ih =>
      intro i hi
      cases n with
      | zero =>
        obtain rfl : i = w - 1 := by omega
        rfl
      | succ n =>
        have hbit : (a.getLsbD i ^^ bit a (i + 1 + k)) = (b.getLsbD i ^^ bit b (i + 1 + k)) := by
          rw [← fold_succ a (by omega), ← fold_succ b (by omega), h]
        have hup := ih (w - 1 - min (i + 1 + k) (w - 1)) (by omega) (min (i + 1 + k) (w - 1)) (by omega)
        rw [← hup]
        unfold bit at hbit
        revert hbit
        generalize a.getLsbD i = a₀, b.getLsbD i = b₀, a.getLsbD (min (i + 1 + k) (w - 1)) = a₁,
          b.getLsbD (min (i + 1 + k) (w - 1)) = b₁
        revert a₀ b₀ a₁ b₁
        decide
  have hk' : a.getLsbD k = b.getLsbD k := by rw [← fold_zero a hk, ← fold_zero b hk, h]
  have htop := (hsame (w - 1 - k) k (by omega)).1 hk'
  apply BitVec.eq_of_getLsbD_eq
  intro i hi
  exact (hsame (w - 1 - i) i (by omega)).2 htop

/-- Undoing the fold gives the word back when the bits from `k` on are equal. -/
theorem unfold_fold_iff_bits {k : Nat} (hk : k < w) (v : BitVec w) :
    unfold (fold k v) = v ↔ ∀ j, k ≤ j → bit v j = v.getLsbD k := by
  constructor
  · intro h j hj
    have hmin : bit v j = bit v (min j (w - 1)) := by rw [bit, bit, Nat.min_assoc, Nat.min_self]
    rw [hmin]
    rcases Nat.eq_or_lt_of_le (show k ≤ min j (w - 1) by omega) with he | hlt
    · rw [bit, ← he, Nat.min_eq_left (by omega)]
    · -- this bit is laid over bit `i`, which has to come back as it was
      obtain ⟨i, hi⟩ := Nat.exists_eq_add_of_lt hlt
      have hcomm : i + 1 + k = min j (w - 1) := by omega
      have hback : (unfold (fold k v)).getLsbD i = v.getLsbD i := by rw [h]
      rw [getLsbD_unfold _ (by omega), fold_succ v (by omega), fold_zero v hk, hcomm] at hback
      revert hback
      generalize v.getLsbD i = a, bit v (min j (w - 1)) = b, v.getLsbD k = c
      revert a b c
      decide
  · intro h
    apply BitVec.eq_of_getLsbD_eq
    intro j hj
    rw [getLsbD_unfold _ hj, fold_zero v hk]
    by_cases hlast : j + 1 < w
    · rw [fold_succ v hlast, h _ (by omega), Bool.xor_assoc, Bool.xor_self, Bool.xor_false]
    · obtain rfl : j = w - 1 := by omega
      rw [BitVec.getLsbD_of_ge _ _ (by omega), Bool.false_xor, ← h (w - 1) (by omega), bit, Nat.min_self]

theorem sshiftRight_eq_fill_iff {k : Nat} (hk : k < w) (v : BitVec w) (b : Bool) :
    v.sshiftRight k = BitVec.fill w b ↔ ∀ j, k ≤ j → bit v j = b := by
  constructor
  · intro h j hj
    have hbit : (v.sshiftRight k).getLsbD (min j (w - 1) - k) = b := by
      rw [h, BitVec.getLsbD_fill]
      simp [show min j (w - 1) - k < w by omega]
    rw [← hbit, getLsbD_sshiftRight_eq v (by omega), Nat.sub_add_cancel (by omega), bit, bit, Nat.min_assoc,
      Nat.min_self]
  · intro h
    apply BitVec.eq_of_getLsbD_eq
    intro j hj
    rw [getLsbD_sshiftRight_eq v hj, h _ (by omega), BitVec.getLsbD_fill]
    simp [hj]

theorem toInt_fill (hw : 0 < w) (b : Bool) : (BitVec.fill w b).toInt = if b then -1 else 0 := by
  cases b
  · simp [BitVec.fill]
  · rw [BitVec.fill, cond_true, if_pos rfl]
    exact (congrArg BitVec.toInt BitVec.neg_one_eq_allOnes).trans (by rw [BitVec.toInt_allOnes, if_pos hw])

/-- The bits from `k` on are equal exactly for the values of `k + 1` bits. -/
theorem bits_iff_range {k : Nat} (hk : k < w) (v : BitVec w) :
    (∀ j, k ≤ j → bit v j = v.getLsbD k) ↔ -2 ^ k ≤ v.toInt ∧ v.toInt < 2 ^ k := by
  have hpow : (0 : Int) < 2 ^ k := Int.pow_pos (by decide)
  have hdiv : (v.sshiftRight k).toInt = v.toInt / 2 ^ k := by
    rw [BitVec.toInt_sshiftRight, Int.shiftRight_eq_div_pow]
    norm_cast
  constructor
  · intro h
    have hq := congrArg BitVec.toInt ((sshiftRight_eq_fill_iff hk v _).2 h)
    rw [hdiv, toInt_fill (by omega), Int.ediv_eq_iff_of_pos hpow] at hq
    split at hq <;> omega
  · intro ⟨hlow, hhigh⟩
    obtain ⟨b, hb⟩ : ∃ b : Bool, v.toInt / 2 ^ k = if b then -1 else 0 := by
      by_cases hneg : v.toInt < 0
      · exact ⟨true, by rw [if_pos rfl, Int.ediv_eq_iff_of_pos hpow]; omega⟩
      · exact ⟨false, Int.ediv_eq_zero_of_lt (by omega) hhigh⟩
    have hfill : v.sshiftRight k = BitVec.fill w b := by
      apply BitVec.eq_of_toInt_eq
      rw [hdiv, hb, toInt_fill (by omega)]
    have hall := (sshiftRight_eq_fill_iff hk v b).1 hfill
    intro j hj
    have hkbit := hall k (Nat.le_refl k)
    rw [bit, Nat.min_eq_left (by omega)] at hkbit
    rw [hall j hj, hkbit]

theorem unfold_fold_iff {k : Nat} (hk : k < w) (v : BitVec w) :
    unfold (fold k v) = v ↔ -2 ^ k ≤ v.toInt ∧ v.toInt < 2 ^ k :=
  (unfold_fold_iff_bits hk v).trans (bits_iff_range hk v)

/-- Within that range the lowest bit of the folded word is the sign. -/
theorem fold_sign {k : Nat} (hk : k < w) {v : BitVec w} (h : -2 ^ k ≤ v.toInt ∧ v.toInt < 2 ^ k) :
    (fold k v).getLsbD 0 = v.msb := by
  have htop := (bits_iff_range hk v).2 h (w - 1) (by omega)
  rw [bit, Nat.min_self, ← BitVec.msb_eq_getLsbD_last] at htop
  rw [fold_zero v hk, htop]

end SignFold
