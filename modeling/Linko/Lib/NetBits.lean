import Linko.Lib.Words
/-!
# Bits in network order

The bits of a byte string from the first bit of its first byte on, the words
that have it as their object representation, and what a prefix length says of
them.
-/

namespace NetBits

open Words

/-- Bit `i`, counted from the highest bit of the first byte. -/
def bitAt (bs : List UInt8) (i : Nat) : Bool := (bs.getD (i / 8) 0).toBitVec.getMsbD (i % 8)

/-! ## The bits of a word in memory -/

/-- Where that bit is in a word of `w` bytes. -/
def place (o : Order) (w i : Nat) : Nat :=
  match o with
  | .little => 8 * (i / 8) + (7 - i % 8)
  | .big => 8 * w - 1 - i

theorem getD_leBytes {w j : Nat} (hj : j < w) (n : Nat) : (leBytes w n).getD j 0 = UInt8.ofNat (n / 256 ^ j) := by
  induction w generalizing j n with
  | zero => omega
  | succ w ih =>
    cases j with
    | zero => simp [leBytes]
    | succ j =>
      rw [leBytes, List.getD_cons_succ, ih (by omega), Nat.div_div_eq_div_mul, Nat.pow_succ']

theorem getMsbD_ofNat_div (n j : Nat) {k : Nat} (hk : k < 8) :
    (UInt8.ofNat (n / 256 ^ j)).toBitVec.getMsbD k = n.testBit (8 * j + (7 - k)) := by
  have hpow : 256 ^ j = 2 ^ (8 * j) := by rw [Nat.pow_mul]
  have hbits : (UInt8.ofNat (n / 2 ^ (8 * j))).toBitVec = BitVec.ofNat 8 (n / 2 ^ (8 * j)) := rfl
  have hlt : 8 - 1 - k < 8 := by omega
  rw [hpow, hbits, BitVec.getMsbD_eq_getLsbD, BitVec.getLsbD_ofNat, Nat.testBit_div_two_pow, Nat.add_comm]
  simp [hk, hlt]

theorem place_lt {o : Order} {w i : Nat} (hi : i < 8 * w) : place o w i < 8 * w := by
  cases o <;> simp only [place] <;> omega

theorem bitAt_bytesOf {w i : Nat} (o : Order) (v : BitVec (8 * w)) (hi : i < 8 * w) :
    bitAt (bytesOf o v) i = v.getLsbD (place o w i) := by
  have hmod : i % 8 < 8 := Nat.mod_lt i (by decide)
  cases o with
  | little => rw [bitAt, bytesOf, getD_leBytes (by omega), getMsbD_ofNat_div _ _ hmod, place, BitVec.testBit_toNat]
  | big =>
    have hrev : (leBytes w v.toNat).reverse.getD (i / 8) 0 = (leBytes w v.toNat).getD (w - 1 - i / 8) 0 := by
      rw [List.getD_eq_getElem?_getD, List.getD_eq_getElem?_getD, List.getElem?_reverse (by simp; omega),
        length_leBytes]
    have hplace : 8 * (w - 1 - i / 8) + (7 - i % 8) = 8 * w - 1 - i := by omega
    rw [bitAt, bytesOf, hrev, getD_leBytes (by omega), getMsbD_ofNat_div _ _ hmod, place, hplace,
      BitVec.testBit_toNat]

theorem bitAt_and {w i : Nat} (o : Order) (u v : BitVec (8 * w)) (hi : i < 8 * w) :
    bitAt (bytesOf o (u &&& v)) i = (bitAt (bytesOf o u) i && bitAt (bytesOf o v) i) := by
  rw [bitAt_bytesOf o _ hi, bitAt_bytesOf o _ hi, bitAt_bytesOf o _ hi, BitVec.getLsbD_and]

theorem bitAt_or {w i : Nat} (o : Order) (u v : BitVec (8 * w)) (hi : i < 8 * w) :
    bitAt (bytesOf o (u ||| v)) i = (bitAt (bytesOf o u) i || bitAt (bytesOf o v) i) := by
  rw [bitAt_bytesOf o _ hi, bitAt_bytesOf o _ hi, bitAt_bytesOf o _ hi, BitVec.getLsbD_or]

theorem bitAt_not {w i : Nat} (o : Order) (v : BitVec (8 * w)) (hi : i < 8 * w) :
    bitAt (bytesOf o (~~~v)) i = !bitAt (bytesOf o v) i := by
  rw [bitAt_bytesOf o _ hi, bitAt_bytesOf o _ hi, BitVec.getLsbD_not]
  simp [place_lt hi]

/-! ## Prefixes -/

/-- `b` has the first `p` of the `n` bits of `a` and no others. -/
def IsNetwork (n p : Nat) (a b : Nat → Bool) : Prop := ∀ i < n, b i = (decide (i < p) && a i)

/-- `b` has the first `p` of the `n` bits of `a` and all others. -/
def IsBroadcast (n p : Nat) (a b : Nat → Bool) : Prop := ∀ i < n, b i = (!decide (i < p) || a i)

/-- The first `p` of the `n` bits. -/
def IsMask (n p : Nat) (b : Nat → Bool) : Prop := ∀ i < n, b i = decide (i < p)

/-- With any mask, the network is right where each bit that the mask has wrong is clear. -/
theorem isNetwork_iff {n p : Nat} {a b mask : Nat → Bool} (hb : ∀ i < n, b i = (a i && mask i)) :
    IsNetwork n p a b ↔ ∀ i < n, mask i ≠ decide (i < p) → a i = false := by
  refine forall₂_congr fun i hi => ?_
  rw [hb i hi]
  cases a i <;> cases mask i <;> cases decide (i < p) <;> decide

theorem isBroadcast_iff {n p : Nat} {a b mask : Nat → Bool} (hb : ∀ i < n, b i = (a i || !mask i)) :
    IsBroadcast n p a b ↔ ∀ i < n, mask i ≠ decide (i < p) → a i = true := by
  refine forall₂_congr fun i hi => ?_
  rw [hb i hi]
  cases a i <;> cases mask i <;> cases decide (i < p) <;> decide

/-- In particular where the wrong bits are those from `lo` to `hi`. -/
theorem isNetwork_iff_range {n p lo hi : Nat} {a b mask : Nat → Bool} (hhi : hi ≤ n)
    (hwrong : ∀ i < n, mask i ≠ decide (i < p) ↔ lo ≤ i ∧ i < hi) (hb : ∀ i < n, b i = (a i && mask i)) :
    IsNetwork n p a b ↔ ∀ i, lo ≤ i → i < hi → a i = false := by
  rw [isNetwork_iff hb]
  constructor
  · intro h i hlo hi'
    have hin : i < n := Nat.lt_of_lt_of_le hi' hhi
    exact h i hin ((hwrong i hin).2 ⟨hlo, hi'⟩)
  · intro h i hin hne
    obtain ⟨hlo, hi'⟩ := (hwrong i hin).1 hne
    exact h i hlo hi'

theorem isBroadcast_iff_range {n p lo hi : Nat} {a b mask : Nat → Bool} (hhi : hi ≤ n)
    (hwrong : ∀ i < n, mask i ≠ decide (i < p) ↔ lo ≤ i ∧ i < hi) (hb : ∀ i < n, b i = (a i || !mask i)) :
    IsBroadcast n p a b ↔ ∀ i, lo ≤ i → i < hi → a i = true := by
  rw [isBroadcast_iff hb]
  constructor
  · intro h i hlo hi'
    have hin : i < n := Nat.lt_of_lt_of_le hi' hhi
    exact h i hin ((hwrong i hin).2 ⟨hlo, hi'⟩)
  · intro h i hin hne
    obtain ⟨hlo, hi'⟩ := (hwrong i hin).1 hne
    exact h i hlo hi'

/-! ## Counting -/

/-- How many of the `w` low bits are set. -/
def ones : Nat → Nat → Nat
  | 0, _ => 0
  | w + 1, n => n % 2 + ones w (n / 2)

@[simp] theorem ones_zero (w : Nat) : ones w 0 = 0 := by
  induction w with
  | zero => rfl
  | succ w ih => rw [ones, Nat.zero_div, ih]

/-- `n & (n - 1)` has the bits of `n` but the lowest one. -/
theorem ones_clear {w n : Nat} (hn : 0 < n) (hlt : n < 2 ^ w) : ones w (n &&& (n - 1)) + 1 = ones w n := by
  induction w generalizing n with
  | zero => omega
  | succ w ih =>
    have hdiv : (n &&& (n - 1)) / 2 = n / 2 &&& (n - 1) / 2 := by
      rw [← Nat.shiftRight_one, ← Nat.shiftRight_one, ← Nat.shiftRight_one, Nat.shiftRight_and_distrib]
    have hmod : (n &&& (n - 1)) % 2 = n % 2 &&& (n - 1) % 2 := Nat.and_mod_two_pow (n := 1)
    rw [ones, ones, hdiv, hmod]
    rcases Nat.mod_two_eq_zero_or_one n with heven | hodd
    · have hpred : (n - 1) / 2 = n / 2 - 1 := by omega
      have hrest := ih (n := n / 2) (by omega) (by omega)
      rw [heven, Nat.zero_and, hpred]
      omega
    · have hpred : (n - 1) / 2 = n / 2 := by omega
      have hlow : (n - 1) % 2 = 0 := by omega
      rw [hodd, hpred, hlow, Nat.and_zero, Nat.and_self]
      omega

end NetBits
