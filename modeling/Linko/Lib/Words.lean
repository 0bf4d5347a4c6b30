import Mathlib.Algebra.Group.Nat.Defs
import Mathlib.Data.Nat.Basic
/-!
# Machine words as bytes

The object representation of a word of `w` bytes, in either byte order, and
what reversing it does.
-/

namespace Words

inductive Order where
  | little
  | big
  deriving DecidableEq, Repr

/-- The `w` low bytes of `n`, the lowest first. -/
def leBytes : Nat → Nat → List UInt8
  | 0, _ => []
  | w + 1, n => UInt8.ofNat n :: leBytes w (n / 256)

def leValue : List UInt8 → Nat
  | [] => 0
  | b :: bs => b.toNat + 256 * leValue bs

@[simp] theorem length_leBytes (w n : Nat) : (leBytes w n).length = w := by
  induction w generalizing n with
  | zero => rfl
  | succ w ih => rw [leBytes, List.length_cons, ih]

theorem leBytes_zero (w : Nat) : leBytes w 0 = List.replicate w 0 := by
  induction w with
  | zero => rfl
  | succ w ih => rw [leBytes, Nat.zero_div, ih, List.replicate_succ]; rfl

/-- A value of one byte. -/
theorem leBytes_small {n : Nat} (h : n < 256) (w : Nat) :
    leBytes (w + 1) n = UInt8.ofNat n :: List.replicate w 0 := by
  rw [leBytes, Nat.div_eq_of_lt h, leBytes_zero]

theorem leValue_lt (bs : List UInt8) : leValue bs < 256 ^ bs.length := by
  induction bs with
  | nil => simp [leValue]
  | cons b bs ih =>
    have hb := b.toNat_lt
    rw [leValue, List.length_cons, Nat.pow_succ]
    omega

theorem leValue_append (as bs : List UInt8) : leValue (as ++ bs) = leValue as + 256 ^ as.length * leValue bs := by
  induction as with
  | nil => simp [leValue]
  | cons a as ih =>
    rw [List.cons_append, leValue, ih, leValue, List.length_cons, Nat.pow_succ', Nat.mul_add, Nat.add_assoc,
      Nat.mul_assoc]

theorem leValue_leBytes {w n : Nat} (h : n < 256 ^ w) : leValue (leBytes w n) = n := by
  induction w generalizing n with
  | zero =>
    rw [Nat.pow_zero] at h
    simp only [leBytes, leValue]
    omega
  | succ w ih =>
    have hd : n / 256 < 256 ^ w := Nat.div_lt_of_lt_mul (by rwa [Nat.pow_succ, Nat.mul_comm] at h)
    rw [leBytes, leValue, ih hd, UInt8.toNat_ofNat']
    exact Nat.mod_add_div n 256

theorem leBytes_leValue (bs : List UInt8) : leBytes bs.length (leValue bs) = bs := by
  induction bs with
  | nil => rfl
  | cons b bs ih =>
    have hb := b.toNat_lt
    have hmod : UInt8.ofNat (b.toNat + 256 * leValue bs) = b := by
      apply UInt8.toNat_inj.1
      rw [UInt8.toNat_ofNat', Nat.add_mul_mod_self_left, Nat.mod_eq_of_lt hb]
    have hdiv : (b.toNat + 256 * leValue bs) / 256 = leValue bs := by omega
    rw [List.length_cons, leBytes, leValue, hmod, hdiv, ih]

variable {w : Nat}

theorem toNat_lt_pow (v : BitVec (8 * w)) : v.toNat < 256 ^ w := by
  have := v.isLt
  rwa [Nat.pow_mul] at this

/-- The bytes of `v` in memory. -/
def bytesOf (o : Order) (v : BitVec (8 * w)) : List UInt8 :=
  match o with
  | .little => leBytes w v.toNat
  | .big => (leBytes w v.toNat).reverse

def ofBytes (o : Order) (w : Nat) (bs : List UInt8) : BitVec (8 * w) :=
  match o with
  | .little => BitVec.ofNat _ (leValue bs)
  | .big => BitVec.ofNat _ (leValue bs.reverse)

/-- The word with its bytes reversed. -/
def swap (v : BitVec (8 * w)) : BitVec (8 * w) := BitVec.ofNat _ (leValue (leBytes w v.toNat).reverse)

@[simp] theorem length_bytesOf (o : Order) (v : BitVec (8 * w)) : (bytesOf o v).length = w := by
  cases o <;> simp [bytesOf]

theorem toNat_ofNat_leValue {bs : List UInt8} (h : bs.length = w) :
    (BitVec.ofNat (8 * w) (leValue bs)).toNat = leValue bs := by
  have hlt := leValue_lt bs
  rw [BitVec.toNat_ofNat, Nat.pow_mul]
  exact Nat.mod_eq_of_lt (h ▸ hlt)

theorem leBytes_swap (v : BitVec (8 * w)) : leBytes w (swap v).toNat = (leBytes w v.toNat).reverse := by
  have hl : (leBytes w v.toNat).reverse.length = w := by simp
  have := leBytes_leValue (leBytes w v.toNat).reverse
  rwa [hl, ← toNat_ofNat_leValue hl] at this

@[simp] theorem ofBytes_bytesOf (o : Order) (v : BitVec (8 * w)) : ofBytes o w (bytesOf o v) = v := by
  have hv := leValue_leBytes (toNat_lt_pow v)
  cases o with
  | little => rw [bytesOf, ofBytes, hv, BitVec.ofNat_toNat, BitVec.setWidth_eq]
  | big => rw [bytesOf, ofBytes, List.reverse_reverse, hv, BitVec.ofNat_toNat, BitVec.setWidth_eq]

@[simp] theorem swap_swap (v : BitVec (8 * w)) : swap (swap v) = v := by
  have hv := leValue_leBytes (toNat_lt_pow v)
  rw [swap, leBytes_swap, List.reverse_reverse, hv, BitVec.ofNat_toNat, BitVec.setWidth_eq]

/-- Swapping is what turns one byte order into the other. -/
theorem bytesOf_swap {o o' : Order} (h : o ≠ o') (v : BitVec (8 * w)) : bytesOf o' (swap v) = bytesOf o v := by
  cases o <;> cases o'
  · exact absurd rfl h
  · simp only [bytesOf, leBytes_swap, List.reverse_reverse]
  · simp only [bytesOf, leBytes_swap]
  · exact absurd rfl h

end Words
