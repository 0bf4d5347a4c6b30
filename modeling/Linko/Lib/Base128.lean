import Linko.Lib.Words
import Mathlib.Data.List.Basic
import Mathlib.Order.Basic
/-!
# Numbers in groups of seven bits

The variable-length code in which a number is cut into groups of seven bits,
the lowest first, and every byte but the last has its high bit set. A code
word shows its own end, so no word is a proper prefix of another, and a reader
that gives up after `k` bytes still reads every word of at most `k`.
-/

namespace Base128

open Words

/-- One code word: the high bit on every byte but the last. -/
inductive IsWord : List UInt8 → Prop
  | last {b : UInt8} : b < 128 → IsWord [b]
  | more {b : UInt8} {bs : List UInt8} : 128 ≤ b → IsWord bs → IsWord (b :: bs)

/-- The number a sequence of groups stands for. -/
def value : List UInt8 → Nat
  | [] => 0
  | b :: bs => b.toNat % 128 + 128 * value bs

def encode (n : Nat) : List UInt8 :=
  if n < 128 then [UInt8.ofNat n] else UInt8.ofNat (n % 128 + 128) :: encode (n / 128)
termination_by n
decreasing_by omega

/-- The bytes a reader takes that stops behind a byte without the high bit, and
after `k` bytes in any case. -/
def Taken : Nat → List UInt8 → Prop
  | 0, bs => bs = []
  | _ + 1, [] => False
  | k + 1, b :: bs => if b < 128 then bs = [] else Taken k bs

/-! ## Words -/

theorem IsWord.getElem {bs : List UInt8} (h : IsWord bs) (i : Nat) (hi : i < bs.length) :
    128 ≤ bs[i] ↔ i + 1 < bs.length := by
  induction h generalizing i with
  | last hb =>
    obtain rfl : i = 0 := by simpa using hi
    simpa using hb
  | @more b bs hb hw ih =>
    cases i with
    | zero =>
      have : 0 < bs.length := by cases hw <;> simp
      simpa [hb] using this
    | succ i => simpa using ih i (by simpa using hi)

/-- A word shows its own end. -/
theorem IsWord.prefix_eq {as bs : List UInt8} (ha : IsWord as) (hb : IsWord bs) (h : as <+: bs) : as = bs := by
  induction ha generalizing bs with
  | last hlt =>
    cases hb with
    | last hlt' => simpa using h
    | more hge hw =>
      obtain ⟨rfl, -⟩ := List.cons_prefix_cons.1 h
      exact absurd hlt (UInt8.not_lt.2 hge)
  | more hge hw ih =>
    cases hb with
    | last hlt =>
      obtain ⟨rfl, -⟩ := List.cons_prefix_cons.1 h
      exact absurd hlt (UInt8.not_lt.2 hge)
    | more hge' hw' =>
      obtain ⟨rfl, htail⟩ := List.cons_prefix_cons.1 h
      rw [ih hw' htail]

theorem IsWord.taken {bs : List UInt8} (h : IsWord bs) {k : Nat} (hk : bs.length ≤ k) : Taken k bs := by
  induction h generalizing k with
  | last hb =>
    obtain ⟨k, rfl⟩ := Nat.exists_eq_succ_of_ne_zero (n := k) (by rintro rfl; simp at hk)
    rw [Taken, if_pos hb]
  | more hb _ ih =>
    obtain ⟨k, rfl⟩ := Nat.exists_eq_succ_of_ne_zero (n := k) (by rintro rfl; simp at hk)
    rw [Taken, if_neg (UInt8.not_lt.2 hb)]
    exact ih (by simpa using hk)

/-- Only the last byte taken can be without the high bit. -/
theorem Taken.high {k : Nat} {bs : List UInt8} (h : Taken k bs) (i : Nat) (hi : i + 1 < bs.length) :
    128 ≤ bs[i] := by
  induction k generalizing bs i with
  | zero =>
    obtain rfl : bs = [] := h
    exact absurd hi (Nat.not_lt_zero _)
  | succ k ih =>
    cases bs with
    | nil => exact absurd hi (Nat.not_lt_zero _)
    | cons b bs =>
      rw [Taken] at h
      split at h
      · subst h
        simp at hi
      · rename_i hge
        cases i with
        | zero => exact UInt8.not_lt.1 hge
        | succ i => exact ih h i (by simpa using hi)

/-- Without an end in sight the reader takes all `k` bytes. -/
theorem Taken.length_eq {k : Nat} {bs : List UInt8} (h : Taken k bs) (hb : ∀ b ∈ bs, 128 ≤ b) :
    bs.length = k := by
  induction k generalizing bs with
  | zero => simpa [Taken] using h
  | succ k ih =>
    cases bs with
    | nil => exact h.elim
    | cons b bs =>
      obtain ⟨hge, hrest⟩ := List.forall_mem_cons.1 hb
      rw [Taken, if_neg (UInt8.not_lt.2 hge)] at h
      rw [List.length_cons, ih h hrest]

theorem value_lt (bs : List UInt8) : value bs < 128 ^ bs.length := by
  induction bs with
  | nil => simp [value]
  | cons b bs ih =>
    rw [value, List.length_cons, Nat.pow_succ]
    omega

/-- One group again and again. -/
theorem value_replicate (b : UInt8) (n : Nat) :
    127 * value (List.replicate n b) + b.toNat % 128 = 128 ^ n * (b.toNat % 128) := by
  induction n with
  | zero => simp [value]
  | succ n ih =>
    rw [List.replicate_succ, value, Nat.pow_succ', Nat.mul_assoc, ← ih]
    omega

/-! ## Encoding -/

theorem encode_lt {n : Nat} (h : n < 128) : encode n = [UInt8.ofNat n] := by
  rw [encode, if_pos h]

theorem encode_ge {n : Nat} (h : 128 ≤ n) : encode n = UInt8.ofNat (n % 128 + 128) :: encode (n / 128) := by
  rw [encode, if_neg (Nat.not_lt.2 h)]

theorem isWord_encode (n : Nat) : IsWord (encode n) := by
  induction n using Nat.strongRecOn with
  | ind n ih =>
    by_cases h : n < 128
    · rw [encode_lt h]
      exact .last (UInt8.lt_iff_toNat_lt.2 (by rw [UInt8.toNat_ofNat']; exact (Nat.mod_le _ _).trans_lt h))
    · rw [encode_ge (Nat.le_of_not_lt h)]
      refine .more (UInt8.le_iff_toNat_le.2 ?_) (ih _ (by omega))
      rw [UInt8.toNat_ofNat']
      show 128 ≤ _
      omega

theorem value_encode (n : Nat) : value (encode n) = n := by
  induction n using Nat.strongRecOn with
  | ind n ih =>
    by_cases h : n < 128
    · rw [encode_lt h, value, value, UInt8.toNat_ofNat']
      omega
    · rw [encode_ge (Nat.le_of_not_lt h), value, ih _ (by omega), UInt8.toNat_ofNat']
      omega

theorem length_encode_le {k n : Nat} (h : n < 128 ^ (k + 1)) : (encode n).length ≤ k + 1 := by
  induction k generalizing n with
  | zero => simp [encode_lt (show n < 128 by simpa using h)]
  | succ k ih =>
    by_cases hn : n < 128
    · simp [encode_lt hn]
    · have hd : n / 128 < 128 ^ (k + 1) := Nat.div_lt_of_lt_mul (by rw [Nat.pow_succ] at h; omega)
      rw [encode_ge (Nat.le_of_not_lt hn), List.length_cons]
      exact Nat.succ_le_succ (ih hd)

/-- Different numbers have words neither of which begins the other. -/
theorem encode_eq_of_start {m n : Nat} (h : encode m <+: encode n) : m = n := by
  rw [← value_encode m, (isWord_encode m).prefix_eq (isWord_encode n) h, value_encode]

/-! ## The bytes of a word read as groups -/

theorem value_le_leValue (bs : List UInt8) : value bs ≤ leValue bs := by
  induction bs with
  | nil => exact Nat.le_refl 0
  | cons b bs ih =>
    rw [value, leValue]
    omega

/-- From two bytes on the variable-length value of a word is smaller than the
word. -/
theorem value_lt_leValue {b : UInt8} (hb : 128 ≤ b) (bs : List UInt8) :
    value (b :: bs) < leValue (b :: bs) := by
  have h := value_le_leValue bs
  have hge : 128 ≤ b.toNat := UInt8.le_iff_toNat_le.1 hb
  rw [value, leValue]
  omega

theorem leValue_bytesOf_little {w : Nat} (x : BitVec (8 * w)) : leValue (bytesOf .little x) = x.toNat :=
  leValue_leBytes (toNat_lt_pow x)

/-- In big-endian order the first byte is the top one. -/
theorem top_byte {w : Nat} {x : BitVec (8 * (w + 1))} (h : 0 < (bytesOf .big x).length) :
    (bytesOf .big x)[0].toNat * 256 ^ w ≤ x.toNat := by
  obtain ⟨b, bs, hbs⟩ := List.exists_cons_of_length_pos h
  have hrev : leBytes (w + 1) x.toNat = bs.reverse ++ [b] := by
    rw [← List.reverse_reverse (leBytes (w + 1) x.toNat)]
    exact (congrArg List.reverse hbs).trans List.reverse_cons
  have hlen : bs.reverse.length = w := by
    have := congrArg List.length hrev
    rw [length_leBytes, List.length_append, List.length_singleton] at this
    omega
  have hx := leValue_leBytes (toNat_lt_pow x)
  rw [hrev, leValue_append, hlen, leValue, leValue] at hx
  simp only [hbs, List.getElem_cons_zero]
  rw [← hx, Nat.mul_zero, Nat.add_zero, Nat.mul_comm]
  exact Nat.le_add_left _ _

theorem value_lt_of_start {w : Nat} {x : BitVec (8 * w)} {b : UInt8} {bs : List UInt8} (hb : 128 ≤ b)
    (h : b :: bs <+: bytesOf .little x) : value (b :: bs) < x.toNat := by
  obtain ⟨rest, hrest⟩ := h
  have hx := leValue_bytesOf_little x
  rw [← hrest, leValue_append] at hx
  have := value_lt_leValue hb bs
  omega

/-- In little-endian order the first byte is the lowest one. -/
theorem low_byte {w : Nat} {x : BitVec (8 * w)} (h : 0 < (bytesOf .little x).length) :
    (bytesOf .little x)[0].toNat = x.toNat % 256 := by
  have hx := leValue_bytesOf_little x
  obtain ⟨b, bs, hbs⟩ := List.exists_cons_of_length_pos h
  have hb := b.toNat_lt
  rw [hbs, leValue] at hx
  simp only [hbs, List.getElem_cons_zero]
  omega

/-- A value is its own first byte when it is small and the lowest byte comes
first, and when it is zero. -/
theorem first_byte_eq_iff {w : Nat} (hw : 2 ≤ w) (o : Order) {x : BitVec (8 * w)}
    (h : 0 < (bytesOf o x).length) :
    (bytesOf o x)[0].toNat = x.toNat ∧ x.toNat < 128 ↔ o = .little ∧ x.toNat < 128 ∨ x.toNat = 0 := by
  cases o with
  | little =>
    rw [low_byte h]
    simp only [true_and]
    omega
  | big =>
    obtain ⟨v, rfl⟩ : ∃ v, w = v + 2 := ⟨w - 2, by omega⟩
    have htop := top_byte (x := x) h
    have hle : (bytesOf .big x)[0].toNat * 256 ≤ (bytesOf .big x)[0].toNat * 256 ^ (v + 1) :=
      Nat.mul_le_mul_left _ (Nat.le_self_pow (Nat.succ_ne_zero v) 256)
    simp only [reduceCtorEq, false_and, false_or]
    omega

end Base128
