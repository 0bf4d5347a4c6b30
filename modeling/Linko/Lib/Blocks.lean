import Mathlib.Data.List.Basic
import Mathlib.Tactic.Ring
/-!
# Flat storage cut into blocks

A store that is kept as a list of blocks is read and written in pieces, one
per block. These are the facts that let such a store be treated as the flat
list of its cells: `slice` reads a range, `splice` overwrites one, and both
split at a block boundary.
-/

namespace Blocks

variable {α : Type*}

/-- The `n` cells from offset `i` on. -/
def slice (l : List α) (i n : Nat) : List α := (l.drop i).take n

/-- `l` with its cells from offset `i` on overwritten by `xs`. -/
def splice (l : List α) (i : Nat) (xs : List α) : List α := l.take i ++ xs ++ l.drop (i + xs.length)

/-- Every block has length `B`. -/
def Uniform (B : Nat) (bs : List (List α)) : Prop := ∀ b ∈ bs, b.length = B

/-! ## Reading a range -/

theorem length_slice {l : List α} {i n : Nat} (h : i + n ≤ l.length) : (slice l i n).length = n := by
  simp only [slice, List.length_take, List.length_drop]
  omega

@[simp] theorem slice_zero (l : List α) (i : Nat) : slice l i 0 = [] := by simp [slice]

theorem getElem?_slice (l : List α) (i n j : Nat) :
    (slice l i n)[j]? = if j < n then l[i + j]? else none := by
  simp only [slice, List.getElem?_take, List.getElem?_drop]

/-- A range inside the first part. -/
theorem slice_append_left {l r : List α} {i n : Nat} (h : i + n ≤ l.length) :
    slice (l ++ r) i n = slice l i n := by
  unfold slice
  rw [List.drop_append_of_le_length (by omega), List.take_append_of_le_length]
  simp only [List.length_drop]
  omega

/-- A range that starts in the first part and ends in the second. -/
theorem slice_append_cross {l r : List α} {i n : Nat} (hi : i ≤ l.length) (hn : l.length ≤ i + n) :
    slice (l ++ r) i n = slice l i (l.length - i) ++ slice r 0 (n - (l.length - i)) := by
  unfold slice
  have hd : (l.drop i).length = l.length - i := List.length_drop
  rw [List.drop_append_of_le_length hi, List.take_append, hd, List.drop_zero]
  rw [List.take_of_length_le (l := l.drop i) (by omega), List.take_of_length_le (l := l.drop i) (by omega)]

theorem slice_slice_append (l : List α) (i n m : Nat) :
    slice l i n ++ slice l (i + n) m = slice l i (n + m) := by
  unfold slice
  rw [List.take_add, List.drop_drop]

/-! ## Overwriting a range -/

theorem length_splice {l xs : List α} {i : Nat} (h : i + xs.length ≤ l.length) :
    (splice l i xs).length = l.length := by
  simp only [splice, List.length_append, List.length_take, List.length_drop]
  omega

theorem splice_append_left {l r xs : List α} {i : Nat} (h : i + xs.length ≤ l.length) :
    splice (l ++ r) i xs = splice l i xs ++ r := by
  unfold splice
  rw [List.take_append_of_le_length (by omega), List.drop_append_of_le_length h, List.append_assoc _ _ r]

theorem splice_append_right {l r : List α} (i : Nat) (xs : List α) :
    splice (l ++ r) (l.length + i) xs = l ++ splice r i xs := by
  unfold splice
  rw [Nat.add_assoc, List.take_length_add_append, List.drop_length_add_append]
  simp [List.append_assoc]

theorem splice_append_cross {l r xs ys : List α} {i : Nat} (h : i + xs.length = l.length) :
    splice (l ++ r) i (xs ++ ys) = splice l i xs ++ splice r 0 ys := by
  have hd : (l ++ r).drop (i + (xs ++ ys).length) = r.drop ys.length := by
    rw [List.length_append, ← Nat.add_assoc, h, List.drop_append, List.drop_of_length_le (by omega)]
    simp
  unfold splice
  rw [List.take_append_of_le_length (by omega), hd,
    List.drop_of_length_le (show l.length ≤ i + xs.length by omega)]
  simp [List.append_assoc]

theorem getElem?_splice {l xs : List α} {i : Nat} (h : i + xs.length ≤ l.length) (j : Nat) :
    (splice l i xs)[j]? = if i ≤ j ∧ j < i + xs.length then xs[j - i]? else l[j]? := by
  have ht : (l.take i).length = i := by simp only [List.length_take]; omega
  unfold splice
  rw [List.append_assoc, List.getElem?_append, ht]
  by_cases h1 : j < i
  · rw [if_pos h1, if_neg (by omega), List.getElem?_take, if_pos h1]
  · rw [if_neg h1, List.getElem?_append]
    by_cases h2 : j - i < xs.length
    · rw [if_pos h2, if_pos (by omega)]
    · rw [if_neg h2, if_neg (by omega), List.getElem?_drop]
      congr 1
      omega

@[simp] theorem splice_nil (l : List α) (i : Nat) : splice l i [] = l := by simp [splice]

/-- Overwriting in two steps, the second behind the first. -/
theorem splice_take_drop {l xs : List α} {i : Nat} (h : i + xs.length ≤ l.length) (k : Nat) :
    splice (splice l i (xs.take k)) (i + k) (xs.drop k) = splice l i xs := by
  rcases Nat.le_total xs.length k with hk | hk
  · rw [List.take_of_length_le hk, List.drop_of_length_le hk, splice_nil]
  · have ht : (xs.take k).length = k := by rw [List.length_take]; omega
    have hd : (xs.drop k).length = xs.length - k := List.length_drop
    have hl : (splice l i (xs.take k)).length = l.length := length_splice (by omega)
    apply List.ext_getElem?
    intro j
    rw [getElem?_splice (by omega), getElem?_splice (by omega), getElem?_splice h, ht, hd]
    by_cases h1 : j < i + k
    · by_cases h2 : i ≤ j
      · rw [if_neg (by omega), if_pos ⟨h2, h1⟩, if_pos (by omega), List.getElem?_take, if_pos (by omega)]
      · rw [if_neg (by omega), if_neg (by omega), if_neg (by omega)]
    · by_cases h2 : j < i + xs.length
      · rw [if_pos (by omega), if_pos (by omega), List.getElem?_drop]
        congr 1
        omega
      · rw [if_neg (by omega), if_neg (by omega), if_neg (by omega)]

/-- Two stores that agree on a range. -/
theorem slice_congr {l r : List α} {i n : Nat} (h : ∀ j, i ≤ j → j < i + n → l[j]? = r[j]?) :
    slice l i n = slice r i n := by
  apply List.ext_getElem?
  intro j
  rw [getElem?_slice, getElem?_slice]
  by_cases hj : j < n
  · rw [if_pos hj, if_pos hj, h (i + j) (by omega) (by omega)]
  · rw [if_neg hj, if_neg hj]

/-- Reading what was just written. -/
theorem slice_splice {l xs : List α} {i : Nat} (h : i + xs.length ≤ l.length) :
    slice (splice l i xs) i xs.length = xs := by
  have ht : (l.take i).length = i := by simp only [List.length_take]; omega
  unfold slice splice
  rw [List.append_assoc, List.drop_append, ht, List.drop_of_length_le (by omega)]
  simp

/-- Reading a range in front of what was just written. -/
theorem slice_splice_before {l xs : List α} {i j n : Nat} (h : i + xs.length ≤ l.length) (hj : j + n ≤ i) :
    slice (splice l i xs) j n = slice l j n := by
  apply List.ext_getElem?
  intro k
  rw [getElem?_slice, getElem?_slice]
  by_cases hk : k < n
  · rw [if_pos hk, if_pos hk, getElem?_splice h, if_neg (by omega)]
  · rw [if_neg hk, if_neg hk]

/-! ## Blocks of one length -/

theorem uniform_cons {B : Nat} {b : List α} {bs : List (List α)} :
    Uniform B (b :: bs) ↔ b.length = B ∧ Uniform B bs := by simp [Uniform]

theorem Uniform.length_flatten {B : Nat} {bs : List (List α)} (h : Uniform B bs) :
    bs.flatten.length = B * bs.length := by
  induction bs with
  | nil => simp
  | cons b bs ih =>
    obtain ⟨hb, hbs⟩ := uniform_cons.1 h
    rw [List.flatten_cons, List.length_append, ih hbs, hb, List.length_cons]
    ring

/-- Dropping whole blocks drops whole block lengths. -/
theorem Uniform.flatten_drop {B : Nat} {bs : List (List α)} (h : Uniform B bs) (k : Nat) :
    (bs.drop k).flatten = bs.flatten.drop (B * k) := by
  induction bs generalizing k with
  | nil => simp
  | cons b bs ih =>
    obtain ⟨hb, hbs⟩ := uniform_cons.1 h
    cases k with
    | zero => simp
    | succ k =>
      have hle : B ≤ B * (k + 1) := Nat.le_mul_of_pos_right B (Nat.succ_pos k)
      have hsub : B * (k + 1) - B = B * k := by rw [Nat.mul_succ]; omega
      rw [List.drop_succ_cons, ih hbs, List.flatten_cons, List.drop_append, hb, hsub,
        List.drop_of_length_le (hb.le.trans hle), List.nil_append]

end Blocks
