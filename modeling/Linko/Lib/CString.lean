import Mathlib.Algebra.Group.Int.Defs
import Mathlib.Algebra.Group.Nat.Defs
import Mathlib.Data.List.Basic
import Mathlib.Data.List.TakeWhile
/-!
# C strings

Byte strings and the functions of `string.h` and `stdlib.h` on them, in the
"C" locale. The end of a list stands for the terminating NUL.
-/

namespace CString

abbrev Bytes := List UInt8

/-- The bytes of a literal. -/
def ascii (s : String) : Bytes := s.toList.map fun c => UInt8.ofNat c.toNat

def tolower (b : UInt8) : UInt8 := if 65 ≤ b ∧ b ≤ 90 then b + 32 else b

def isspace (b : UInt8) : Bool := b == 32 || (9 ≤ b && b ≤ 13)

/-- What a `char*` function sees of a `std::string`. -/
def cstr (s : Bytes) : Bytes := s.takeWhile (· ≠ 0)

/-- `strncmp(a, b, n) == 0` -/
def strncmpEq : Bytes → Bytes → Nat → Bool
  | _, _, 0 => true
  | a, b, n + 1 => a.headD 0 == b.headD 0 && (a.headD 0 == 0 || strncmpEq a.tail b.tail n)

/-- `strcmp(a, b) == 0` -/
def strcmpEq (a b : Bytes) : Bool := cstr a == cstr b

/-- What `strcasecmp` compares. -/
def caseKey (s : Bytes) : Bytes := (cstr s).map tolower

/-- `strcasecmp(a, b) < 0` -/
def strcaseLess (a b : Bytes) : Bool := decide (caseKey a < caseKey b)

/-- `strcasecmp(a, b) == 0` -/
def strcaseEq (a b : Bytes) : Bool := caseKey a == caseKey b

/-- The value of a digit in a base up to 16. -/
def digitValue (b : UInt8) : Option Nat :=
  if 48 ≤ b ∧ b ≤ 57 then some (b.toNat - 48)
  else if 97 ≤ tolower b ∧ tolower b ≤ 102 then some ((tolower b).toNat - 87)
  else none

/-- The longest run of digits, read on from the value `acc`. -/
def digitsFrom (base : Nat) (acc : Nat) : Bytes → Nat
  | [] => acc
  | b :: bs =>
    match digitValue b with
    | some d => if d < base then digitsFrom base (acc * base + d) bs else acc
    | none => acc

def longMax : Int := 2 ^ 63 - 1

def longMin : Int := - 2 ^ 63

/-- `strtol(s, NULL, base)` for base 10 or 16, clamped to the range of `long`. -/
def strtol (s : Bytes) (base : Nat) : Int :=
  let s := s.dropWhile isspace
  let neg := s.headD 0 == 45
  let s := if s.headD 0 == 45 || s.headD 0 == 43 then s.tail else s
  let s :=
    if base == 16 && s.headD 0 == 48 && tolower (s.getD 1 0) == 120 &&
      (digitValue (s.getD 2 0)).isSome then s.drop 2
    else s
  let v : Int := digitsFrom base 0 s
  max longMin (min longMax (if neg then -v else v))

/-- The conversion of an integer to `int`. -/
def toInt (n : Int) : Int := (BitVec.ofInt 32 n).toInt

def atoi (s : Bytes) : Int := toInt (strtol s 10)

/-- What `operator<<` writes for an unsigned value. -/
def decimal (n : Nat) : Bytes := (Nat.toDigits 10 n).map fun c => UInt8.ofNat c.toNat

theorem toInt_natCast {n : Nat} (h : n < 2 ^ 31) : toInt n = n := by
  rw [toInt, BitVec.toInt_ofInt]
  apply Int.bmod_eq_of_le
  · omega
  · omega

theorem toInt_lt (n : Int) : toInt n < 2 ^ 31 := BitVec.toInt_lt

theorem decimal_digit {n : Nat} {b : UInt8} (hb : b ∈ decimal n) : 48 ≤ b ∧ b ≤ 57 := by
  obtain ⟨c, hc, rfl⟩ := List.mem_map.1 hb
  have hdigit := Nat.isDigit_of_mem_toDigits (by decide) (by decide) hc
  simp only [Char.isDigit, Bool.and_eq_true, decide_eq_true_eq] at hdigit
  obtain ⟨hlo, hhi⟩ := hdigit
  have hlo' : 48 ≤ c.toNat := hlo
  have hhi' : c.toNat ≤ 57 := hhi
  have hval : (UInt8.ofNat c.toNat).toNat = c.toNat := UInt8.toNat_ofNat_of_lt' (by show c.toNat < 256; omega)
  simp only [UInt8.le_iff_toNat_le, hval]
  exact ⟨hlo', hhi'⟩

/-! ## Reading numbers -/

/-- A run of digits ends at a byte that is none. -/
theorem digitsFrom_append {x : UInt8} (hx : digitValue x = none) (base acc : Nat) (ds rest : Bytes) :
    digitsFrom base acc (ds ++ x :: rest) = digitsFrom base acc ds := by
  induction ds generalizing acc with
  | nil => simp [digitsFrom, hx]
  | cons d ds ih =>
    simp only [List.cons_append, digitsFrom]
    split
    · split
      · exact ih _
      · rfl
    · rfl

theorem digit_plain : ∀ n < 256, (digitValue (UInt8.ofNat n)).isSome →
    isspace (UInt8.ofNat n) = false ∧ UInt8.ofNat n ≠ 45 ∧ UInt8.ofNat n ≠ 43 ∧
      tolower (UInt8.ofNat n) ≠ 120 := by
  decide +kernel

/-- `strtol` in base 16 on a number without sign or prefix. -/
theorem strtol_hex {ds : Bytes} (hne : ds ≠ []) (hds : ∀ d ∈ ds, (digitValue d).isSome) (rest : Bytes)
    (hlt : digitsFrom 16 0 ds < 2 ^ 63) : strtol (ds ++ 13 :: rest) 16 = digitsFrom 16 0 ds := by
  have plain : ∀ d ∈ ds, isspace d = false ∧ d ≠ 45 ∧ d ≠ 43 ∧ tolower d ≠ 120 := fun d hd =>
    UInt8.ofNat_toNat (x := d) ▸ digit_plain d.toNat d.toNat_lt (by rw [UInt8.ofNat_toNat]; exact hds d hd)
  cases ds with
  | nil => exact absurd rfl hne
  | cons d ds =>
    obtain ⟨hspace, hminus, hplus, -⟩ := plain d List.mem_cons_self
    have hsecond : tolower ((d :: ds ++ 13 :: rest).getD 1 0) ≠ 120 := by
      cases ds with
      | nil => exact (by decide : tolower 13 ≠ 120)
      | cons e ds => exact (plain e (by simp)).2.2.2
    have hdrop : (d :: ds ++ 13 :: rest).dropWhile isspace = d :: ds ++ 13 :: rest := by
      rw [List.cons_append, List.dropWhile_cons_of_neg (by simp [hspace])]
    have hread := digitsFrom_append (x := 13) (by decide) 16 0 (d :: ds) rest
    have hhead : (d :: ds ++ 13 :: rest).headD 0 = d := rfl
    have hm : (d == 45) = false := by simpa using hminus
    have hp : (d == 43) = false := by simpa using hplus
    have hx : (tolower ((d :: ds ++ 13 :: rest).getD 1 0) == 120) = false := by simpa using hsecond
    simp only [strtol, hdrop, hm, hp, Bool.or_self, Bool.false_eq_true, if_false, hhead, hx, Bool.and_false,
      Bool.false_and, hread, longMax, longMin]
    omega

/-! ## Comparing prefixes -/

/-- `atoi` on a number without sign, in front of what is no digit. -/
theorem atoi_digits {ds rest : Bytes} (hne : ds ≠ []) (hds : ∀ d ∈ ds, 48 ≤ d ∧ d ≤ 57)
    (hrest : ∀ x ∈ rest.head?, digitValue x = none) (hlt : digitsFrom 10 0 ds < 2 ^ 31) :
    atoi (ds ++ rest) = digitsFrom 10 0 ds := by
  have hread : digitsFrom 10 0 (ds ++ rest) = digitsFrom 10 0 ds := by
    cases rest with
    | nil => rw [List.append_nil]
    | cons x rest => exact digitsFrom_append (hrest x rfl) 10 0 ds rest
  cases ds with
  | nil => exact absurd rfl hne
  | cons d ds =>
    have hval : (digitValue d).isSome := by
      rw [digitValue, if_pos (hds d List.mem_cons_self)]
      rfl
    obtain ⟨hspace, hminus, hplus, -⟩ :=
      UInt8.ofNat_toNat (x := d) ▸ digit_plain d.toNat d.toNat_lt (by rw [UInt8.ofNat_toNat]; exact hval)
    have hdrop : (d :: ds ++ rest).dropWhile isspace = d :: ds ++ rest := by
      rw [List.cons_append, List.dropWhile_cons_of_neg (by simp [hspace])]
    have hm : (d == 45) = false := by simpa using hminus
    have hp : (d == 43) = false := by simpa using hplus
    have hhead : (d :: ds ++ rest).headD 0 = d := rfl
    have hlong : strtol (d :: ds ++ rest) 10 = digitsFrom 10 0 (d :: ds) := by
      simp only [strtol, hdrop, hhead, hm, hp, Bool.or_self, Bool.false_eq_true, if_false,
        (by decide : (10 == 16) = false), Bool.false_and, hread, longMin, longMax]
      omega
    rw [atoi, hlong, toInt_natCast hlt]

/-- `strncmp` does not look behind its length. -/
theorem strncmpEq_append {a x l : Bytes} {n : Nat} (h : n ≤ a.length) :
    strncmpEq (a ++ x) l n = strncmpEq a l n := by
  induction n generalizing a l with
  | zero => rfl
  | succ n ih =>
    cases a with
    | nil => exact absurd h (Nat.not_succ_le_zero n)
    | cons b a =>
      have hrest := ih (a := a) (l := l.tail) (Nat.le_of_succ_le_succ h)
      simp only [List.cons_append, strncmpEq, List.headD_cons, List.tail_cons, hrest]

/-- Nor behind a byte that the other string does not have. -/
theorem strncmpEq_until {a : Bytes} {x : UInt8} (hx : x ∉ a) (h0 : x ≠ 0) (u v w : Bytes) (n : Nat) :
    strncmpEq a (u ++ x :: v) n = strncmpEq a (u ++ x :: w) n := by
  induction n generalizing a u with
  | zero => rfl
  | succ n ih =>
    have htail : x ∉ a.tail := fun h => hx (List.mem_of_mem_tail h)
    cases u with
    | nil =>
      have hne : (a.headD 0 == x) = false := by
        rw [beq_eq_false_iff_ne]
        cases a with
        | nil => exact h0.symm
        | cons c a => exact fun hc => hx (hc ▸ List.mem_cons_self)
      simp only [List.nil_append, strncmpEq, List.headD_cons, hne, Bool.false_and]
    | cons y u => simp only [List.cons_append, strncmpEq, List.headD_cons, List.tail_cons, ih htail]

theorem cstr_eq {a : Bytes} (h : 0 ∉ a) : cstr a = a := by
  rw [cstr, List.takeWhile_eq_self_iff]
  intro b hb
  rw [decide_eq_true_eq]
  rintro rfl
  exact h hb

/-- `strncmp` over the whole of its first string is a test for a prefix. -/
theorem strncmpEq_begins {a b : Bytes} (h : 0 ∉ a) : strncmpEq a b a.length = true ↔ a <+: b := by
  induction a generalizing b with
  | nil => simp [strncmpEq]
  | cons x a ih =>
    obtain ⟨hx, ha⟩ := not_or.1 (fun hor => h (List.mem_cons.2 hor))
    have hx0 : (x == 0) = false := beq_eq_false_iff_ne.2 (Ne.symm hx)
    rw [List.length_cons, strncmpEq]
    cases b with
    | nil => simp [hx0]
    | cons y b =>
      simp only [List.headD_cons, List.tail_cons, hx0, Bool.false_or, Bool.and_eq_true, beq_iff_eq, ih ha,
        List.cons_prefix_cons]

/-! ## Order of the keys -/

theorem strcaseLess_irrefl (a : Bytes) : strcaseLess a a = false := by
  simp [strcaseLess, List.lt_irrefl]

theorem strcaseLess_trans {a b c : Bytes} (h₁ : strcaseLess a b = true) (h₂ : strcaseLess b c = true) :
    strcaseLess a c = true := by
  simp only [strcaseLess, decide_eq_true_eq] at *
  exact List.lt_trans h₁ h₂

theorem strcaseEq_of_not_less {a b : Bytes} (h₁ : strcaseLess a b = false) (h₂ : strcaseLess b a = false) :
    caseKey a = caseKey b := by
  simp only [strcaseLess, decide_eq_false_iff_not] at *
  exact List.le_antisymm (List.not_lt.1 h₂) (List.not_lt.1 h₁)

end CString
