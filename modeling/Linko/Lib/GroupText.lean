import Linko.Lib.CString
/-!
# Text of hexadecimal groups

Eight groups of sixteen bits as text: hexadecimal numbers between colons, where
two colons may stand once for a run of zero groups. `expand` reads such a text
and refuses every other.
-/

namespace GroupText

open CString

/-! ## Numerals -/

/-- `n` in a base up to 16, in lower case. -/
def numeral (base n : Nat) : Bytes := (Nat.toDigits base n).map fun c => UInt8.ofNat c.toNat

def digit (n : Nat) : UInt8 := UInt8.ofNat (Nat.digitChar n).toNat

variable {base : Nat}

theorem digit_spec : ∀ n < 16, digitValue (digit n) = some n ∧ digit n ≠ 58 ∧ digit n ≠ 93 ∧ (digit n = 48 ↔ n = 0) := by
  decide

theorem numeral_of_lt {n : Nat} (h : n < base) : numeral base n = [digit n] := by
  rw [numeral, Nat.toDigits_of_lt_base h]
  rfl

theorem numeral_of_le {n : Nat} (hbase : 1 < base) (h : base ≤ n) :
    numeral base n = numeral base (n / base) ++ [digit (n % base)] := by
  rw [numeral, Nat.toDigits_of_base_le hbase h, List.map_append]
  rfl

theorem numeral_ne_nil (n : Nat) : numeral base n ≠ [] := by
  simp [numeral]

theorem mem_numeral {n : Nat} (hbase : 1 < base) {b : UInt8} (hb : b ∈ numeral base n) : ∃ d < base, b = digit d := by
  induction n using Nat.strongRecOn with
  | ind n ih =>
    rcases Nat.lt_or_ge n base with h | h
    · rw [numeral_of_lt h, List.mem_singleton] at hb
      exact ⟨n, h, hb⟩
    · rw [numeral_of_le hbase h, List.mem_append, List.mem_singleton] at hb
      rcases hb with hb | hb
      · exact ih (n / base) (Nat.div_lt_self (by omega) hbase) hb
      · exact ⟨n % base, Nat.mod_lt n (by omega), hb⟩

/-- A digit more is a step of the reader more. -/
theorem digitsFrom_snoc {ds : Bytes} (hds : ∀ b ∈ ds, ∃ v < base, digitValue b = some v) {d : UInt8} {v : Nat}
    (hv : v < base) (hd : digitValue d = some v) (acc : Nat) :
    digitsFrom base acc (ds ++ [d]) = digitsFrom base acc ds * base + v := by
  induction ds generalizing acc with
  | nil => simp [digitsFrom, hd, hv]
  | cons b ds ih =>
    obtain ⟨u, hu, hb⟩ := hds b List.mem_cons_self
    simp only [List.cons_append, digitsFrom, hb, if_pos hu]
    exact ih (fun b' hb' => hds b' (List.mem_cons_of_mem b hb')) _

theorem digitsFrom_numeral (hbase : 1 < base) (h16 : base ≤ 16) (n : Nat) :
    digitsFrom base 0 (numeral base n) = n := by
  induction n using Nat.strongRecOn with
  | ind n ih =>
    rcases Nat.lt_or_ge n base with h | h
    · rw [numeral_of_lt h, digitsFrom, (digit_spec n (by omega)).1]
      simp [digitsFrom, h]
    · have hmod : n % base < base := Nat.mod_lt n (by omega)
      have hdigits : ∀ b ∈ numeral base (n / base), ∃ v < base, digitValue b = some v := by
        intro b hb
        obtain ⟨d, hd, rfl⟩ := mem_numeral hbase hb
        exact ⟨d, hd, (digit_spec d (by omega)).1⟩
      rw [numeral_of_le hbase h, digitsFrom_snoc hdigits hmod (digit_spec _ (by omega)).1,
        ih (n / base) (Nat.div_lt_self (by omega) hbase)]
      exact Nat.div_add_mod' n base

theorem numeral_injective (hbase : 1 < base) (h16 : base ≤ 16) {m n : Nat} (h : numeral base m = numeral base n) :
    m = n := by
  rw [← digitsFrom_numeral hbase h16 m, h, digitsFrom_numeral hbase h16 n]

/-- No leading zero. -/
theorem headD_numeral (hbase : 1 < base) (h16 : base ≤ 16) {n : Nat} (hn : 0 < n) : (numeral base n).headD 0 ≠ 48 := by
  induction n using Nat.strongRecOn with
  | ind n ih =>
    rcases Nat.lt_or_ge n base with h | h
    · rw [numeral_of_lt h]
      exact fun h48 => absurd ((digit_spec n (by omega)).2.2.2.1 h48) (by omega)
    · have hrest := ih (n / base) (Nat.div_lt_self hn hbase) (Nat.div_pos h (by omega))
      rw [numeral_of_le hbase h]
      cases hcase : numeral base (n / base) with
      | nil => exact absurd hcase (numeral_ne_nil _)
      | cons b ds => rwa [hcase] at hrest

/-! ## The reader -/

/-- One to four hexadecimal digits without leading zeros. -/
def group (s : Bytes) : Option Nat :=
  if 0 < s.length ∧ s.length ≤ 4 ∧ s.all (fun b => (digitValue b).isSome) ∧ (s.length = 1 ∨ s.headD 0 ≠ 48) then
    some (digitsFrom 16 0 s)
  else none

/-- Groups between single colons, or nothing. -/
def groups (s : Bytes) : Option (List Nat) := if s = [] then some [] else (s.splitOn 58).mapM group

/-- What is in front of the first two colons, and what is behind them. -/
def cut : Bytes → Option (Bytes × Bytes)
  | [] => none
  | b :: s => if b = 58 ∧ s.head? = some 58 then some ([], s.tail) else (cut s).map fun lr => (b :: lr.1, lr.2)

/-- The eight groups of a text. Two colons stand for at least one of them. -/
def expand (s : Bytes) : Option (List Nat) :=
  match cut s with
  | none => (groups s).bind fun gs => if gs.length = 8 then some gs else none
  | some (l, r) => (groups l).bind fun ls => (groups r).bind fun rs =>
      if ls.length + rs.length < 8 then some (ls ++ List.replicate (8 - (ls.length + rs.length)) 0 ++ rs) else none

/-! ## The text of some groups -/

def join (gs : List Nat) : Bytes := [58].intercalate (gs.map (numeral 16))

/-- Groups with a colon in front of each. -/
def more (gs : List Nat) : Bytes := gs.flatMap fun g => 58 :: numeral 16 g

@[simp] theorem join_nil : join [] = [] := rfl

theorem more_cons (g : Nat) (gs : List Nat) : more (g :: gs) = 58 :: (numeral 16 g ++ more gs) := by
  simp [more]

theorem join_cons (g : Nat) (gs : List Nat) : join (g :: gs) = numeral 16 g ++ more gs := by
  induction gs generalizing g with
  | nil => simp [join, more]
  | cons g' gs ih =>
    have hrest : join (g :: g' :: gs) = numeral 16 g ++ [58] ++ join (g' :: gs) := by
      rw [join, List.map_cons, List.map_cons, List.intercalate_cons_cons]
      rfl
    rw [hrest, ih, more_cons]
    simp

theorem join_append {gs : List Nat} (hne : gs ≠ []) (gs' : List Nat) : join (gs ++ gs') = join gs ++ more gs' := by
  cases gs with
  | nil => exact absurd rfl hne
  | cons g gs => rw [List.cons_append, join_cons, join_cons, more, more, more, List.flatMap_append, List.append_assoc]

theorem mem_more {gs : List Nat} {b : UInt8} (hb : b ∈ more gs) : b = 58 ∨ ∃ d < 16, b = digit d := by
  obtain ⟨g, -, hb⟩ := List.mem_flatMap.1 hb
  rcases List.mem_cons.1 hb with rfl | hb
  · exact .inl rfl
  · exact .inr (mem_numeral (by decide) hb)

theorem mem_join {gs : List Nat} {b : UInt8} (hb : b ∈ join gs) : b = 58 ∨ ∃ d < 16, b = digit d := by
  cases gs with
  | nil => cases hb
  | cons g gs =>
    rw [join_cons] at hb
    rcases List.mem_append.1 hb with hb | hb
    · exact .inr (mem_numeral (by decide) hb)
    · exact mem_more hb

/-- No numeral has a colon. -/
theorem colon_notMem (n : Nat) : 58 ∉ numeral 16 n := by
  intro h
  obtain ⟨d, hd, heq⟩ := mem_numeral (by decide) h
  exact (digit_spec d hd).2.1 heq.symm

/-! ## Reading it back -/

theorem group_numeral {n : Nat} (h : n < 65536) : group (numeral 16 n) = some n := by
  have hlen : (numeral 16 n).length ≤ 4 := by
    rw [numeral, List.length_map]
    exact (Nat.length_toDigits_le_iff (by decide) (by decide)).2 h
  have hdigits : (numeral 16 n).all (fun b => (digitValue b).isSome) := by
    rw [List.all_eq_true]
    intro b hb
    obtain ⟨d, hd, rfl⟩ := mem_numeral (by decide) hb
    rw [(digit_spec d hd).1]
    rfl
  have hlead : (numeral 16 n).length = 1 ∨ (numeral 16 n).headD 0 ≠ 48 := by
    rcases Nat.eq_zero_or_pos n with rfl | hpos
    · exact .inl rfl
    · exact .inr (headD_numeral (by decide) (by decide) hpos)
  rw [group, if_pos ⟨List.length_pos_iff.2 (numeral_ne_nil n), hlen, hdigits, hlead⟩,
    digitsFrom_numeral (by decide) (by decide)]

theorem mapM_group {gs : List Nat} (h : ∀ g ∈ gs, g < 65536) : (gs.map (numeral 16)).mapM group = some gs := by
  induction gs with
  | nil => rfl
  | cons g gs ih =>
    rw [List.map_cons, List.mapM_cons, group_numeral (h g List.mem_cons_self),
      ih fun g' hg' => h g' (List.mem_cons_of_mem g hg')]
    rfl

theorem groups_join {gs : List Nat} (h : ∀ g ∈ gs, g < 65536) : groups (join gs) = some gs := by
  cases gs with
  | nil => rfl
  | cons g gs =>
    have hne : join (g :: gs) ≠ [] := by simp [join_cons, numeral_ne_nil]
    have hsplit : (join (g :: gs)).splitOn 58 = (g :: gs).map (numeral 16) := by
      refine List.splitOn_intercalate 58 ?_ (by simp)
      intro l hl
      obtain ⟨n, -, rfl⟩ := List.mem_map.1 hl
      exact colon_notMem n
    rw [groups, if_neg hne, hsplit, mapM_group h]

theorem cut_of_ne {b : UInt8} (hb : b ≠ 58) (s : Bytes) : cut (b :: s) = (cut s).map fun lr => (b :: lr.1, lr.2) := by
  rw [cut, if_neg fun h => hb h.1]

/-- Bytes that are no colons come before the cut. -/
theorem cut_append {w : Bytes} (hw : 58 ∉ w) (s : Bytes) : cut (w ++ s) = (cut s).map fun lr => (w ++ lr.1, lr.2) := by
  induction w with
  | nil => cases h : cut s <;> simp [h]
  | cons b w ih =>
    obtain ⟨hb, hw⟩ := not_or.1 (fun h => hw (List.mem_cons.2 h))
    rw [List.cons_append, cut_of_ne (Ne.symm hb), ih hw, Option.map_map]
    rfl

/-- A colon in front of a numeral does. -/
theorem cut_more (gs : List Nat) (s : Bytes) : cut (more gs ++ s) = (cut s).map fun lr => (more gs ++ lr.1, lr.2) := by
  induction gs with
  | nil => cases h : cut s <;> simp [more, h]
  | cons g gs ih =>
    have hhead : (numeral 16 g ++ (more gs ++ s)).head? ≠ some 58 := by
      cases hcase : numeral 16 g with
      | nil => exact absurd hcase (numeral_ne_nil g)
      | cons b ds =>
        have hb : b ≠ 58 := fun h => colon_notMem g (by rw [hcase, h]; exact List.mem_cons_self)
        simpa using hb
    rw [more_cons, List.cons_append, List.append_assoc, cut, if_neg fun h => hhead h.2,
      cut_append (colon_notMem g), ih, Option.map_map, Option.map_map]
    simp only [Function.comp_def, List.append_assoc, List.cons_append]

theorem cut_join (gs : List Nat) (s : Bytes) : cut (join gs ++ s) = (cut s).map fun lr => (join gs ++ lr.1, lr.2) := by
  cases gs with
  | nil => cases h : cut s <;> simp [h]
  | cons g gs =>
    rw [join_cons, List.append_assoc, cut_append (colon_notMem g), cut_more, Option.map_map]
    simp only [Function.comp_def, List.append_assoc]

/-- Eight groups in full. -/
theorem expand_join {gs : List Nat} (h : ∀ g ∈ gs, g < 65536) (hlen : gs.length = 8) : expand (join gs) = some gs := by
  have hcut : cut (join gs) = none := by
    have := cut_join gs []
    rwa [List.append_nil] at this
  rw [expand, hcut]
  simp [groups_join h, hlen]

/-- Fewer groups around two colons. -/
theorem expand_short {left right : List Nat} (hleft : ∀ g ∈ left, g < 65536) (hright : ∀ g ∈ right, g < 65536)
    (hlen : left.length + right.length < 8) :
    expand (join left ++ 58 :: 58 :: join right) =
      some (left ++ List.replicate (8 - (left.length + right.length)) 0 ++ right) := by
  have hcut : cut (join left ++ 58 :: 58 :: join right) = some (join left, join right) := by
    rw [cut_join]
    simp [cut]
  rw [expand, hcut]
  simp [groups_join hleft, groups_join hright, hlen]

end GroupText
