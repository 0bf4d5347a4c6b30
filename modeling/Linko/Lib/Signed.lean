import Linko.Lib.GroupText
/-!
# Signed numbers as text

The decimal text of an integer and its reader.
-/

namespace CString

/-- What `operator<<` writes for a signed value. -/
def signed (n : Int) : Bytes := if n < 0 then 45 :: decimal n.natAbs else decimal n.natAbs

/-- A whole text that is a number, with or without a sign. -/
def readSigned (s : Bytes) : Option Int :=
  let digits := if s.headD 0 = 45 ∨ s.headD 0 = 43 then s.tail else s
  if digits ≠ [] ∧ digits.all (fun b => 48 ≤ b && b ≤ 57) then
    some (if s.headD 0 = 45 then -(digitsFrom 10 0 digits : Int) else digitsFrom 10 0 digits)
  else none

theorem decimal_ne_nil (n : Nat) : decimal n ≠ [] := GroupText.numeral_ne_nil n

theorem decimal_all (n : Nat) : (decimal n).all (fun b => 48 ≤ b && b ≤ 57) = true := by
  rw [List.all_eq_true]
  intro b hb
  simpa using decimal_digit hb

theorem decimal_concat (n : Nat) : ∃ text c, decimal n = text ++ [c] ∧ 48 ≤ c ∧ c ≤ 57 := by
  rcases List.eq_nil_or_concat' (decimal n) with hnil | ⟨text, c, hc⟩
  · exact absurd hnil (decimal_ne_nil n)
  · exact ⟨text, c, hc, decimal_digit (hc ▸ List.mem_append_right _ List.mem_cons_self)⟩

theorem signed_concat (n : Int) : ∃ text c, signed n = text ++ [c] ∧ 48 ≤ c ∧ c ≤ 57 := by
  obtain ⟨text, c, hc, hdigit⟩ := decimal_concat n.natAbs
  unfold signed
  split
  · exact ⟨45 :: text, c, by rw [hc]; rfl, hdigit⟩
  · exact ⟨text, c, hc, hdigit⟩

theorem signed_ne_nil (n : Int) : signed n ≠ [] := by
  obtain ⟨text, c, hc, -⟩ := signed_concat n
  simp [hc]

theorem mem_signed {n : Int} {b : UInt8} (hb : b ∈ signed n) : b = 45 ∨ 48 ≤ b ∧ b ≤ 57 := by
  unfold signed at hb
  split at hb
  · rcases List.mem_cons.1 hb with rfl | hb
    · exact .inl rfl
    · exact .inr (decimal_digit hb)
  · exact .inr (decimal_digit hb)

theorem readSigned_signed (n : Int) : readSigned (signed n) = some n := by
  have hread : digitsFrom 10 0 (decimal n.natAbs) = n.natAbs := GroupText.digitsFrom_numeral (by decide) (by decide) _
  have hwhole : decimal n.natAbs ≠ [] ∧ (decimal n.natAbs).all (fun b => 48 ≤ b && b ≤ 57) = true :=
    ⟨decimal_ne_nil _, decimal_all _⟩
  unfold signed
  split
  · simp only [readSigned, List.headD_cons, List.tail_cons, true_or, if_true, if_pos hwhole, hread]
    congr 1
    omega
  · -- a digit is no sign
    have hsign : ∀ b < 48, (decimal n.natAbs).headD 0 ≠ b := by
      obtain ⟨c, cs, hcs⟩ := List.exists_cons_of_ne_nil (decimal_ne_nil n.natAbs)
      have hc := (decimal_digit (hcs ▸ List.mem_cons_self)).1
      rw [hcs]
      rintro b hb rfl
      exact absurd (UInt8.lt_of_lt_of_le hb hc) (UInt8.lt_irrefl _)
    simp only [readSigned, hsign 45 (by decide), hsign 43 (by decide), or_self, if_false, if_pos hwhole, hread]
    congr 1
    omega

end CString
