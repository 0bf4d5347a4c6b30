import Linko.Lib.Yaml
/-!
# Flow style

A format for nodes on one line: numbers are plain, other scalars stand in
quotes, and there is a comma behind every item of a collection.
-/

namespace FlowText

open CString Yaml

def isPlain (b : UInt8) : Bool := b == 45 || (48 ≤ b && b ≤ 57)

def escape : Bytes → Bytes
  | [] => []
  | b :: bs =>
    if b = 34 ∨ b = 92 then 92 :: b :: escape bs
    else if b = 10 then 92 :: 110 :: escape bs
    else b :: escape bs

def quote (s : Bytes) : Bytes := 34 :: (escape s ++ [34])

def emitScalar (s : Bytes) : Bytes := if s ≠ [] ∧ s.all isPlain then s else quote s

mutual
def emit : Node → Bytes
  | .null => [126]
  | .scalar text => emitScalar text
  | .seq items => 91 :: emitItems items
  | .map pairs => 123 :: emitPairs pairs

def emitItems : List Node → Bytes
  | [] => [93]
  | n :: items => emit n ++ 44 :: emitItems items

def emitPairs : List (Bytes × Node) → Bytes
  | [] => [125]
  | (key, n) :: pairs => quote key ++ 58 :: (emit n ++ 44 :: emitPairs pairs)
end

/-! ## Reading -/

/-- The text up to the closing quote and what is behind it; `esc` is set behind a
backslash. -/
def unquote (esc : Bool) : Bytes → Option (Bytes × Bytes)
  | [] => none
  | b :: s =>
    if esc then (unquote false s).map fun r => ((if b = 110 then 10 else b) :: r.1, r.2)
    else if b = 34 then some ([], s)
    else if b = 92 then unquote true s
    else (unquote false s).map fun r => (b :: r.1, r.2)

/-- One byte that has to be there. -/
def expect (b : UInt8) (s : Bytes) : Option Bytes := if s.head? = some b then some s.tail else none

mutual
def parse : Nat → Bytes → Option (Node × Bytes)
  | 0, _ => none
  | _, [] => none
  | fuel + 1, b :: s =>
    if b = 126 then some (.null, s)
    else if b = 34 then (unquote false s).map fun r => (.scalar r.1, r.2)
    else if b = 91 then (parseItems fuel s).map fun r => (.seq r.1, r.2)
    else if b = 123 then (parsePairs fuel s).map fun r => (.map r.1, r.2)
    else if isPlain b then some (.scalar ((b :: s).takeWhile isPlain), (b :: s).dropWhile isPlain)
    else none

def parseItems : Nat → Bytes → Option (List Node × Bytes)
  | 0, _ => none
  | fuel + 1, s =>
    if s.head? = some 93 then some ([], s.tail)
    else do
      let first ← parse fuel s
      let items ← parseItems fuel (← expect 44 first.2)
      some (first.1 :: items.1, items.2)

def parsePairs : Nat → Bytes → Option (List (Bytes × Node) × Bytes)
  | 0, _ => none
  | fuel + 1, s =>
    if s.head? = some 125 then some ([], s.tail)
    else do
      let key ← unquote false (← expect 34 s)
      let value ← parse fuel (← expect 58 key.2)
      let pairs ← parsePairs fuel (← expect 44 value.2)
      some ((key.1, value.1) :: pairs.1, pairs.2)
end

def load (s : Bytes) : Option Node := do
  let r ← parse s.length s
  if r.2 = [] then some r.1 else none

/-! ## Reading back what was written -/

theorem unquote_escape (s rest : Bytes) : unquote false (escape s ++ 34 :: rest) = some (s, rest) := by
  induction s with
  | nil => simp [escape, unquote]
  | cons b s ih =>
    unfold escape
    split
    · rename_i hb
      have h110 : b ≠ 110 := by rintro rfl; revert hb; decide
      simp [unquote, ih, h110]
    · rename_i hb
      rw [not_or] at hb
      split
      · rename_i h10
        simp [unquote, ih, h10]
      · simp [unquote, ih, hb.1, hb.2]

@[simp] theorem expect_cons (b : UInt8) (s : Bytes) : expect b (b :: s) = some s := by simp [expect]

/-- No digit follows. -/
def Ends (rest : Bytes) : Prop := ∀ b ∈ rest.head?, isPlain b = false

theorem ends_cons {b : UInt8} (h : isPlain b = false) (s : Bytes) : Ends (b :: s) := by
  intro c hc
  obtain rfl : b = c := by simpa using hc
  exact h

theorem parse_scalar {text rest : Bytes} (hrest : Ends rest) {fuel : Nat} (hfuel : 0 < fuel) :
    parse fuel (emitScalar text ++ rest) = some (.scalar text, rest) := by
  obtain ⟨fuel, rfl⟩ := Nat.exists_eq_succ_of_ne_zero hfuel.ne'
  unfold emitScalar
  split
  · rename_i h
    obtain ⟨hne, hall⟩ := h
    have htake : (text ++ rest).takeWhile isPlain = text ∧ (text ++ rest).dropWhile isPlain = rest := by
      rw [List.all_eq_true] at hall
      rw [List.takeWhile_append_of_pos hall, List.dropWhile_append_of_pos hall]
      cases rest with
      | nil => simp
      | cons b rest => simp [hrest b rfl]
    cases text with
    | nil => exact absurd rfl hne
    | cons b text =>
      have hb : isPlain b = true := List.all_eq_true.1 hall b List.mem_cons_self
      have hnot : ∀ c, isPlain c = false → b ≠ c := by
        rintro c hc rfl
        rw [hb] at hc
        cases hc
      rw [List.cons_append] at htake ⊢
      rw [parse, if_neg (hnot 126 rfl), if_neg (hnot 34 rfl), if_neg (hnot 91 rfl), if_neg (hnot 123 rfl), if_pos hb,
        htake.1, htake.2]
  · simp [quote, parse, unquote_escape]

/-- No node begins like the end of a sequence. -/
theorem head_emit (n : Node) (rest : Bytes) : (emit n ++ rest).head? ≠ some 93 := by
  cases n with
  | null => simp [emit]
  | scalar text =>
    unfold emit emitScalar
    split
    · rename_i h
      obtain ⟨hne, hall⟩ := h
      cases text with
      | nil => exact absurd rfl hne
      | cons b text =>
        have hb : isPlain b = true := List.all_eq_true.1 hall b List.mem_cons_self
        rw [List.cons_append, List.head?_cons, Ne, Option.some.injEq]
        rintro rfl
        cases hb
    · simp [quote]
  | seq items => simp [emit]
  | map pairs => simp [emit]

mutual
theorem parse_emit (n : Node) (rest : Bytes) (hrest : Ends rest) (fuel : Nat) (hfuel : (emit n).length ≤ fuel) :
    parse fuel (emit n ++ rest) = some (n, rest) := by
  cases n with
  | null =>
    rw [emit] at hfuel ⊢
    obtain ⟨fuel, rfl⟩ := Nat.exists_eq_succ_of_ne_zero (Nat.one_le_iff_ne_zero.1 hfuel)
    simp [parse]
  | scalar text =>
    rw [emit] at hfuel ⊢
    refine parse_scalar hrest (Nat.lt_of_lt_of_le ?_ hfuel)
    unfold emitScalar
    split
    · rename_i h
      exact List.length_pos_iff.2 h.1
    · exact Nat.succ_pos _
  | seq items =>
    rw [emit, List.length_cons] at hfuel
    obtain ⟨fuel, rfl⟩ := Nat.exists_eq_succ_of_ne_zero (Nat.ne_zero_of_lt hfuel)
    have hitems := parseItems_emit items rest fuel (Nat.le_of_succ_le_succ hfuel)
    simp [emit, parse, hitems]
  | map pairs =>
    rw [emit, List.length_cons] at hfuel
    obtain ⟨fuel, rfl⟩ := Nat.exists_eq_succ_of_ne_zero (Nat.ne_zero_of_lt hfuel)
    have hpairs := parsePairs_emit pairs rest fuel (Nat.le_of_succ_le_succ hfuel)
    simp [emit, parse, hpairs]

theorem parseItems_emit (items : List Node) (rest : Bytes) (fuel : Nat) (hfuel : (emitItems items).length ≤ fuel) :
    parseItems fuel (emitItems items ++ rest) = some (items, rest) := by
  cases items with
  | nil =>
    rw [emitItems] at hfuel ⊢
    obtain ⟨fuel, rfl⟩ := Nat.exists_eq_succ_of_ne_zero (Nat.one_le_iff_ne_zero.1 hfuel)
    simp [parseItems]
  | cons n items =>
    rw [emitItems, List.length_append, List.length_cons] at hfuel
    obtain ⟨fuel, rfl⟩ := Nat.exists_eq_succ_of_ne_zero (n := fuel) (by omega)
    have hfirst := parse_emit n (44 :: (emitItems items ++ rest)) (ends_cons (by decide) _) fuel (by omega)
    have hitems := parseItems_emit items rest fuel (by omega)
    rw [emitItems, List.append_assoc, List.cons_append, parseItems, if_neg (head_emit n _), hfirst]
    simp [hitems]

theorem parsePairs_emit (pairs : List (Bytes × Node)) (rest : Bytes) (fuel : Nat)
    (hfuel : (emitPairs pairs).length ≤ fuel) : parsePairs fuel (emitPairs pairs ++ rest) = some (pairs, rest) := by
  cases pairs with
  | nil =>
    rw [emitPairs] at hfuel ⊢
    obtain ⟨fuel, rfl⟩ := Nat.exists_eq_succ_of_ne_zero (Nat.one_le_iff_ne_zero.1 hfuel)
    simp [parsePairs]
  | cons p pairs =>
    obtain ⟨key, n⟩ := p
    simp only [emitPairs, List.length_append, List.length_cons] at hfuel
    obtain ⟨fuel, rfl⟩ := Nat.exists_eq_succ_of_ne_zero (n := fuel) (by omega)
    have hvalue := parse_emit n (44 :: (emitPairs pairs ++ rest)) (ends_cons (by decide) _) fuel (by omega)
    have hpairs := parsePairs_emit pairs rest fuel (by omega)
    have hkey := unquote_escape key (58 :: (emit n ++ 44 :: (emitPairs pairs ++ rest)))
    simp [emitPairs, quote, parsePairs, hkey, hvalue, hpairs]
end

theorem load_emit (n : Node) : load (emit n) = some n := by
  have h := parse_emit n [] (by simp [Ends]) (emit n).length le_rfl
  rw [List.append_nil] at h
  simp [load, h]

theorem emit_number (i : Int) : emit (.scalar (signed i)) = signed i := by
  have hall : (signed i).all isPlain = true := by
    rw [List.all_eq_true]
    intro b hb
    simpa [isPlain] using mem_signed hb
  rw [emit, emitScalar, if_pos ⟨signed_ne_nil i, hall⟩]

def format : Format := ⟨emit, load, load_emit, emit_number⟩

end FlowText
