import Linko.Lib.Ragel
/-!
# Tables in buckets

The rows of a table of a machine, split by the low bits of the states: a state
is searched for in its own bucket only. A machine that looks its transitions up
there is the same machine, and the one that the kernel can run over many states.
-/

namespace Ragel

inductive Buckets (α : Type) where
  | leaf (rows : List (Nat × α))
  | node (even odd : Buckets α)

namespace Buckets

variable {α : Type}

/-- Split `d` times, by the bit of weight `m` first. -/
def split : Nat → Nat → List (Nat × α) → Buckets α
  | 0, _, rows => leaf rows
  | d + 1, m, rows =>
    node (split d (2 * m) (rows.filter fun r => Nat.beq (r.1 / m % 2) 0))
      (split d (2 * m) (rows.filter fun r => !Nat.beq (r.1 / m % 2) 0))

def find (n : Nat) : Nat → Buckets α → List (Nat × α)
  | _, leaf rows => rows
  | m, node even odd =>
    match Nat.beq (n / m % 2) 0 with
    | true => find n (2 * m) even
    | false => find n (2 * m) odd

end Buckets

variable {Act : Type}

theorem row_filter {p : Nat → Bool} {n : Nat} (hn : p n = true) (rows : List (Nat × List (Edge Act))) :
    row (rows.filter fun r => p r.1) n = row rows n := by
  induction rows with
  | nil => rfl
  | cons r rows ih =>
    obtain ⟨k, es⟩ := r
    rw [List.filter_cons]
    split
    · rw [row, row, ih]
    -- a row that is left out is not the row of `n`
    · rename_i hk
      have hne : ¬ Nat.beq k n = true := by
        intro h
        obtain rfl := Nat.eq_of_beq_eq_true h
        exact hk hn
      rw [row, if_neg hne]
      exact ih

theorem row_find (d m n : Nat) (rows : List (Nat × List (Edge Act))) :
    row ((Buckets.split d m rows).find n m) n = row rows n := by
  induction d generalizing m rows with
  | zero => rfl
  | succ d ih =>
    rw [Buckets.split, Buckets.find]
    split
    · rename_i h
      rw [ih]
      exact row_filter (p := fun k => Nat.beq (k / m % 2) 0) h rows
    · rename_i h
      rw [ih]
      exact row_filter (p := fun k => !Nat.beq (k / m % 2) 0) (by rw [h]; rfl) rows

/-- `lookup` in the buckets of a table. -/
def lookupIn (rows : Buckets (List (Edge Act))) (cond : Bool) (cs : Nat) (b : UInt8) : Option (List Act × Nat) :=
  ((row (rows.find cs 1) cs).find? fun e => e.on.has b && (cond || !e.guarded)).map fun e => (e.acts, e.target)

theorem lookupIn_split (d : Nat) (rows : List (Nat × List (Edge Act))) :
    lookupIn (Buckets.split d 1 rows) = lookup rows := by
  funext cond cs b
  rw [lookupIn, lookup, row_find]

/-- Bytes that no class of a row tells apart. -/
theorem lookup_alike {rows : List (Nat × List (Edge Act))} {cs : Nat} {b c : UInt8}
    (h : ∀ e ∈ row rows cs, e.on.has b = e.on.has c) (cond : Bool) : lookup rows cond cs b = lookup rows cond cs c := by
  unfold lookup
  congr 1
  refine List.find?_congr fun e he => ?_
  rw [h e he]

end Ragel
