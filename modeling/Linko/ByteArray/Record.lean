import Linko.ByteArray.Fixed
import Linko.ByteArray.Program
/-!
# Fields of a record

Values of fixed width that are read in any order and as often as one likes. The
position is set before each read, so no read uses a cursor that another one has
lost, and the block size does not matter.
-/

namespace Linko.ByteArray

open Blocks

/-- `setPosition(offset)` and the matching read. -/
def readField (host : Endian) (ba : ByteArray) (offset : Nat) (v : Fixed) :
    Except Fault (Option Fixed × ByteArray) := do
  let ba ← ba.setPosition offset
  v.read host ba

def readFields (host : Endian) (ba : ByteArray) : List (Nat × Fixed) → Except Fault (List (Option Fixed) × ByteArray)
  | [] => .ok ([], ba)
  | (offset, v) :: fs => do
    let (v', ba) ← readField host ba offset v
    let (vs, ba) ← readFields host ba fs
    .ok (v' :: vs, ba)

/-- The value `v` has been written behind values that end at `offset`. -/
def FieldAt (vs : List Fixed) (offset : Nat) (v : Fixed) : Prop :=
  ∃ before after, vs = before ++ v :: after ∧ offset = (before.map Fixed.width).sum

/-- The buffer holds exactly `bs`, wherever its cursor is. -/
structure Contains (ba : ByteArray) (e : Endian) (bs : List UInt8) : Prop where
  inv : ∃ p cur, (ba.withCursor p cur).Inv
  endian : ba.endian = e
  size : ba.size = bs.length
  bytes : slice ba.store 0 bs.length = bs.map some

variable {ba : ByteArray} {e : Endian} {vs : List Fixed} {v : Fixed}

theorem Holds.contains {B : Nat} {bs : List UInt8} (h : Holds ba B e bs) : Contains ba e bs :=
  ⟨⟨ba.position, ba.cur, h.inv⟩, h.endian, h.size, h.bytes⟩

theorem length_storedAll (e : Endian) (vs : List Fixed) : (storedAll e vs).length = (vs.map Fixed.width).sum := by
  induction vs with
  | nil => rfl
  | cons v vs ih =>
    have hcons : storedAll e (v :: vs) = v.stored e ++ storedAll e vs := rfl
    rw [hcons, List.length_append, Fixed.length_stored, ih]
    rfl

theorem storedAll_split (e : Endian) (before after : List Fixed) (v : Fixed) :
    storedAll e (before ++ v :: after) = storedAll e before ++ (v.stored e ++ storedAll e after) := by
  simp [storedAll]

/-- The bytes of one value among those of all. -/
theorem Contains.slice_field (h : Contains ba e (storedAll e vs)) {offset : Nat} (hf : FieldAt vs offset v) :
    offset + v.width ≤ ba.size ∧ slice ba.store offset v.width = (v.stored e).map some := by
  obtain ⟨before, after, rfl, rfl⟩ := hf
  have hbefore := length_storedAll e before
  have hbytes := h.bytes
  have hsize := h.size
  rw [storedAll_split] at hbytes hsize
  rw [← hbefore]
  generalize storedAll e before = xs at hbytes hsize ⊢
  generalize storedAll e after = ys at hbytes hsize
  have hlen : (xs ++ (v.stored e ++ ys)).length = xs.length + (v.width + ys.length) := by simp
  rw [hlen] at hbytes hsize
  refine ⟨by omega, ?_⟩
  -- the slice is one of the bytes that are known
  have hcut : slice ba.store xs.length v.width =
      ((slice ba.store 0 (xs.length + (v.width + ys.length))).drop xs.length).take v.width := by
    unfold slice
    rw [List.drop_zero, List.drop_take, List.take_take]
    congr 1
    omega
  rw [hcut, hbytes, List.map_append, List.map_append, List.drop_left' (by simp), List.take_left' (by simp)]

/-- One field is read; where the cursor was does not matter. -/
theorem Contains.readField (h : Contains ba e (storedAll e vs)) {offset : Nat} (hf : FieldAt vs offset v)
    (host : Endian) :
    ∃ ba', readField host ba offset v = .ok (some v, ba') ∧ Contains ba' e (storedAll e vs) := by
  obtain ⟨hfit, hslice⟩ := h.slice_field hf
  obtain ⟨p, cur, hi⟩ := h.inv
  have hcap : ba.size ≤ ba.capacity := hi.size_le
  obtain ⟨ba₁, hset, hi₁, -, he, hp, hs, -, hstore⟩ := setPosition_anywhere hi (v := offset) (by omega)
  have hsize : ba₁.size = ba.size := hs.trans (Nat.max_eq_left (by omega))
  have hbytes : slice ba₁.store 0 (storedAll e vs).length = (storedAll e vs).map some := by
    rw [hstore]
    exact h.bytes
  obtain ⟨ba₂, hread, hcontains⟩ : ∃ ba₂, ba₁.read v.width = .ok (slice ba₁.store ba₁.position v.width, ba₂) ∧
      Contains ba₂ e (storedAll e vs) :=
    ⟨_, read_skip hi₁ v.width_pos (by omega), ⟨ba₁.position, ba₁.cur, hi₁⟩, he.trans h.endian, hsize.trans h.size,
      hbytes⟩
  rw [hp, hstore, hslice] at hread
  refine ⟨ba₂, ?_, hcontains⟩
  unfold ByteArray.readField
  rw [hset]
  refine v.read_stored ?_
  rw [hcontains.endian]
  exact hread

theorem Contains.readFields (h : Contains ba e (storedAll e vs)) {fs : List (Nat × Fixed)}
    (hfs : ∀ f ∈ fs, FieldAt vs f.1 f.2) (host : Endian) :
    ∃ ba', readFields host ba fs = .ok (fs.map fun f => some f.2, ba') ∧ Contains ba' e (storedAll e vs) := by
  induction fs generalizing ba with
  | nil => exact ⟨ba, rfl, h⟩
  | cons f fs ih =>
    obtain ⟨ba₁, hfirst, h₁⟩ := h.readField (hfs f List.mem_cons_self) host
    obtain ⟨ba', hrest, h'⟩ := ih h₁ fun g hg => hfs g (List.mem_cons_of_mem f hg)
    refine ⟨ba', ?_, h'⟩
    rw [ByteArray.readFields, hfirst]
    show (ByteArray.readFields host ba₁ fs >>= _) = _
    rw [hrest]
    rfl

/-- Whatever values of fixed width are written, each can be read back at its
offset, in any order and any number of times, for every block size and byte
order. -/
theorem fields_readBack (host : Endian) (little : Bool) {B : Nat} (hB : 1 ≤ B) {vs : List Fixed}
    {fs : List (Nat × Fixed)} (hfs : ∀ f ∈ fs, FieldAt vs f.1 f.2) :
    ∃ ba ba', writeAll host ((new B).setIsLittleEndian little) vs = .ok ba ∧
      readFields host ba fs = .ok (fs.map fun f => some f.2, ba') := by
  obtain ⟨ba, hwrite, hholds⟩ := holds_writeAll host (holds_new hB little) vs
  rw [List.nil_append] at hholds
  obtain ⟨ba', hread, -⟩ := hholds.contains.readFields hfs host
  exact ⟨ba, ba', hwrite, hread⟩

/-- The second of two values first, then both; the blocks are shorter than it. -/
theorem fields_readBack_backwards : ∃ ba ba',
    writeAll .little ((new 3).setIsLittleEndian false) [.uint8 7, .int32 (-2)] = .ok ba ∧
      readFields .little ba [(1, .int32 (-2)), (0, .uint8 7), (1, .int32 (-2))] =
        .ok ([some (.int32 (-2)), some (.uint8 7), some (.int32 (-2))], ba') := by
  refine fields_readBack .little false (by decide) ?_
  intro f hf
  simp only [List.mem_cons, List.not_mem_nil, or_false] at hf
  rcases hf with rfl | rfl | rfl
  · exact ⟨[.uint8 7], [], rfl, rfl⟩
  · exact ⟨[], [.int32 (-2)], rfl, rfl⟩
  · exact ⟨[.uint8 7], [], rfl, rfl⟩

end Linko.ByteArray
