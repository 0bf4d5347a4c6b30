import Linko.ByteArray.Ops
/-!
# The write side refines a flat buffer

`FlatBuffer` says what the block list is for: bytes at offsets, a cursor and a
size. Every sequence of writes, repositionings, clears and `getWriteBuffers`
keeps `Inv` and follows the flat buffer.
-/

namespace Linko.ByteArray

open Blocks

/-- What the block list stands for. `mem` holds the bytes stored since the
last `clear`; `capacity` is the room taken so far, in whole blocks. -/
structure FlatBuffer where
  baseSize : Nat
  position : Nat
  size : Nat
  capacity : Nat
  mem : Nat → Option UInt8

namespace FlatBuffer

def fresh (B : Nat) : FlatBuffer := ⟨B, 0, 0, B, fun _ => none⟩

def reserve (f : FlatBuffer) (n : Nat) : FlatBuffer :=
  { f with capacity := max f.capacity (roundUp f.baseSize (f.position + n)) }

def write (f : FlatBuffer) (buf : List UInt8) : FlatBuffer :=
  { f.reserve buf.length with
    position := f.position + buf.length
    size := max f.size (f.position + buf.length)
    mem := fun o => if f.position ≤ o ∧ o < f.position + buf.length then buf[o - f.position]? else f.mem o }

/-- A position behind the room taken is refused. -/
def setPosition (f : FlatBuffer) (v : Nat) : FlatBuffer :=
  if f.capacity < v then f else { f with position := v, size := max f.size v }

def clear (f : FlatBuffer) : FlatBuffer := fresh f.baseSize

end FlatBuffer

inductive WriteOp where
  | write (buf : List UInt8)
  | setPosition (v : Nat)
  | clear
  | getWriteBuffers (len : Nat)

/-- One call. A caller that catches `std::out_of_range` goes on with the
object as the throwing `setPosition` left it. -/
def WriteOp.apply (ba : ByteArray) : WriteOp → Except Fault ByteArray
  | .write buf => ba.write buf
  | .setPosition v =>
    match ba.setPosition v with
    | .error .outOfRange => .ok ba
    | r => r
  | .clear => .ok ba.clear
  | .getWriteBuffers len => do
    let (_, _, ba) ← ba.getWriteBuffers len
    .ok ba

def WriteOp.onFlat (f : FlatBuffer) : WriteOp → FlatBuffer
  | .write buf => if buf.length = 0 then f else f.write buf
  | .setPosition v => f.setPosition v
  | .clear => f.clear
  | .getWriteBuffers len => if len = 0 then f else f.reserve len

/-- The calls of a program, one after the other. -/
def runOps (ba : ByteArray) (ops : List WriteOp) : Except Fault ByteArray := ops.foldlM WriteOp.apply ba

/-- `ba` holds the bytes, the cursor and the room of `f`. -/
structure Refines (ba : ByteArray) (f : FlatBuffer) : Prop where
  inv : ba.Inv
  base : ba.baseSize = f.baseSize
  position : ba.position = f.position
  size : ba.size = f.size
  capacity : ba.capacity = f.capacity
  mem : ∀ o b, f.mem o = some b → ba.store[o]? = some (some b)

theorem refines_new {B : Nat} (hB : 1 ≤ B) : Refines (new B) (FlatBuffer.fresh B) where
  inv := by
    refine ⟨hB, ?_, by simp [new], by simp [new], by simp [new], by simp [new], ?_⟩
    · simp [new, Node.new]
    · show some 0 = if 0 = B then none else some (0 / B)
      rw [if_neg (by omega), Nat.zero_div]
  base := rfl
  position := rfl
  size := rfl
  capacity := rfl
  mem o b h := by simp [FlatBuffer.fresh] at h

theorem refines_addCapacity {ba : ByteArray} {f : FlatBuffer} (h : Refines ba f) (n : Nat) :
    Refines (ba.addCapacity n) (f.reserve n) := by
  obtain ⟨hi, hb, hp, hs, -, hc, fresh, hst⟩ := addCapacity_spec h.inv n
  refine ⟨hi, hb.trans h.base, hp.trans h.position, hs.trans h.size, ?_, fun o b hm => ?_⟩
  · rw [hc, h.base, h.position, h.capacity]
    rfl
  · have ho := h.mem o b hm
    have hlt : o < ba.store.length := (List.getElem?_eq_some_iff.1 ho).1
    rw [hst, List.getElem?_append_left hlt, ho]

theorem refines_write {ba : ByteArray} {f : FlatBuffer} (h : Refines ba f) (buf : List UInt8) :
    ∃ ba', ba.write buf = .ok ba' ∧ Refines ba' (f.write buf) := by
  obtain ⟨ba', fresh, hw, hi, hb, -, hp, hs, hc, hfit, hst⟩ := write_ok h.inv buf
  refine ⟨ba', hw, hi, hb.trans h.base, ?_, ?_, ?_, fun o b hm => ?_⟩
  · rw [hp, h.position]
    rfl
  · rw [hs, h.position, h.size]
    rfl
  · rw [hc, h.capacity, h.base, h.position]
    rfl
  · rw [hst, getElem?_splice (by simpa using hfit), List.length_map, h.position]
    simp only [FlatBuffer.write] at hm
    split at hm
    · rename_i hin
      rw [if_pos hin, List.getElem?_map, hm]
      rfl
    · rename_i hout
      have ho := h.mem o b hm
      rw [if_neg hout, List.getElem?_append_left (List.getElem?_eq_some_iff.1 ho).1, ho]

theorem refines_setPosition {ba : ByteArray} {f : FlatBuffer} (h : Refines ba f) (v : Nat) :
    ∃ ba', WriteOp.apply ba (.setPosition v) = .ok ba' ∧ Refines ba' (f.setPosition v) := by
  by_cases hv : v > ba.capacity
  · refine ⟨ba, by simp only [WriteOp.apply, setPosition, if_pos hv], ?_⟩
    rw [FlatBuffer.setPosition, if_pos (by rw [← h.capacity]; exact hv)]
    exact h
  · obtain ⟨ba', hset, hi, hb, -, hp, hs, hc, hst⟩ := setPosition_ok h.inv (Nat.le_of_not_gt hv)
    have hf : f.setPosition v = { f with position := v, size := max f.size v } :=
      if_neg (by rw [← h.capacity]; exact hv)
    refine ⟨ba', by simp only [WriteOp.apply, hset], ?_⟩
    rw [hf]
    exact ⟨hi, hb.trans h.base, hp, hs.trans (by rw [h.size]), hc.trans h.capacity,
      fun o b hm => hst ▸ h.mem o b hm⟩

theorem refines_clear {ba : ByteArray} {f : FlatBuffer} (h : Refines ba f) : Refines ba.clear f.clear :=
  ⟨clear_inv h.inv, h.base, rfl, rfl, h.base, fun o b hm => by simp [FlatBuffer.clear, FlatBuffer.fresh] at hm⟩

theorem refines_getWriteBuffers {ba : ByteArray} {f : FlatBuffer} (h : Refines ba f) {len : Nat}
    (hlen : len ≠ 0) :
    ∃ ba', WriteOp.apply ba (.getWriteBuffers len) = .ok ba' ∧ Refines ba' (f.reserve len) := by
  obtain ⟨iovs, hget⟩ := getWriteBuffers_ok h.inv hlen
  refine ⟨ba.addCapacity len, ?_, refines_addCapacity h len⟩
  simp only [WriteOp.apply, hget]
  rfl

/-- Every call succeeds or throws `out_of_range`, and does what it says on the
flat buffer. -/
theorem refines_apply {ba : ByteArray} {f : FlatBuffer} (h : Refines ba f) (op : WriteOp) :
    ∃ ba', op.apply ba = .ok ba' ∧ Refines ba' (op.onFlat f) := by
  cases op with
  | write buf =>
    by_cases hb : buf.length = 0
    · refine ⟨ba, by rw [WriteOp.apply, write, if_pos hb], ?_⟩
      rw [WriteOp.onFlat, if_pos hb]
      exact h
    · rw [WriteOp.onFlat, if_neg hb]
      exact refines_write h buf
  | setPosition v => exact refines_setPosition h v
  | clear => exact ⟨ba.clear, rfl, refines_clear h⟩
  | getWriteBuffers len =>
    by_cases hl : len = 0
    · refine ⟨ba, by rw [WriteOp.apply, getWriteBuffers, if_pos hl]; rfl, ?_⟩
      rw [WriteOp.onFlat, if_pos hl]
      exact h
    · rw [WriteOp.onFlat, if_neg hl]
      exact refines_getWriteBuffers h hl

theorem refines_runOps {ba : ByteArray} {f : FlatBuffer} (h : Refines ba f) (ops : List WriteOp) :
    ∃ ba', runOps ba ops = .ok ba' ∧ Refines ba' (ops.foldl WriteOp.onFlat f) := by
  induction ops generalizing ba f with
  | nil => exact ⟨ba, rfl, h⟩
  | cons op ops ih =>
    obtain ⟨ba₁, h₁, hr₁⟩ := refines_apply h op
    obtain ⟨ba', hrun, hr'⟩ := ih hr₁
    refine ⟨ba', ?_, hr'⟩
    rw [runOps, List.foldlM_cons, h₁]
    exact hrun

theorem onFlat_base (f : FlatBuffer) (op : WriteOp) : (op.onFlat f).baseSize = f.baseSize := by
  cases op with
  | write buf => rw [WriteOp.onFlat]; split <;> rfl
  | setPosition v => rw [WriteOp.onFlat, FlatBuffer.setPosition]; split <;> rfl
  | clear => rfl
  | getWriteBuffers len => rw [WriteOp.onFlat]; split <;> rfl

theorem onFlat_base_all (f : FlatBuffer) (ops : List WriteOp) :
    (ops.foldl WriteOp.onFlat f).baseSize = f.baseSize := by
  induction ops generalizing f with
  | nil => rfl
  | cons op ops ih => rw [List.foldl_cons, ih, onFlat_base]

/-- What every reachable state is. -/
theorem inv_of_runOps {B : Nat} (hB : 1 ≤ B) {ops : List WriteOp} {ba : ByteArray}
    (hr : runOps (new B) ops = .ok ba) : ba.Inv ∧ ba.baseSize = B := by
  obtain ⟨ba', hrun, hrefines⟩ := refines_runOps (refines_new hB) ops
  obtain rfl : ba' = ba := Except.ok.inj (hrun.symm.trans hr)
  exact ⟨hrefines.inv, hrefines.base.trans (onFlat_base_all _ ops)⟩

/-- Any program of writes, repositionings (refused ones included), clears and
`getWriteBuffers` calls on a fresh `ByteArray` runs without a fault, keeps the
representation invariant and follows the flat buffer; `toString` then returns
the bytes from the position to the size, with the byte last written at every
offset written since the last `clear`. -/
theorem write_side_refines (B : Nat) (hB : 1 ≤ B) (ops : List WriteOp) :
    ∃ ba, runOps (new B) ops = .ok ba ∧ ba.Inv ∧ ba.getBaseSize = B ∧
      ba.getPosition = (ops.foldl WriteOp.onFlat (FlatBuffer.fresh B)).position ∧
      ba.getSize = (ops.foldl WriteOp.onFlat (FlatBuffer.fresh B)).size ∧
      ba.getReadSize = ba.getSize - ba.getPosition ∧
      ∃ str, ba.toString = .ok str ∧ str.length = ba.getSize - ba.getPosition ∧
        ∀ i b, i < str.length →
          (ops.foldl WriteOp.onFlat (FlatBuffer.fresh B)).mem (ba.getPosition + i) = some b →
          str[i]? = some (some b) := by
  obtain ⟨ba, hrun, hr⟩ := refines_runOps (refines_new hB) ops
  have hi := hr.inv
  have hlen : (slice ba.store ba.position (ba.size - ba.position)).length = ba.size - ba.position := by
    apply length_slice
    have := hi.position_le
    have := hi.size_le
    rw [hi.length_store]
    omega
  refine ⟨ba, hrun, hi, hr.base.trans (onFlat_base_all _ ops), hr.position, hr.size, getReadSize_eq hi, _,
    toString_ok hi, hlen, ?_⟩
  intro i b hlt hm
  rw [getElem?_slice, if_pos (by omega)]
  exact hr.mem _ _ hm

/-- Two writes, the second over the first and across a block boundary. -/
theorem write_side_refines_overwrite :
    ∃ ba, runOps (new 2) [.write [1, 2, 3], .setPosition 1, .write [9, 8, 7], .setPosition 0] = .ok ba ∧
      ba.Inv ∧ ba.getSize = 4 ∧ ba.toString = .ok [some 1, some 9, some 8, some 7] := by
  obtain ⟨ba, hrun, hi, -, -, hs, -⟩ :=
    write_side_refines 2 (by decide) [.write [1, 2, 3], .setPosition 1, .write [9, 8, 7], .setPosition 0]
  refine ⟨ba, hrun, hi, hs.trans (by decide), ?_⟩
  have he : runOps (new 2) [.write [1, 2, 3], .setPosition 1, .write [9, 8, 7], .setPosition 0] =
      .ok ⟨2, 0, 4, 4, .big, [⟨[some 1, some 9], 2⟩, ⟨[some 8, some 7], 2⟩], some 0⟩ := by rfl
  rw [he, Except.ok.injEq] at hrun
  rw [← hrun]
  rfl

end Linko.ByteArray
