import Linko.Http.Message
/-!
# Reading from a stream

What a socket delivers is a list of pieces, one for each `read`; a piece that
does not fit into the call is delivered in parts. An empty piece is a `read`
that returns 0 or less, and when no piece is left a `read` waits for ever.
-/

namespace Linko.Http

open CString

abbrev Wire := List Bytes

namespace Wire

/-- The most bytes one `recv` transfers. -/
def maxRead : Nat := 0x7ffff000

/-- `read(buffer, cap)`: the bytes read and what is still to come. -/
def read : Wire → Nat → Option (Bytes × Wire)
  | [], _ => none
  | b :: w, cap =>
    let n := min cap maxRead
    some (b.take n, if b.length ≤ n then w else b.drop n :: w)

def size : Wire → Nat
  | [] => 0
  | b :: w => b.length + 1 + size w

theorem read_size {w w' : Wire} {cap : Nat} {bs : Bytes} (h : w.read cap = some (bs, w'))
    (hbs : bs.length ≠ 0) :
    w'.size < w.size := by
  cases w with
  | nil => cases h
  | cons b w =>
    simp only [read, Option.some.injEq, Prod.mk.injEq] at h
    obtain ⟨rfl, rfl⟩ := h
    rw [List.length_take] at hbs
    split
    · simp only [size]
      omega
    · simp only [size, List.length_drop]
      omega

/-- A read takes bytes from the front of the stream. -/
theorem read_flatten {w w' : Wire} {cap : Nat} {bs : Bytes} (h : w.read cap = some (bs, w')) :
    w.flatten = bs ++ w'.flatten := by
  cases w with
  | nil => cases h
  | cons b w =>
    simp only [read, Option.some.injEq, Prod.mk.injEq] at h
    obtain ⟨rfl, rfl⟩ := h
    split
    · rename_i hle
      rw [List.take_of_length_le hle, List.flatten_cons]
    · rw [List.flatten_cons, List.flatten_cons, ← List.append_assoc, List.take_append_drop]

theorem eq_nil_of_size {w : Wire} (h : w.size ≤ 0) : w = [] := by
  cases w with
  | nil => rfl
  | cons b w =>
    rw [size] at h
    omega

/-- A piece that fits is read whole. -/
theorem read_whole {b : Bytes} {w : Wire} {cap : Nat} (h : b.length ≤ cap) (hm : b.length ≤ maxRead) :
    read (b :: w) cap = some (b, w) := by
  have hn : b.length ≤ min cap maxRead := Nat.le_min.2 ⟨h, hm⟩
  simp only [read, if_pos hn, List.take_of_length_le hn]

end Wire

/-- Where the reads begin. -/
def starts : Nat → List Bytes → List Nat
  | _, [] => []
  | c, b :: bs => c :: starts (c + b.length) bs

/-- How a call that receives a message ends: with the message, after `close()`
with a null pointer, waiting for bytes, or not at all. -/
inductive Recv (α : Type) where
  | returned (a : α)
  | closed
  | waiting
  | fault (f : Fault)

namespace Recv

def bind {α β : Type} : Recv α → (α → Recv β) → Recv β
  | returned a, f => f a
  | closed, _ => closed
  | waiting, _ => waiting
  | fault e, _ => fault e

instance : Monad Recv where
  pure := returned
  bind := bind

theorem bind_returned {α β : Type} {x : Recv α} {f : α → Recv β} {b : β} (h : (x >>= f) = returned b) :
    ∃ a, x = returned a ∧ f a = returned b := by
  cases x with
  | returned a => exact ⟨a, rfl, h⟩
  | closed => cases h
  | waiting => cases h
  | fault e => cases h

end Recv

/-- `readFixSize(buffer, length)`: its value, the bytes it has stored at
`buffer`, and the stream after it, which never grows. -/
structure ReadFixSize where
  run : Wire → Nat → Int × Bytes × Wire
  size_le : ∀ w n, (run w n).2.2.size ≤ w.size

/-- A positive value means that the next `length` bytes of the stream are in
the buffer. -/
def ReadFixSize.Fills (rfs : ReadFixSize) : Prop :=
  ∀ w n, 0 < (rfs.run w n).1 → n ≤ w.flatten.length ∧ (rfs.run w n).2.1 = w.flatten.take n

/-- The settings of a server and what it takes from elsewhere:
`boost::lexical_cast<uint64_t>` and `readFixSize`. -/
structure Config where
  buffSize : Nat
  uriRelaxed : Bool
  lexicalCast : Bytes → Option UInt64
  readFixSize : ReadFixSize

/-- A `readFixSize` that stores the next bytes if they are all there, and
returns -1 otherwise. -/
def ReadFixSize.exact : ReadFixSize where
  run w n :=
    if n ≤ w.flatten.length then (n, w.flatten.take n, if n = w.flatten.length then [] else [w.flatten.drop n])
    else (-1, [], w)
  size_le w n := by
    have hflat : w.flatten.length + w.length ≤ w.size := by
      induction w with
      | nil => simp [Wire.size]
      | cons b w ih =>
        simp only [List.flatten_cons, List.length_append, List.length_cons, Wire.size]
        omega
    have hpos : w.flatten.length ≤ w.size - w.length := by omega
    split
    · split
      · exact Nat.zero_le _
      · have hw : w.length ≠ 0 := fun h => by simp_all [List.length_eq_zero_iff.1 h]
        simp only [Wire.size, List.length_drop]
        omega
    · exact Nat.le_refl _

theorem ReadFixSize.exact_fills : ReadFixSize.exact.Fills := by
  intro w n h
  simp only [ReadFixSize.exact] at h ⊢
  split at h
  · rename_i hn
    rw [if_pos hn]
    exact ⟨hn, rfl⟩
  · exact absurd h (Int.not_lt.2 (Int.neg_ofNat_le_natCast 1 0))

/-- The default buffer size, and a cast that reads plain decimals. -/
def Config.sample : Config where
  buffSize := 4096
  uriRelaxed := false
  lexicalCast s := if s.all fun b => 48 ≤ b && b ≤ 57 then some (UInt64.ofNat (digitsFrom 10 0 s)) else none
  readFixSize := .exact

/-- The conversion from `uint64_t` to `int64_t`. -/
def toInt64 (n : UInt64) : Int := n.toBitVec.toInt

/-- The lines that assemble a body of `length` bytes, the same in
`recvRequest` and `recvResponse`; `data` holds the `offset` bytes of the
buffer that stand behind the header. -/
def recvBody (rfs : ReadFixSize) (length : Int) (data : Bytes) (w : Wire) : Recv (Bytes × Wire) :=
  let offset : Int := data.length
  let body : Bytes := List.replicate length.toNat 0
  let body := if length ≥ offset then body ++ data else body ++ data.take length.toNat
  let len := if length ≥ offset then data.length else length.toNat
  let length := length - offset
  if length > 0 then
    match rfs.run w length.toNat with
    | (rt, bytes, w) => if rt ≤ 0 then .closed else .returned (Blocks.splice body len bytes, w)
  else .returned (body, w)

theorem recvBody_size {rfs : ReadFixSize} {length : Int} {data body : Bytes} {w w' : Wire}
    (h : recvBody rfs length data w = .returned (body, w')) : w'.size ≤ w.size := by
  have hsize := rfs.size_le w (length - data.length).toNat
  simp only [recvBody] at h
  split at h
  · split at h
    · cases h
    · simp only [Recv.returned.injEq, Prod.mk.injEq] at h
      rw [← h.2]
      exact hsize
  · simp only [Recv.returned.injEq, Prod.mk.injEq] at h
    rw [h.2]

end Linko.Http
