import Linko.Lib.Blocks
/-!
# `ByteArray`: a serialisation buffer kept as a list of blocks

The functions of `bytearray.cc` that move raw bytes. The blocks hang on
`m_root` by their `next` pointers, so the chain is a list of nodes and `m_cur`
is an index into it, or `none` for the null pointer. Dereferencing null and
copying past the end of a block are faults, as is the exception
`std::out_of_range`.
-/

namespace Linko

/-- One byte of storage: `none` is a byte of a fresh `new char[]` that nothing
has been stored in yet. -/
abbrev Cell := Option UInt8

namespace ByteArray

inductive Fault where
  | nullDeref
  | heapOverflow
  | outOfRange
  deriving DecidableEq, Repr

structure Node where
  ptr : List Cell
  size : Nat
  deriving DecidableEq, Repr

def Node.new (s : Nat) : Node := ⟨List.replicate s none, s⟩

/-- `memcpy(ptr + npos, bytes, ..)`. -/
def Node.store (nd : Node) (npos : Nat) (bytes : List UInt8) : Except Fault Node :=
  if npos + bytes.length ≤ nd.ptr.length then .ok { nd with ptr := Blocks.splice nd.ptr npos (bytes.map some) }
  else .error .heapOverflow

/-- `memcpy(.., ptr + npos, n)`. -/
def Node.load (nd : Node) (npos n : Nat) : Except Fault (List Cell) :=
  if npos + n ≤ nd.ptr.length then .ok (Blocks.slice nd.ptr npos n) else .error .heapOverflow

inductive Endian where
  | little
  | big
  deriving DecidableEq, Repr

/-- A piece of a block, as handed to `readv` and `writev`. -/
structure IoVec where
  node : Nat
  base : Nat
  len : Nat
  deriving DecidableEq, Repr

end ByteArray

structure ByteArray where
  baseSize : Nat
  position : Nat
  capacity : Nat
  size : Nat
  endian : ByteArray.Endian
  /-- The chain from `m_root` on. -/
  nodes : List ByteArray.Node
  /-- `m_cur`, as a position in the chain. -/
  cur : Option Nat
  deriving DecidableEq, Repr

namespace ByteArray

def new (baseSize : Nat) : ByteArray where
  baseSize := baseSize
  position := 0
  capacity := baseSize
  size := 0
  endian := .big
  nodes := [Node.new baseSize]
  cur := some 0

def setIsLittleEndian (ba : ByteArray) (val : Bool) : ByteArray :=
  { ba with endian := if val then .little else .big }

/-- Subtraction of `size_t` values. -/
def sizeSub (a b : Nat) : Nat := if b ≤ a then a - b else a + 2 ^ 64 - b

def getBaseSize (ba : ByteArray) : Nat := ba.baseSize

def getPosition (ba : ByteArray) : Nat := ba.position

def getSize (ba : ByteArray) : Nat := ba.size

def getReadSize (ba : ByteArray) : Nat := sizeSub ba.size ba.position

def getCapacity (ba : ByteArray) : Nat := sizeSub ba.capacity ba.position

/-- The pointer to node number `i` of the chain, null behind its end. -/
def link (nodes : List Node) (i : Nat) : Option Nat := if i < nodes.length then some i else none

def clear (ba : ByteArray) : ByteArray :=
  { ba with position := 0, size := 0, capacity := ba.baseSize, nodes := ba.nodes.take 1, cur := some 0 }

def addCapacity (ba : ByteArray) (size : Nat) : ByteArray :=
  if size = 0 then ba
  else
    let oldCap := ba.getCapacity
    if size ≤ oldCap then ba
    else
      let size := size - oldCap
      let count := size / ba.baseSize + if size % ba.baseSize > 0 then 1 else 0
      let first := if count = 0 then none else some ba.nodes.length
      { ba with
        nodes := ba.nodes ++ List.replicate count (Node.new ba.baseSize)
        capacity := ba.capacity + count * ba.baseSize
        cur := if oldCap = 0 then first else ba.cur }

/-- The loop of `write`, over the nodes from `m_cur` on: the nodes after the
copy, and by how many nodes `m_cur` has moved. -/
def writeLoop : List Node → Nat → List UInt8 → Except Fault (List Node × Nat)
  | [], _, _ => .error .nullDeref
  | nd :: next, npos, buf =>
    let ncap := nd.size - npos
    if buf.length ≤ ncap then do
      let nd' ← nd.store npos buf
      .ok (nd' :: next, if nd.size = npos + buf.length then 1 else 0)
    else do
      let nd' ← nd.store npos (buf.take ncap)
      let (next', k) ← writeLoop next 0 (buf.drop ncap)
      .ok (nd' :: next', k + 1)

def write (ba : ByteArray) (buf : List UInt8) : Except Fault ByteArray :=
  if buf.length = 0 then .ok ba
  else
    let ba := ba.addCapacity buf.length
    match ba.cur with
    | none => .error .nullDeref
    | some i => do
      let (nodes, k) ← writeLoop (ba.nodes.drop i) (ba.position % ba.baseSize) buf
      let position := ba.position + buf.length
      .ok { ba with
        nodes := ba.nodes.take i ++ nodes
        cur := link ba.nodes (i + k)
        position := position
        size := if position > ba.size then position else ba.size }

/-- The loop of both `read`s: the bytes copied, by how many nodes `m_cur` has
moved, and by how much `m_position` has grown. -/
def readLoop : List Node → Nat → Nat → Except Fault (List Cell × Nat × Nat)
  | [], _, _ => .error .nullDeref
  | nd :: next, npos, size =>
    let ncap := nd.size - npos
    if size = 0 then .ok ([], 0, 0)
    else if size ≤ ncap then do
      let bytes ← nd.load npos size
      .ok (bytes, if nd.size = npos + size then 1 else 0, ncap)
    else do
      let bytes ← nd.load npos ncap
      let (bytes', k, adv) ← readLoop next 0 (size - ncap)
      .ok (bytes ++ bytes', k + 1, ncap + adv)

def read (ba : ByteArray) (size : Nat) : Except Fault (List Cell × ByteArray) :=
  if size > ba.getReadSize then .error .outOfRange
  else
    match ba.cur with
    | none => .error .nullDeref
    | some i => do
      let (bytes, k, adv) ← readLoop (ba.nodes.drop i) (ba.position % ba.baseSize) size
      .ok (bytes, { ba with cur := link ba.nodes (i + k), position := ba.position + adv })

/-- `read(buf, size, position) const`: it starts in the block of `m_cur`. -/
def readAt (ba : ByteArray) (size position : Nat) : Except Fault (List Cell) :=
  if size > ba.getReadSize then .error .outOfRange
  else
    match ba.cur with
    | none => .error .nullDeref
    | some i => do
      let (bytes, _, _) ← readLoop (ba.nodes.drop i) (position % ba.baseSize) size
      .ok bytes

/-- The walk of `setPosition` from the first node of the list on. -/
def seekLoop : List Node → Nat → Except Fault Nat
  | [], _ => .error .nullDeref
  | nd :: next, v =>
    if v > nd.size then do
      let k ← seekLoop next (v - nd.size)
      .ok (k + 1)
    else .ok (if v = nd.size then 1 else 0)

def setPosition (ba : ByteArray) (v : Nat) : Except Fault ByteArray :=
  if v > ba.capacity then .error .outOfRange
  else do
    let k ← seekLoop ba.nodes v
    .ok { ba with
      position := v
      size := if v > ba.size then v else ba.size
      cur := link ba.nodes k }

def toString (ba : ByteArray) : Except Fault (List Cell) :=
  if ba.getReadSize = 0 then .ok [] else ba.readAt ba.getReadSize ba.position

/-- The loop of `getWriteBuffers`, from node number `i` on. -/
def writeBuffersLoop : List Node → Nat → Nat → Nat → Except Fault (List IoVec)
  | [], _, _, _ => .error .nullDeref
  | nd :: next, i, npos, len =>
    let ncap := nd.size - npos
    if len ≤ ncap then .ok [⟨i, npos, len⟩]
    else do
      let iovs ← writeBuffersLoop next (i + 1) 0 (len - ncap)
      .ok (⟨i, npos, ncap⟩ :: iovs)

def getWriteBuffers (ba : ByteArray) (len : Nat) : Except Fault (Nat × List IoVec × ByteArray) :=
  if len = 0 then .ok (0, [], ba)
  else
    let ba := ba.addCapacity len
    match ba.cur with
    | none => .error .nullDeref
    | some i => do
      let iovs ← writeBuffersLoop (ba.nodes.drop i) i (ba.position % ba.baseSize) len
      .ok (len, iovs, ba)

/-! ## The storage -/

/-- The cells of all blocks, in the order of the chain. -/
def store (ba : ByteArray) : List Cell := (ba.nodes.map Node.ptr).flatten

/-- The representation invariant: equal blocks, the capacity counts them, and
`m_cur` is the block the position lies in. -/
structure Inv (ba : ByteArray) : Prop where
  base_pos : 1 ≤ ba.baseSize
  blocks : ∀ nd ∈ ba.nodes, nd.size = ba.baseSize ∧ nd.ptr.length = ba.baseSize
  root : ba.nodes ≠ []
  capacity_eq : ba.capacity = ba.baseSize * ba.nodes.length
  position_le : ba.position ≤ ba.size
  size_le : ba.size ≤ ba.capacity
  cur_eq : ba.cur = if ba.position = ba.capacity then none else some (ba.position / ba.baseSize)

end ByteArray

end Linko
