import Linko.Lib.Words
import Linko.ByteArray.Ops
/-!
# Fixed-width integers

`writeFint8` to `writeFuint64` and their readers. The macro `LINKO_BYTE_ORDER`
of `endian.h` is the parameter `host`, the byte order of the machine. A reader
returns `none` for a value made of bytes that were never stored.
-/

namespace Linko.ByteArray

open Blocks Words

/-! ## The functions -/

def Endian.order : Endian → Order
  | .little => .little
  | .big => .big

def byteswap {w : Nat} (value : BitVec (8 * w)) : BitVec (8 * w) := swap value

section

variable (host : Endian) (ba : ByteArray)

/-- The body of the `writeF*` functions of two bytes and more. -/
def writeFixed {w : Nat} (value : BitVec (8 * w)) : Except Fault ByteArray :=
  let value := if ba.endian ≠ host then byteswap value else value
  ba.write (bytesOf host.order value)

def writeFint8 (value : Int8) : Except Fault ByteArray := ba.write (bytesOf (w := 1) host.order value.toBitVec)
def writeFuint8 (value : UInt8) : Except Fault ByteArray :=
  ba.write (bytesOf (w := 1) host.order value.toBitVec)
def writeFint16 (value : Int16) : Except Fault ByteArray := writeFixed host ba (w := 2) value.toBitVec
def writeFuint16 (value : UInt16) : Except Fault ByteArray := writeFixed host ba (w := 2) value.toBitVec
def writeFint32 (value : Int32) : Except Fault ByteArray := writeFixed host ba (w := 4) value.toBitVec
def writeFuint32 (value : UInt32) : Except Fault ByteArray := writeFixed host ba (w := 4) value.toBitVec
def writeFint64 (value : Int64) : Except Fault ByteArray := writeFixed host ba (w := 8) value.toBitVec
def writeFuint64 (value : UInt64) : Except Fault ByteArray := writeFixed host ba (w := 8) value.toBitVec

/-- The bytes of `cells`, if all of them have been stored. -/
def determined (cells : List Cell) : Option (List UInt8) := cells.mapM id

/-- `type v; read(&v, sizeof(v));` -/
def readValue (w : Nat) : Except Fault (Option (BitVec (8 * w)) × ByteArray) := do
  let (cells, ba') ← ba.read w
  .ok ((determined cells).map (ofBytes host.order w), ba')

/-- The macro `XX`, the body of the `readF*` functions of two bytes and more. -/
def readFixed (w : Nat) : Except Fault (Option (BitVec (8 * w)) × ByteArray) := do
  let (v, ba') ← readValue host ba w
  .ok (if ba'.endian = host then v else v.map byteswap, ba')

def readFint8 : Except Fault (Option Int8 × ByteArray) := do
  let (v, ba') ← readValue host ba 1
  .ok (v.map Int8.ofBitVec, ba')

def readFuint8 : Except Fault (Option UInt8 × ByteArray) := do
  let (v, ba') ← readValue host ba 1
  .ok (v.map UInt8.ofBitVec, ba')

def readFint16 : Except Fault (Option Int16 × ByteArray) := do
  let (v, ba') ← readFixed host ba 2
  .ok (v.map Int16.ofBitVec, ba')

def readFuint16 : Except Fault (Option UInt16 × ByteArray) := do
  let (v, ba') ← readFixed host ba 2
  .ok (v.map UInt16.ofBitVec, ba')

def readFint32 : Except Fault (Option Int32 × ByteArray) := do
  let (v, ba') ← readFixed host ba 4
  .ok (v.map Int32.ofBitVec, ba')

def readFuint32 : Except Fault (Option UInt32 × ByteArray) := do
  let (v, ba') ← readFixed host ba 4
  .ok (v.map UInt32.ofBitVec, ba')

def readFint64 : Except Fault (Option Int64 × ByteArray) := do
  let (v, ba') ← readFixed host ba 8
  .ok (v.map Int64.ofBitVec, ba')

def readFuint64 : Except Fault (Option UInt64 × ByteArray) := do
  let (v, ba') ← readFixed host ba 8
  .ok (v.map UInt64.ofBitVec, ba')

end

/-- A value together with the pair of functions it goes through. -/
inductive Fixed where
  | int8 (v : Int8)
  | uint8 (v : UInt8)
  | int16 (v : Int16)
  | uint16 (v : UInt16)
  | int32 (v : Int32)
  | uint32 (v : UInt32)
  | int64 (v : Int64)
  | uint64 (v : UInt64)
  deriving DecidableEq

namespace Fixed

/-- `sizeof(value)` -/
def width : Fixed → Nat
  | int8 _ => 1
  | uint8 _ => 1
  | int16 _ => 2
  | uint16 _ => 2
  | int32 _ => 4
  | uint32 _ => 4
  | int64 _ => 8
  | uint64 _ => 8

def bits : (v : Fixed) → BitVec (8 * v.width)
  | int8 v => v.toBitVec
  | uint8 v => v.toBitVec
  | int16 v => v.toBitVec
  | uint16 v => v.toBitVec
  | int32 v => v.toBitVec
  | uint32 v => v.toBitVec
  | int64 v => v.toBitVec
  | uint64 v => v.toBitVec

def write (host : Endian) (ba : ByteArray) : Fixed → Except Fault ByteArray
  | int8 v => writeFint8 host ba v
  | uint8 v => writeFuint8 host ba v
  | int16 v => writeFint16 host ba v
  | uint16 v => writeFuint16 host ba v
  | int32 v => writeFint32 host ba v
  | uint32 v => writeFuint32 host ba v
  | int64 v => writeFint64 host ba v
  | uint64 v => writeFuint64 host ba v

/-- The reader that matches the write of a value. -/
def read (host : Endian) (ba : ByteArray) : Fixed → Except Fault (Option Fixed × ByteArray)
  | int8 _ => do let (v, ba') ← readFint8 host ba; .ok (v.map int8, ba')
  | uint8 _ => do let (v, ba') ← readFuint8 host ba; .ok (v.map uint8, ba')
  | int16 _ => do let (v, ba') ← readFint16 host ba; .ok (v.map int16, ba')
  | uint16 _ => do let (v, ba') ← readFuint16 host ba; .ok (v.map uint16, ba')
  | int32 _ => do let (v, ba') ← readFint32 host ba; .ok (v.map int32, ba')
  | uint32 _ => do let (v, ba') ← readFuint32 host ba; .ok (v.map uint32, ba')
  | int64 _ => do let (v, ba') ← readFint64 host ba; .ok (v.map int64, ba')
  | uint64 _ => do let (v, ba') ← readFuint64 host ba; .ok (v.map uint64, ba')

end Fixed

def writeAll (host : Endian) (ba : ByteArray) (vs : List Fixed) : Except Fault ByteArray :=
  vs.foldlM (fun ba v => v.write host ba) ba

/-- The matching reads return the values in order, each advances the position
by its width, and nothing is left at the end. -/
def ReadsBack (host : Endian) : List Fixed → ByteArray → Prop
  | [], ba => ba.getReadSize = 0
  | v :: vs, ba => ∃ ba', v.read host ba = .ok (some v, ba') ∧
      ba'.getPosition = ba.getPosition + v.width ∧ ReadsBack host vs ba'

/-- The law the tests check: write on a fresh `ByteArray`, go back to the
start, read. -/
def RoundTrips (host : Endian) (little : Bool) (B : Nat) (vs : List Fixed) : Prop :=
  ∃ ba ba₀, writeAll host ((new B).setIsLittleEndian little) vs = .ok ba ∧ ba.setPosition 0 = .ok ba₀ ∧
    ReadsBack host vs ba₀

/-! ## What is stored for a value -/

/-- The bytes of a value as they stand in the buffer. -/
def Fixed.stored (e : Endian) (v : Fixed) : List UInt8 := bytesOf e.order v.bits

@[simp] theorem Fixed.length_stored (e : Endian) (v : Fixed) : (v.stored e).length = v.width := by
  simp [Fixed.stored]

theorem Fixed.width_pos (v : Fixed) : 0 < v.width := by cases v <;> exact Nat.succ_pos _

theorem order_ne {e e' : Endian} (h : e ≠ e') : e.order ≠ e'.order := by
  cases e <;> cases e' <;> simp_all [Endian.order]

theorem swapped_bytes {w : Nat} (host e : Endian) (v : BitVec (8 * w)) :
    bytesOf host.order (if e ≠ host then byteswap v else v) = bytesOf e.order v := by
  by_cases h : e = host
  · rw [if_neg (by simpa using h), h]
  · rw [if_pos h]
    exact bytesOf_swap (order_ne h) v

/-- One byte looks the same in both orders. -/
theorem bytesOf_one (o o' : Order) (v : BitVec (8 * 1)) : bytesOf o v = bytesOf o' v := by
  cases o <;> cases o' <;> rfl

/-- Every `writeF*` function writes the value in the buffer's byte order. -/
theorem Fixed.write_eq (host : Endian) (ba : ByteArray) (v : Fixed) :
    v.write host ba = ba.write (v.stored ba.endian) := by
  cases v with
  | int8 v => exact congrArg ba.write (bytesOf_one _ _ _)
  | uint8 v => exact congrArg ba.write (bytesOf_one _ _ _)
  | int16 v => exact congrArg ba.write (swapped_bytes (w := 2) host ba.endian _)
  | uint16 v => exact congrArg ba.write (swapped_bytes (w := 2) host ba.endian _)
  | int32 v => exact congrArg ba.write (swapped_bytes (w := 4) host ba.endian _)
  | uint32 v => exact congrArg ba.write (swapped_bytes (w := 4) host ba.endian _)
  | int64 v => exact congrArg ba.write (swapped_bytes (w := 8) host ba.endian _)
  | uint64 v => exact congrArg ba.write (swapped_bytes (w := 8) host ba.endian _)

@[simp] theorem determined_some (bs : List UInt8) : determined (bs.map some) = some bs := by
  induction bs with
  | nil => rfl
  | cons b bs ih =>
    simp only [determined, List.map_cons, List.mapM_cons, id] at ih ⊢
    rw [ih]
    rfl

theorem readValue_stored (host : Endian) {ba ba' : ByteArray} {w : Nat} {e : Endian} {v : BitVec (8 * w)}
    (h : ba.read w = .ok ((bytesOf e.order v).map some, ba')) :
    readValue host ba w = .ok (some (ofBytes host.order w (bytesOf e.order v)), ba') := by
  simp only [readValue, h]
  show Except.ok ((determined _).map _, ba') = _
  rw [determined_some]
  rfl

theorem readFixed_stored (host : Endian) (w : Nat) {ba ba' : ByteArray} {v : BitVec (8 * w)}
    (h : ba.read w = .ok ((bytesOf ba'.endian.order v).map some, ba')) :
    readFixed host ba w = .ok (some v, ba') := by
  simp only [readFixed, readValue_stored host h]
  show Except.ok (_, ba') = _
  congr 2
  by_cases he : ba'.endian = host
  · rw [if_pos he, he, ofBytes_bytesOf]
  · rw [if_neg he, ← bytesOf_swap (order_ne he), ofBytes_bytesOf]
    exact congrArg some (swap_swap v)

theorem readValue_one (host : Endian) {ba ba' : ByteArray} {e : Endian} {v : BitVec (8 * 1)}
    (h : ba.read 1 = .ok ((bytesOf e.order v).map some, ba')) : readValue host ba 1 = .ok (some v, ba') := by
  rw [readValue_stored host h, bytesOf_one e.order host.order, ofBytes_bytesOf]

/-- The matching reader turns the stored bytes back into the value. -/
theorem Fixed.read_stored {host : Endian} {ba ba' : ByteArray} (v : Fixed)
    (h : ba.read v.width = .ok ((v.stored ba'.endian).map some, ba')) : v.read host ba = .ok (some v, ba') := by
  cases v with
  | int8 v => simp only [Fixed.read, readFint8, readValue_one host h]; rfl
  | uint8 v => simp only [Fixed.read, readFuint8, readValue_one host h]; rfl
  | int16 v => simp only [Fixed.read, readFint16, readFixed_stored host 2 h]; rfl
  | uint16 v => simp only [Fixed.read, readFuint16, readFixed_stored host 2 h]; rfl
  | int32 v => simp only [Fixed.read, readFint32, readFixed_stored host 4 h]; rfl
  | uint32 v => simp only [Fixed.read, readFuint32, readFixed_stored host 4 h]; rfl
  | int64 v => simp only [Fixed.read, readFint64, readFixed_stored host 8 h]; rfl
  | uint64 v => simp only [Fixed.read, readFuint64, readFixed_stored host 8 h]; rfl

/-! ## Writing a sequence -/

/-- The bytes of a sequence of values. -/
def storedAll (e : Endian) (vs : List Fixed) : List UInt8 := vs.flatMap (Fixed.stored e)

/-- The buffer holds exactly the bytes `bs`, the position at their end. -/
structure Holds (ba : ByteArray) (B : Nat) (e : Endian) (bs : List UInt8) : Prop where
  inv : ba.Inv
  base : ba.baseSize = B
  endian : ba.endian = e
  size : ba.size = bs.length
  position : ba.position = bs.length
  bytes : slice ba.store 0 bs.length = bs.map some

theorem holds_write {ba : ByteArray} {B : Nat} {e : Endian} {bs : List UInt8} (h : Holds ba B e bs)
    (buf : List UInt8) : ∃ ba', ba.write buf = .ok ba' ∧ Holds ba' B e (bs ++ buf) := by
  obtain ⟨ba', fresh, hw, hi, hb, he, hp, hs, -, hfit, hst⟩ := write_ok h.inv buf
  have hlen := h.inv.length_store
  have hsz := h.inv.size_le
  have hsize := h.size
  rw [h.position] at hp hfit hst hs
  refine ⟨ba', hw, hi, hb.trans h.base, he.trans h.endian, ?_, ?_, ?_⟩
  · rw [hs, List.length_append]
    omega
  · rw [hp, List.length_append]
  · -- the old bytes stand in front of the copy, the new ones are the copy
    have hm : bs.length + (buf.map some).length ≤ (ba.store ++ fresh).length := by rwa [List.length_map]
    have hnew := slice_splice hm
    rw [List.length_append, List.map_append, ← slice_slice_append, Nat.zero_add, hst,
      slice_splice_before hm (by omega), slice_append_left (by omega), h.bytes]
    rw [List.length_map] at hnew
    rw [hnew]

theorem holds_writeAll (host : Endian) {ba : ByteArray} {B : Nat} {e : Endian} {bs : List UInt8}
    (h : Holds ba B e bs) (vs : List Fixed) :
    ∃ ba', writeAll host ba vs = .ok ba' ∧ Holds ba' B e (bs ++ storedAll e vs) := by
  induction vs generalizing ba bs with
  | nil => exact ⟨ba, rfl, by simpa [storedAll] using h⟩
  | cons v vs ih =>
    obtain ⟨ba₁, hw, h₁⟩ := holds_write h (v.stored e)
    obtain ⟨ba', hrun, h'⟩ := ih h₁
    refine ⟨ba', ?_, by simpa [storedAll, List.append_assoc] using h'⟩
    rw [writeAll, List.foldlM_cons, Fixed.write_eq, h.endian, hw]
    exact hrun

theorem holds_new {B : Nat} (hB : 1 ≤ B) (little : Bool) :
    Holds ((new B).setIsLittleEndian little) B (if little then .little else .big) [] where
  inv := by
    refine ⟨hB, ?_, by simp [new, setIsLittleEndian], by simp [new, setIsLittleEndian], Nat.le_refl 0,
      Nat.zero_le _, ?_⟩
    · simp [new, setIsLittleEndian, Node.new]
    · show some 0 = if 0 = B then none else some (0 / B)
      rw [if_neg (by omega), Nat.zero_div]
  base := rfl
  endian := rfl
  size := rfl
  position := rfl
  bytes := by simp

/-! ## Reading it back -/

theorem dvd_iff_roundUp {B n : Nat} (hB : 1 ≤ B) : B ∣ n ↔ roundUp B n = n := by
  constructor
  · rintro ⟨k, rfl⟩
    exact roundUp_mul hB k
  · intro h
    exact ⟨_, (h.symm.trans (Nat.mul_comm _ _))⟩

/-- The unread part of the buffer is the bytes `bs`, from a block start on. -/
structure Unread (ba : ByteArray) (B : Nat) (e : Endian) (bs : List UInt8) : Prop where
  inv : ba.Inv
  base : ba.baseSize = B
  endian : ba.endian = e
  aligned : B ∣ ba.position
  size : ba.size = ba.position + bs.length
  bytes : slice ba.store ba.position bs.length = bs.map some

/-- From a block start a read moves to the next block end. -/
theorem Unread.read {ba : ByteArray} {B : Nat} {e : Endian} (bs rest : List UInt8)
    (h : Unread ba B e (bs ++ rest)) (hbs : 0 < bs.length) :
    ∃ ba', ba.read bs.length = .ok (bs.map some, ba') ∧ ba'.endian = e ∧
      ba'.position = ba.position + roundUp B bs.length ∧ (B ∣ bs.length → Unread ba' B e rest) := by
  have hB : 1 ≤ B := h.base ▸ h.inv.base_pos
  have hsize := h.size
  have hle := h.inv.size_le
  rw [List.length_append] at hsize
  have hmod : ba.position % ba.baseSize = 0 := by rw [h.base]; exact Nat.mod_eq_zero_of_dvd h.aligned
  have hadv : advance ba.baseSize (ba.position % ba.baseSize) bs.length = roundUp B bs.length := by
    rw [hmod, advance, if_neg (by omega), Nat.zero_add, Nat.sub_zero, h.base]
  have hsplit := slice_slice_append ba.store ba.position bs.length rest.length
  rw [← List.length_append, h.bytes, List.map_append] at hsplit
  have hl : (slice ba.store ba.position bs.length).length = (bs.map some).length := by
    rw [length_slice (by rw [h.inv.length_store]; omega), List.length_map]
  obtain ⟨hfst, hsnd⟩ := List.append_inj hsplit hl
  have hread := read_ok h.inv hbs (by omega)
  rw [hfst, hadv] at hread
  refine ⟨{ ba with
    cur := link ba.nodes ((ba.position + bs.length) / ba.baseSize)
    position := ba.position + roundUp B bs.length }, hread, h.endian, rfl, fun hd => ?_⟩
  have hround := (dvd_iff_roundUp hB).1 hd
  refine ⟨?_, h.base, h.endian, ?_, ?_, ?_⟩
  · have := h.inv.link_eq (v := ba.position + bs.length) (by omega)
    rw [hround]
    exact ⟨h.inv.base_pos, h.inv.blocks, h.inv.root, h.inv.capacity_eq, by simp only; omega, hle, this⟩
  · simp only [hround]
    exact Nat.dvd_add h.aligned hd
  · simp only [hround]
    omega
  · simp only [hround]
    exact hsnd

/-- Reading goes on value by value exactly as long as every width is a
multiple of the block size. -/
theorem readsBack_iff (host : Endian) {B : Nat} {e : Endian} (vs : List Fixed) {ba : ByteArray}
    (h : Unread ba B e (storedAll e vs)) : ReadsBack host vs ba ↔ ∀ v ∈ vs, B ∣ v.width := by
  have hB : 1 ≤ B := h.base ▸ h.inv.base_pos
  induction vs generalizing ba with
  | nil =>
    have hsize := h.size
    simp only [storedAll, List.flatMap_nil, List.length_nil] at hsize
    simp only [ReadsBack, getReadSize_eq h.inv, List.not_mem_nil, false_imp_iff, implies_true, iff_true]
    omega
  | cons v vs ih =>
    have hlen := v.length_stored e
    obtain ⟨ba₁, hread, he, hpos, hnext⟩ :=
      h.read (v.stored e) (storedAll e vs) (by rw [hlen]; exact v.width_pos)
    rw [hlen] at hread hpos hnext
    have hval : v.read host ba = .ok (some v, ba₁) := v.read_stored (he ▸ hread)
    rw [List.forall_mem_cons]
    constructor
    · rintro ⟨ba', hrd, hp, hrest⟩
      rw [hval, Except.ok.injEq, Prod.mk.injEq] at hrd
      obtain ⟨-, rfl⟩ := hrd
      have hd : B ∣ v.width := by
        rw [dvd_iff_roundUp hB]
        simp only [getPosition] at hp
        omega
      exact ⟨hd, (ih (hnext hd)).1 hrest⟩
    · rintro ⟨hd, hall⟩
      refine ⟨ba₁, hval, ?_, (ih (hnext hd)).2 hall⟩
      rw [getPosition, getPosition, hpos, (dvd_iff_roundUp hB).1 hd]

/-- The fixed-width round trip holds exactly when the block size divides the
width of every value: a read leaves the position at the end of a block. -/
theorem roundTrips_iff_dvd_width (host : Endian) (little : Bool) (B : Nat) (hB : 1 ≤ B) (vs : List Fixed) :
    RoundTrips host little B vs ↔ ∀ v ∈ vs, B ∣ v.width := by
  obtain ⟨ba, hw, h⟩ := holds_writeAll host (holds_new hB little) vs
  rw [List.nil_append] at h
  obtain ⟨ba₀, hset, hi, hb, he, hp, hs, -, hst⟩ := setPosition_ok h.inv (Nat.zero_le _)
  have hunread :
      Unread ba₀ B (if little then .little else .big) (storedAll (if little then .little else .big) vs) := by
    refine ⟨hi, hb.trans h.base, he.trans h.endian, by rw [hp]; exact Nat.dvd_zero B, ?_, ?_⟩
    · rw [hs, hp, h.size]
      omega
    · rw [hst, hp]
      exact h.bytes
  rw [← readsBack_iff host vs hunread]
  constructor
  · rintro ⟨ba', ba₀', hw', hset', hback⟩
    rw [hw, Except.ok.injEq] at hw'
    subst hw'
    rw [hset, Except.ok.injEq] at hset'
    exact hset' ▸ hback
  · exact fun hback => ⟨ba, ba₀, hw, hset, hback⟩

/-- Two values of two bytes in blocks of two. -/
theorem roundTrips_two_bytes : RoundTrips .little false 2 [.uint16 258, .int16 (-2)] :=
  (roundTrips_iff_dvd_width .little false 2 (by decide) _).2 (by decide)

/-- Two single bytes in blocks of four: the first read moves to position 4. -/
theorem roundTrips_fails_inside_block : ¬ RoundTrips .little false 4 [.uint8 7, .uint8 9] := by
  rintro ⟨ba, ba₀, hw, hset, hback⟩
  have hw₁ : writeAll .little ((new 4).setIsLittleEndian false) [.uint8 7, .uint8 9] =
      .ok ⟨4, 2, 4, 2, .big, [⟨[some 7, some 9, none, none], 4⟩], some 0⟩ := by rfl
  rw [hw₁, Except.ok.injEq] at hw
  subst hw
  rw [show setPosition ⟨4, 2, 4, 2, .big, [⟨[some 7, some 9, none, none], 4⟩], some 0⟩ 0 =
    .ok ⟨4, 0, 4, 2, .big, [⟨[some 7, some 9, none, none], 4⟩], some 0⟩ by rfl, Except.ok.injEq] at hset
  subst hset
  obtain ⟨ba', hread, hpos, -⟩ := hback
  rw [show Fixed.read .little ⟨4, 0, 4, 2, .big, [⟨[some 7, some 9, none, none], 4⟩], some 0⟩ (.uint8 7) =
    .ok (some (.uint8 7), ⟨4, 4, 4, 2, .big, [⟨[some 7, some 9, none, none], 4⟩], some 0⟩) by rfl,
    Except.ok.injEq, Prod.mk.injEq] at hread
  rw [← hread.2] at hpos
  exact absurd hpos (by decide)

end Linko.ByteArray
