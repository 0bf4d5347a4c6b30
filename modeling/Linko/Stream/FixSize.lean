import Linko.ByteArray.Model
import Linko.Lib.Transfer
/-!
# Transfers of a fixed size

`Stream` of `stream.cc`. The functions of a stream are a parameter: what they
return, which bytes they store or take, and what becomes of the `ByteArray`.
-/

namespace Linko

/-- The virtual functions. `read` gets the length, and gives the bytes it stores
at the begin of its buffer; `write` gets the bytes of its buffer. -/
structure Stream (σ : Type) where
  read : σ → UInt64 → Int32 × List UInt8 × σ
  readBa : σ → ByteArray → UInt64 → Int32 × ByteArray × σ
  write : σ → List UInt8 → Int32 × σ
  writeBa : σ → ByteArray → UInt64 → Int32 × ByteArray × σ

namespace Stream

open Transfer

abbrev Bytes := List UInt8

/-- What a transfer works on: the memory at `buffer`, the `ByteArray`, the stream. -/
structure Site (σ : Type) where
  buffer : Bytes
  ba : ByteArray
  stream : σ

variable {σ τ : Type} (s : Stream σ)

/-- `read((char*)buffer, left)` -/
def readInto (t : Site σ) (left : UInt64) : Int32 × Site σ :=
  let (len, bytes, stream) := s.read t.stream left
  (len, { t with buffer := Blocks.splice t.buffer 0 bytes, stream := stream })

/-- `read(ba, left)` -/
def readBaInto (t : Site σ) (left : UInt64) : Int32 × Site σ :=
  let (len, ba, stream) := s.readBa t.stream t.ba left
  (len, { t with ba := ba, stream := stream })

/-- `write((const char*)buffer, left)` -/
def writeFrom (t : Site σ) (left : UInt64) : Int32 × Site σ :=
  let (len, stream) := s.write t.stream (t.buffer.take left.toNat)
  (len, { t with stream := stream })

/-- The loop of the four functions. `offset`, which two of them count up and
none reads, is left out. -/
def fixSizeLoop (call : τ → UInt64 → Int32 × τ) (length : UInt64) : Nat → UInt64 → τ → Option (Int32 × τ)
  | 0, _, _ => none
  | fuel + 1, left, t =>
    if 0 < left then
      let (n, t) := call t left
      let len := sizeOfInt n
      if len < 0 then some (intOfSize len, t) else fixSizeLoop call length fuel (left - len) t
    else some (intOfSize length, t)

def fixSize (call : τ → UInt64 → Int32 × τ) (length : UInt64) (fuel : Nat) (t : τ) : Option (Int32 × τ) :=
  fixSizeLoop call length fuel length t

def readFixSize (length : UInt64) (fuel : Nat) (t : Site σ) : Option (Int32 × Site σ) :=
  fixSize (readInto s) length fuel t

/-- `readFixSize(ByteArray::ptr ba, size_t length)` -/
def readFixSizeBa (length : UInt64) (fuel : Nat) (t : Site σ) : Option (Int32 × Site σ) :=
  fixSize (readBaInto s) length fuel t

def writeFixSize (length : UInt64) (fuel : Nat) (t : Site σ) : Option (Int32 × Site σ) :=
  fixSize (writeFrom s) length fuel t

/-- `writeFixSize(ByteArray::ptr ba, size_t length)`, which calls `read` too. -/
def writeFixSizeBa (length : UInt64) (fuel : Nat) (t : Site σ) : Option (Int32 × Site σ) :=
  fixSize (readBaInto s) length fuel t

/-- A `size_t` is not negative, so no value of a call ends the loop. -/
theorem fixSize_eq (call : τ → UInt64 → Int32 × τ) (length : UInt64) (fuel : Nat) (t : τ) :
    fixSize call length fuel t = (loop call fuel length t).map fun t => (intOfSize length, t) := by
  have hloop : ∀ left t, fixSizeLoop call length fuel left t =
      (loop call fuel left t).map fun t => (intOfSize length, t) := by
    induction fuel with
    | zero => exact fun _ _ => rfl
    | succ fuel ih =>
      intro left t
      unfold fixSizeLoop loop
      have hneg : ¬ sizeOfInt (call t left).1 < 0 := UInt64.not_lt_zero
      split
      · simp only [hneg, if_false]
        exact ih _ _
      · rfl
  exact hloop length t

/-- A transfer in parts returns the length. -/
theorem fixSize_ends {call : τ → UInt64 → Int32 × τ} {length : UInt64} {t t' : τ} {ks : List Nat}
    (h : Calls call length t ks 0 t') {v : Int32} {r : τ} :
    (∃ fuel, fixSize call length fuel t = some (v, r)) ↔ v = intOfSize length ∧ r = t' := by
  rw [← h.ends_iff]
  simp only [fixSize_eq, Option.map_eq_some_iff, Prod.mk.injEq]
  constructor
  · rintro ⟨fuel, t, hloop, rfl, rfl⟩
    exact ⟨rfl, fuel, hloop⟩
  · rintro ⟨rfl, fuel, hloop⟩
    exact ⟨fuel, r, hloop, rfl, rfl⟩

end Stream

end Linko
