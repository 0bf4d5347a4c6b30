import Linko.Lib.Base128
import Linko.Lib.SignFold
import Linko.ByteArray.Fixed
/-!
# Variable-length integers

`writeUint32`, `writeUint64` and their readers, which keep seven bits in a
byte, and the signed versions, which fold the sign into the lowest bit first.
The 64-bit fold shifts by 31: it keeps only the values of 32 bits.
-/

namespace Linko.ByteArray

open Base128

/-! ## The functions -/

section

variable {w : Nat}

/-- The loop of `writeUint32` and `writeUint64`, with `room` bytes left in
`tmp`. A store behind its end is a `heapOverflow`. -/
def encodeLoop : Nat → BitVec w → Except Fault (List UInt8)
  | 0, _ => .error .heapOverflow
  | room + 1, value =>
    if value ≥ 0x80 then do
      let tmp ← encodeLoop room (value >>> 7)
      .ok (.ofBitVec (((value &&& 0x7F) ||| 0x80).setWidth 8) :: tmp)
    else .ok [.ofBitVec (value.setWidth 8)]

/-- The values of `i` in `for (int i = 0; i < w; i += 7)`. -/
def shifts (w : Nat) : List Nat := List.range' 0 ((w + 6) / 7) 7

/-- The loop of `readUint32` and `readUint64` over a source of bytes. A byte
that was never stored decides nothing: the value is `none` there. -/
def decodeLoop {σ : Type} (next : σ → Except Fault (Option UInt8 × σ)) :
    List Nat → BitVec w → σ → Except Fault (Option (BitVec w) × σ)
  | [], result, s => .ok (some result, s)
  | i :: is, result, s => do
    let (b, s) ← next s
    match b with
    | none => .ok (none, s)
    | some b =>
      if b < 0x80 then .ok (some (result ||| (b.toBitVec.setWidth w <<< i)), s)
      else decodeLoop next is (result ||| ((b &&& 0x7F).toBitVec.setWidth w <<< i)) s

end

def EncodeZigzag32 (v : Int32) : UInt32 := .ofBitVec ((v.toBitVec <<< 1) ^^^ v.toBitVec.sshiftRight 31)

def EncodeZigzag64 (v : Int64) : UInt64 := .ofBitVec ((v.toBitVec <<< 1) ^^^ v.toBitVec.sshiftRight 31)

def DecodeZigzag32 (v : UInt32) : Int32 := .ofBitVec ((v.toBitVec >>> 1) ^^^ -(v.toBitVec &&& 1))

def DecodeZigzag64 (v : UInt64) : Int64 := .ofBitVec ((v.toBitVec >>> 1) ^^^ -(v.toBitVec &&& 1))

/-- What `writeUint32` leaves in `tmp`. -/
def encodeUint32 (value : UInt32) : Except Fault (List UInt8) := encodeLoop 5 value.toBitVec

def encodeUint64 (value : UInt64) : Except Fault (List UInt8) := encodeLoop 10 value.toBitVec

section

variable {σ : Type} (next : σ → Except Fault (Option UInt8 × σ)) (s : σ)

def decodeUint32 : Except Fault (Option UInt32 × σ) := do
  let (v, s) ← decodeLoop next (shifts 32) 0 s
  .ok (v.map UInt32.ofBitVec, s)

def decodeUint64 : Except Fault (Option UInt64 × σ) := do
  let (v, s) ← decodeLoop next (shifts 64) 0 s
  .ok (v.map UInt64.ofBitVec, s)

def decodeInt32 : Except Fault (Option Int32 × σ) := do
  let (v, s) ← decodeUint32 next s
  .ok (v.map DecodeZigzag32, s)

def decodeInt64 : Except Fault (Option Int64 × σ) := do
  let (v, s) ← decodeUint64 next s
  .ok (v.map DecodeZigzag64, s)

end

section

variable (host : Endian) (ba : ByteArray)

def writeUint32 (value : UInt32) : Except Fault ByteArray := do
  let tmp ← encodeUint32 value
  ba.write tmp

def writeUint64 (value : UInt64) : Except Fault ByteArray := do
  let tmp ← encodeUint64 value
  ba.write tmp

def writeInt32 (value : Int32) : Except Fault ByteArray := writeUint32 ba (EncodeZigzag32 value)

def writeInt64 (value : Int64) : Except Fault ByteArray := writeUint64 ba (EncodeZigzag64 value)

def readUint32 : Except Fault (Option UInt32 × ByteArray) := decodeUint32 (readFuint8 host) ba

def readUint64 : Except Fault (Option UInt64 × ByteArray) := decodeUint64 (readFuint8 host) ba

def readInt32 : Except Fault (Option Int32 × ByteArray) := decodeInt32 (readFuint8 host) ba

def readInt64 : Except Fault (Option Int64 × ByteArray) := decodeInt64 (readFuint8 host) ba

end

/-- A stream of bytes as a source for the readers. -/
def nextByte : List UInt8 → Except Fault (Option UInt8 × List UInt8)
  | [] => .error .outOfRange
  | b :: bs => .ok (some b, bs)

/-! ## The encoder -/

section

variable {w : Nat}

theorem toNat_shift7 (value : BitVec w) : (value >>> 7).toNat = value.toNat / 128 := by
  rw [BitVec.toNat_ushiftRight, Nat.shiftRight_eq_div_pow]

/-- The constants of the loops fit into the word. -/
theorem toNat_const (hw : 8 ≤ w) {n : Nat} (hn : n < 256) : (BitVec.ofNat w n).toNat = n := by
  have hp : 2 ^ 8 ≤ 2 ^ w := Nat.pow_le_pow_right (by decide) hw
  rw [BitVec.toNat_ofNat]
  exact Nat.mod_eq_of_lt (by omega)

theorem le_iff_high (hw : 8 ≤ w) (value : BitVec w) : value ≥ 0x80 ↔ 128 ≤ value.toNat := by
  have h8 : (0x80 : BitVec w).toNat = 128 := toNat_const hw (by decide)
  rw [ge_iff_le, BitVec.le_def, h8]

/-- The low seven bits with the high bit set. -/
theorem group_byte (hw : 8 ≤ w) (value : BitVec w) :
    UInt8.ofBitVec (((value &&& 0x7F) ||| 0x80).setWidth 8) = UInt8.ofNat (value.toNat % 128 + 128) := by
  have h7 : (0x7F : BitVec w).toNat = 2 ^ 7 - 1 := toNat_const hw (by decide)
  have h8 : (0x80 : BitVec w).toNat = 2 ^ 7 * 1 := toNat_const hw (by decide)
  have hor : ((value &&& 0x7F) ||| 0x80).toNat = value.toNat % 128 + 128 := by
    rw [BitVec.toNat_or, BitVec.toNat_and, h7, h8, Nat.and_two_pow_sub_one_eq_mod, Nat.or_comm,
      ← Nat.two_pow_add_eq_or_of_lt (Nat.mod_lt _ (by decide)), Nat.add_comm]
  apply UInt8.toNat_inj.1
  rw [UInt8.toNat_ofBitVec, BitVec.toNat_setWidth, hor, UInt8.toNat_ofNat']

/-- The loop writes the code word of the value, within `tmp` as long as the
groups of the value fit in. -/
theorem encodeLoop_eq (hw : 8 ≤ w) (room : Nat) (value : BitVec w) (h : value.toNat < 128 ^ (room + 1)) :
    encodeLoop (room + 1) value = .ok (encode value.toNat) := by
  induction room generalizing value with
  | zero =>
    have hlt : value.toNat < 128 := by simpa using h
    rw [encodeLoop, if_neg (by rw [le_iff_high hw]; omega), encode_lt hlt]
    congr 2
    apply UInt8.toNat_inj.1
    rw [UInt8.toNat_ofBitVec, BitVec.toNat_setWidth, UInt8.toNat_ofNat']
  | succ room ih =>
    rw [encodeLoop]
    by_cases hge : 128 ≤ value.toNat
    · have hd : value.toNat / 128 < 128 ^ (room + 1) :=
        Nat.div_lt_of_lt_mul (by rw [Nat.pow_succ] at h; omega)
      rw [if_pos ((le_iff_high hw value).2 hge), ih _ (by rwa [toNat_shift7]), encode_ge hge, toNat_shift7,
        group_byte hw]
      rfl
    · rw [if_neg (by rwa [le_iff_high hw]), encode_lt (Nat.lt_of_not_le hge)]
      congr 2
      apply UInt8.toNat_inj.1
      rw [UInt8.toNat_ofBitVec, BitVec.toNat_setWidth, UInt8.toNat_ofNat']

/-! ## The decoder -/

/-- The source hands out these values one after the other. -/
def Feeds {α σ : Type} (next : σ → Except Fault (Option α × σ)) : List α → σ → σ → Prop
  | [], s, s' => s = s'
  | v :: vs, s, s' => ∃ s₁, next s = .ok (some v, s₁) ∧ Feeds next vs s₁ s'

/-- A group lands above the bits collected so far. -/
theorem or_group {i r : Nat} (h : r < 2 ^ i) (b : UInt8) (x : BitVec 8) (hx : x.toNat = b.toNat % 128) :
    BitVec.ofNat w r ||| (x.setWidth w <<< i) = BitVec.ofNat w (r + 2 ^ i * (b.toNat % 128)) := by
  apply BitVec.eq_of_toNat_eq
  rw [BitVec.toNat_or, BitVec.toNat_shiftLeft, BitVec.toNat_setWidth, BitVec.toNat_ofNat,
    BitVec.toNat_ofNat, hx, Nat.shiftLeft_eq, Nat.mod_mul_mod, ← Nat.or_mod_two_pow, Nat.mul_comm, Nat.add_comm,
    Nat.two_pow_add_eq_or_of_lt h, Nat.or_comm]

/-- Whatever the source, the loop takes the bytes that `Taken` says and returns
their value. -/
theorem decodeLoop_taken {σ : Type} {next : σ → Except Fault (Option UInt8 × σ)} {k : Nat} {bs : List UInt8}
    (ht : Taken k bs) (i r : Nat) (hr : r < 2 ^ i) {s s' : σ} (hf : Feeds next bs s s') :
    decodeLoop next (List.range' i k 7) (BitVec.ofNat w r) s =
      .ok (some (BitVec.ofNat w (r + 2 ^ i * value bs)), s') := by
  induction k generalizing bs i r s with
  | zero =>
    obtain rfl : bs = [] := ht
    obtain rfl : s = s' := hf
    rfl
  | succ k ih =>
    cases bs with
    | nil => exact ht.elim
    | cons b bs =>
      obtain ⟨s₁, hnext, hrest⟩ := hf
      have hb := b.toNat_lt
      rw [Taken] at ht
      rw [List.range'_succ, decodeLoop, hnext]
      by_cases hlt : b < 0x80
      · -- the last byte
        obtain rfl : bs = [] := by simpa only [if_pos (show b < 128 from hlt)] using ht
        obtain rfl : s₁ = s' := hrest
        have hn : b.toNat < 128 := UInt8.lt_iff_toNat_lt.1 hlt
        have hx : b.toBitVec.toNat = b.toNat % 128 := (Nat.mod_eq_of_lt hn).symm
        show (if b < 0x80 then _ else _) = _
        rw [if_pos hlt, or_group hr b _ hx, value, value, Nat.mul_zero, Nat.add_zero]
      · have hx : (b &&& 0x7F).toBitVec.toNat = b.toNat % 128 := by
          show (b &&& 0x7F).toNat = _
          rw [UInt8.toNat_and]
          exact Nat.and_two_pow_sub_one_eq_mod _ 7
        have hr' : r + 2 ^ i * (b.toNat % 128) < 2 ^ (i + 7) := by
          have := Nat.mul_le_mul_left (2 ^ i) (show b.toNat % 128 + 1 ≤ 2 ^ 7 by omega)
          rw [Nat.mul_succ] at this
          rw [Nat.pow_add]
          omega
        show (if b < 0x80 then _ else _) = _
        rw [if_neg hlt, or_group hr b _ hx,
          ih (by simpa only [if_neg (show ¬ b < 128 from hlt)] using ht) _ _ hr' hrest, value,
          Nat.pow_add, Nat.mul_add, Nat.mul_assoc, Nat.add_assoc]

/-- A loop that returns a value has taken its bytes that way. -/
theorem taken_of_decodeLoop {σ : Type} {next : σ → Except Fault (Option UInt8 × σ)} {k : Nat} (i : Nat)
    (result v : BitVec w) {s s' : σ} (h : decodeLoop next (List.range' i k 7) result s = .ok (some v, s')) :
    ∃ bs, Taken k bs ∧ Feeds next bs s s' := by
  induction k generalizing i result s with
  | zero =>
    rw [List.range'_zero, decodeLoop, Except.ok.injEq, Prod.mk.injEq] at h
    exact ⟨[], rfl, h.2⟩
  | succ k ih =>
    rw [List.range'_succ, decodeLoop] at h
    cases hnext : next s with
    | error e =>
      rw [hnext] at h
      cases h
    | ok r =>
      obtain ⟨b, s₁⟩ := r
      rw [hnext] at h
      cases b with
      | none => cases h
      | some b =>
        change (if b < 0x80 then Except.ok (some _, s₁) else _) = _ at h
        by_cases hlt : b < 0x80
        · rw [if_pos hlt, Except.ok.injEq, Prod.mk.injEq] at h
          exact ⟨[b], by rw [Taken, if_pos hlt], s₁, hnext, h.2⟩
        · rw [if_neg hlt] at h
          obtain ⟨bs, ht, hf⟩ := ih (i + 7) _ h
          exact ⟨b :: bs, by rw [Taken, if_neg hlt]; exact ht, s₁, hnext, hf⟩

theorem feeds_nextByte (bs rest : List UInt8) : Feeds nextByte bs (bs ++ rest) rest := by
  induction bs with
  | nil => rfl
  | cons b bs ih => exact ⟨bs ++ rest, rfl, ih⟩

end

theorem encodeUint32_eq (v : UInt32) : encodeUint32 v = .ok (encode v.toNat) :=
  encodeLoop_eq (by decide) 4 v.toBitVec (v.toNat_lt.trans_le (by decide))

theorem encodeUint64_eq (v : UInt64) : encodeUint64 v = .ok (encode v.toNat) :=
  encodeLoop_eq (by decide) 9 v.toBitVec (v.toNat_lt.trans_le (by decide))

theorem length_encode32 (v : UInt32) : (encode v.toNat).length ≤ 5 :=
  length_encode_le (v.toNat_lt.trans_le (by decide))

theorem length_encode64 (v : UInt64) : (encode v.toNat).length ≤ 10 :=
  length_encode_le (v.toNat_lt.trans_le (by decide))

/-- The readers take what `Taken` says, modulo the width. -/
theorem decodeUint32_taken {σ : Type} {next : σ → Except Fault (Option UInt8 × σ)} {bs : List UInt8}
    (ht : Taken 5 bs) {s s' : σ} (hf : Feeds next bs s s') :
    decodeUint32 next s = .ok (some (UInt32.ofNat (value bs)), s') := by
  have h := decodeLoop_taken (w := 32) ht 0 0 (by decide) hf
  rw [Nat.zero_add, Nat.pow_zero, Nat.one_mul] at h
  unfold decodeUint32
  rw [show decodeLoop next (shifts 32) 0 s = _ from h]
  rfl

theorem decodeUint64_taken {σ : Type} {next : σ → Except Fault (Option UInt8 × σ)} {bs : List UInt8}
    (ht : Taken 10 bs) {s s' : σ} (hf : Feeds next bs s s') :
    decodeUint64 next s = .ok (some (UInt64.ofNat (value bs)), s') := by
  have h := decodeLoop_taken (w := 64) ht 0 0 (by decide) hf
  rw [Nat.zero_add, Nat.pow_zero, Nat.one_mul] at h
  unfold decodeUint64
  rw [show decodeLoop next (shifts 64) 0 s = _ from h]
  rfl

/-- A value comes out of a value. -/
theorem decoded_bind {α β σ : Type} {x : Except Fault (Option α × σ)} {f : α → β} {v : β} {s' : σ}
    (h : (do let (a, s) ← x; .ok (a.map f, s) : Except Fault (Option β × σ)) = .ok (some v, s')) :
    ∃ a, x = .ok (some a, s') ∧ v = f a := by
  rcases x with e | ⟨_ | a, s⟩
  · cases h
  · cases h
  · obtain ⟨hv, rfl⟩ := Prod.mk.inj (Except.ok.inj h)
    exact ⟨a, rfl, (Option.some.inj hv).symm⟩

/-- When the readers return a value, and which. -/
theorem decodeUint32_iff {σ : Type} {next : σ → Except Fault (Option UInt8 × σ)} {v : UInt32} {s s' : σ} :
    decodeUint32 next s = .ok (some v, s') ↔
      ∃ bs, Taken 5 bs ∧ Feeds next bs s s' ∧ v = UInt32.ofNat (value bs) := by
  constructor
  · intro h
    obtain ⟨r, hrun, -⟩ := decoded_bind h
    obtain ⟨bs, ht, hf⟩ := taken_of_decodeLoop (k := 5) 0 0 r hrun
    have hv := (decodeUint32_taken ht hf).symm.trans h
    rw [Except.ok.injEq, Prod.mk.injEq, Option.some.injEq] at hv
    exact ⟨bs, ht, hf, hv.1.symm⟩
  · rintro ⟨bs, ht, hf, rfl⟩
    exact decodeUint32_taken ht hf

theorem decodeUint64_iff {σ : Type} {next : σ → Except Fault (Option UInt8 × σ)} {v : UInt64} {s s' : σ} :
    decodeUint64 next s = .ok (some v, s') ↔
      ∃ bs, Taken 10 bs ∧ Feeds next bs s s' ∧ v = UInt64.ofNat (value bs) := by
  constructor
  · intro h
    obtain ⟨r, hrun, -⟩ := decoded_bind h
    obtain ⟨bs, ht, hf⟩ := taken_of_decodeLoop (k := 10) 0 0 r hrun
    have hv := (decodeUint64_taken ht hf).symm.trans h
    rw [Except.ok.injEq, Prod.mk.injEq, Option.some.injEq] at hv
    exact ⟨bs, ht, hf, hv.1.symm⟩
  · rintro ⟨bs, ht, hf, rfl⟩
    exact decodeUint64_taken ht hf

theorem decodeUint32_encode (v : UInt32) (rest : List UInt8) :
    decodeUint32 nextByte (encode v.toNat ++ rest) = .ok (some v, rest) := by
  rw [decodeUint32_taken ((isWord_encode _).taken (length_encode32 v)) (feeds_nextByte _ rest), value_encode,
    UInt32.ofNat_toNat]

theorem decodeUint64_encode (v : UInt64) (rest : List UInt8) :
    decodeUint64 nextByte (encode v.toNat ++ rest) = .ok (some v, rest) := by
  rw [decodeUint64_taken ((isWord_encode _).taken (length_encode64 v)) (feeds_nextByte _ rest), value_encode,
    UInt64.ofNat_toNat]

/-! ## The codec -/

/-- A writer's loop and the reader that undoes it: at most `room` bytes, the
continuation bit on all but the last, the value back and nothing behind it
consumed, whatever follows. -/
structure Codec {α : Type} (room : Nat) (write : α → Except Fault (List UInt8))
    (read : List UInt8 → Except Fault (Option α × List UInt8)) : Prop where
  stored : ∀ v, ∃ tmp, write v = .ok tmp ∧ tmp.length ≤ room ∧
    (∀ i (h : i < tmp.length), 0x80 ≤ tmp[i] ↔ i + 1 < tmp.length) ∧
    ∀ rest, read (tmp ++ rest) = .ok (some v, rest)
  prefix_free : ∀ v v' tmp tmp', write v = .ok tmp → write v' = .ok tmp' → tmp <+: tmp' → v = v' ∧ tmp = tmp'
  sequences : ∀ vs, ∃ tmps, vs.mapM write = .ok tmps ∧ ∀ rest, Feeds read vs (tmps.flatten ++ rest) rest

/-- A writer of code words and a reader of one word make a codec. -/
theorem codec_of_words {α : Type} {room : Nat} {write : α → Except Fault (List UInt8)}
    {read : List UInt8 → Except Fault (Option α × List UInt8)} (code : α → Nat)
    (hinj : Function.Injective code) (hw : ∀ v, write v = .ok (encode (code v)))
    (hlen : ∀ v, (encode (code v)).length ≤ room)
    (hr : ∀ v rest, read (encode (code v) ++ rest) = .ok (some v, rest)) : Codec room write read where
  stored v := ⟨_, hw v, hlen v, (isWord_encode _).getElem, hr v⟩
  prefix_free v v' tmp tmp' h h' hp := by
    obtain rfl := Except.ok.inj ((hw v).symm.trans h)
    obtain rfl := Except.ok.inj ((hw v').symm.trans h')
    obtain rfl := hinj (encode_eq_of_start hp)
    exact ⟨rfl, rfl⟩
  sequences vs := by
    induction vs with
    | nil => exact ⟨[], rfl, fun rest => rfl⟩
    | cons v vs ih =>
      obtain ⟨tmps, hm, hf⟩ := ih
      refine ⟨encode (code v) :: tmps, ?_, fun rest => ⟨tmps.flatten ++ rest, ?_, hf rest⟩⟩
      · rw [List.mapM_cons, hw, hm]
        rfl
      · rw [List.flatten_cons, List.append_assoc, hr]

/-- Both widths of the variable-length codec. -/
theorem varint_codec :
    Codec 5 encodeUint32 (decodeUint32 nextByte) ∧ Codec 10 encodeUint64 (decodeUint64 nextByte) :=
  ⟨codec_of_words UInt32.toNat (fun _ _ => UInt32.toNat_inj.1) encodeUint32_eq length_encode32
      decodeUint32_encode,
    codec_of_words UInt64.toNat (fun _ _ => UInt64.toNat_inj.1) encodeUint64_eq length_encode64
      decodeUint64_encode⟩

example : encodeUint32 300 = .ok [0xAC, 0x02] := by rfl

/-! ## Signed values -/

/-- The decoder undoes the encoder, on the code itself and on a stream that
holds its bytes, and the code is odd exactly for the negative values. -/
structure Lossless32 (v : Int32) : Prop where
  decoded : DecodeZigzag32 (EncodeZigzag32 v) = v
  parity : (EncodeZigzag32 v).toNat % 2 = 1 ↔ v < 0
  stream : ∃ tmp, encodeUint32 (EncodeZigzag32 v) = .ok tmp ∧
    ∀ rest, decodeInt32 nextByte (tmp ++ rest) = .ok (some v, rest)

structure Lossless64 (v : Int64) : Prop where
  decoded : DecodeZigzag64 (EncodeZigzag64 v) = v
  parity : (EncodeZigzag64 v).toNat % 2 = 1 ↔ v < 0
  stream : ∃ tmp, encodeUint64 (EncodeZigzag64 v) = .ok tmp ∧
    ∀ rest, decodeInt64 nextByte (tmp ++ rest) = .ok (some v, rest)

theorem decodeZigzag32_iff (v : Int32) : DecodeZigzag32 (EncodeZigzag32 v) = v ↔
    -2 ^ 31 ≤ v.toBitVec.toInt ∧ v.toBitVec.toInt < 2 ^ 31 := by
  rw [← SignFold.unfold_fold_iff (by decide : 31 < 32), ← Int32.toBitVec_inj]
  rfl

theorem decodeZigzag64_iff (v : Int64) : DecodeZigzag64 (EncodeZigzag64 v) = v ↔
    -2 ^ 31 ≤ v.toBitVec.toInt ∧ v.toBitVec.toInt < 2 ^ 31 := by
  rw [← SignFold.unfold_fold_iff (by decide : 31 < 64), ← Int64.toBitVec_inj]
  rfl

theorem parity_of_range {w : Nat} (hk : 31 < w) {v : BitVec w} (h : -2 ^ 31 ≤ v.toInt ∧ v.toInt < 2 ^ 31) :
    (SignFold.fold 31 v).toNat % 2 = 1 ↔ v.toInt < 0 := by
  have hs := SignFold.fold_sign hk h
  rwa [BitVec.msb_eq_toInt, BitVec.getLsbD, Nat.testBit_zero, decide_eq_decide] at hs

theorem lossless32 (v : Int32) : Lossless32 v := by
  have hrange : -2 ^ 31 ≤ v.toBitVec.toInt ∧ v.toBitVec.toInt < 2 ^ 31 :=
    ⟨BitVec.le_toInt v.toBitVec, BitVec.toInt_lt⟩
  have hdec := (decodeZigzag32_iff v).2 hrange
  refine ⟨hdec, ?_, _, encodeUint32_eq _, fun rest => ?_⟩
  · rw [Int32.lt_iff_toInt_lt]
    exact parity_of_range (by decide) hrange
  · rw [decodeInt32, decodeUint32_encode]
    exact congrArg (fun u => Except.ok (some u, rest)) hdec

theorem lossless64_iff (v : Int64) : Lossless64 v ↔ -2 ^ 31 ≤ v.toInt ∧ v.toInt < 2 ^ 31 := by
  refine (Iff.intro (fun h => h.decoded) fun hdec => ?_).trans (decodeZigzag64_iff v)
  refine ⟨hdec, ?_, _, encodeUint64_eq _, fun rest => ?_⟩
  · rw [Int64.lt_iff_toInt_lt]
    exact parity_of_range (by decide) ((decodeZigzag64_iff v).1 hdec)
  · rw [decodeInt64, decodeUint64_encode]
    exact congrArg (fun u => Except.ok (some u, rest)) hdec

/-- The 32-bit fold loses nothing. The 64-bit fold, which shifts by 31 as well,
tells all values apart, but its decoder brings back just those of 32 bits. -/
theorem zigzag_lossless_iff (v : Int32) (w : Int64) :
    (Lossless32 v ∧ Lossless64 w ↔ -2 ^ 31 ≤ w.toInt ∧ w.toInt < 2 ^ 31) ∧
      (∀ v', EncodeZigzag32 v' = EncodeZigzag32 v → v' = v) ∧
      ∀ w', EncodeZigzag64 w' = EncodeZigzag64 w → w' = w := by
  refine ⟨(and_iff_right (lossless32 v)).trans (lossless64_iff w), fun v' h => ?_, fun w' h => ?_⟩
  · exact Int32.toBitVec_inj.1 (SignFold.fold_injective (by decide : 31 < 32) (congrArg UInt32.toBitVec h))
  · exact Int64.toBitVec_inj.1 (SignFold.fold_injective (by decide : 31 < 64) (congrArg UInt64.toBitVec h))

/-- `2^31` comes back as `-2^31 - 1`. -/
theorem not_lossless64 : ¬ ∀ v : Int64, Lossless64 v := by
  intro h
  have hdec := (h 2147483648).decoded
  revert hdec
  decide

end Linko.ByteArray
