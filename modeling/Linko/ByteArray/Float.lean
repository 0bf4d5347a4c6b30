import Linko.ByteArray.Cursor
import Linko.ByteArray.FlatBuffer
/-!
# Floating-point fields

`writeFloat` and `writeDouble` store a fixed-width word, `readFloat` and
`readDouble` read a variable-length one. A floating-point value is its bit
pattern here: all four functions copy it with `memcpy`.
-/

namespace Linko.ByteArray

open Blocks Words Base128

/-! ## The functions -/

section

variable (host : Endian) (ba : ByteArray)

def writeFloat (value : UInt32) : Except Fault ByteArray := writeFuint32 host ba value

def writeDouble (value : UInt64) : Except Fault ByteArray := writeFuint64 host ba value

def readFloat : Except Fault (Option UInt32 × ByteArray) := readUint32 host ba

def readDouble : Except Fault (Option UInt64 × ByteArray) := readUint64 host ba

/-- `x` is written at the position of `ba` and `post` behind it; the reader,
back at that position, returns `x` and moves on by its width. -/
def FloatSurvives (x : UInt32) (post : List UInt8) : Prop :=
  ∃ ba₁ ba₂ ba₃ ba₄, writeFloat host ba x = .ok ba₁ ∧ ba₁.write post = .ok ba₂ ∧
    ba₂.setPosition ba.getPosition = .ok ba₃ ∧ readFloat host ba₃ = .ok (some x, ba₄) ∧
    ba₄.getPosition = ba.getPosition + 4

def DoubleSurvives (x : UInt64) (post : List UInt8) : Prop :=
  ∃ ba₁ ba₂ ba₃ ba₄, writeDouble host ba x = .ok ba₁ ∧ ba₁.write post = .ok ba₂ ∧
    ba₂.setPosition ba.getPosition = .ok ba₃ ∧ readDouble host ba₃ = .ok (some x, ba₄) ∧
    ba₄.getPosition = ba.getPosition + 8

end

/-- The word ends its block, and its first byte alone is its value. -/
def ReadAlone (w B p : Nat) (e : Endian) (x : Nat) : Prop := B - p % B = w ∧ (e = .little ∧ x < 128 ∨ x = 0)

/-- The first byte and the byte at the start of the block make up the value. -/
def ReadTwice (ba : ByteArray) (e : Endian) (x : Nat) : Prop :=
  e = .little ∧ (ba.baseSize = 5 ∧ ba.position % 5 = 2 ∨ ba.baseSize = 6 ∧ ba.position % 6 = 4) ∧
    x < 2 ^ 14 ∧ 128 ≤ x % 256 ∧
    ba.store[ba.position - ba.position % ba.baseSize]? = some (some (UInt8.ofNat (x / 128)))

/-! ## Going back to what was written -/

/-- The bytes stand at the position. -/
structure Ready (ba : ByteArray) (bytes : List UInt8) : Prop where
  inv : ba.Inv
  size : ba.position + bytes.length ≤ ba.size
  stored : slice ba.store ba.position bytes.length = bytes.map some

theorem write_total {ba : ByteArray} (h : ba.Inv) (buf : List UInt8) :
    ∃ ba', ba.write buf = .ok ba' ∧ ba'.Inv ∧ ba'.baseSize = ba.baseSize ∧ ba'.endian = ba.endian ∧
      ba'.size = max ba.size (ba.position + buf.length) ∧ ba'.position = ba.position + buf.length ∧
      slice ba'.store ba.position buf.length = buf.map some ∧
      ∀ o, o < ba.position → ba'.store[o]? = ba.store[o]? := by
  obtain ⟨ba', fresh, hw, hi, hbase, he, hp, hs, -, hfit, hst⟩ := write_ok h buf
  have hfit' : ba.position + (buf.map some).length ≤ (ba.store ++ fresh).length := by simpa using hfit
  refine ⟨ba', hw, hi, hbase, he, hs, hp, ?_, fun o ho => ?_⟩
  · have := slice_splice hfit'
    rwa [List.length_map, ← hst] at this
  · have hlen : o < ba.store.length := by
      rw [h.length_store]
      exact ho.trans_le h.position_le_capacity
    rw [hst, getElem?_splice hfit', if_neg (by omega), List.getElem?_append_left hlen]

/-- Write, write on, go back: the bytes are there, and those in front as well. -/
theorem ready_of_write {ba : ByteArray} (h : ba.Inv) (bytes post : List UInt8) :
    ∃ ba₁ ba₂ ba₃, ba.write bytes = .ok ba₁ ∧ ba₁.write post = .ok ba₂ ∧ ba₂.setPosition ba.position = .ok ba₃ ∧
      Ready ba₃ bytes ∧ ba₃.baseSize = ba.baseSize ∧ ba₃.endian = ba.endian ∧ ba₃.position = ba.position ∧
      ∀ o, o < ba.position → ba₃.store[o]? = ba.store[o]? := by
  obtain ⟨ba₁, hw₁, hi₁, hb₁, he₁, hs₁, hp₁, hst₁, hold₁⟩ := write_total h bytes
  obtain ⟨ba₂, hw₂, hi₂, hb₂, he₂, hs₂, hp₂, -, hold₂⟩ := write_total hi₁ post
  have hcap : ba.position ≤ ba₂.capacity := by
    have := hi₂.size_le
    omega
  obtain ⟨ba₃, hset, hi₃, hb₃, he₃, hp₃, hs₃, -, hst₃⟩ := setPosition_ok hi₂ hcap
  refine ⟨ba₁, ba₂, ba₃, hw₁, hw₂, hset, ⟨hi₃, ?_, ?_⟩, ?_, ?_, hp₃, fun o ho => ?_⟩
  · rw [hp₃, hs₃]
    omega
  · rw [hst₃, hp₃, ← hst₁]
    exact slice_congr fun j _ hj => hold₂ j (by omega)
  · rw [hb₃, hb₂, hb₁]
  · rw [he₃, he₂, he₁]
  · rw [hst₃, hold₂ o (by omega), hold₁ o ho]

/-! ## What the reader takes -/

section

variable {ba : ByteArray} {bytes : List UInt8}

theorem Ready.getElem? (h : Ready ba bytes) {i : Nat} (hi : i < bytes.length) :
    ba.store[ba.position + i]? = some (some bytes[i]) := by
  have hget : (slice ba.store ba.position bytes.length)[i]? = ba.store[ba.position + i]? := by
    rw [getElem?_slice, if_pos hi]
  rw [← hget, h.stored, List.getElem?_map, List.getElem?_eq_getElem hi]
  rfl

/-- The first byte read is the first byte written. -/
theorem Ready.read_first (h : Ready ba bytes) (hpos : 0 < bytes.length) (host : Endian) (b : UInt8)
    (ba' : ByteArray) :
    readFuint8 host ba = .ok (some b, ba') ↔ bytes[0] = b ∧ ba' = ba.behind (ba.position / ba.baseSize) 1 := by
  have hsize := h.size
  have hcap := h.inv.size_le
  obtain ⟨-, hlt⟩ := h.inv.cur_block (by omega)
  have hone : 1 ≤ ba.getReadSize := by
    rw [getReadSize_eq h.inv]
    omega
  have hfirst := h.getElem? hpos
  rw [Nat.add_zero] at hfirst
  rw [h.inv.cursor.readFuint8_iff, Nat.div_add_mod, hfirst, Option.some.injEq, Option.some.injEq]
  simp only [hone, hlt, true_and]

/-- The first byte is the value: `first_byte_eq_iff`, by the byte order. -/
theorem alone_iff {w : Nat} (hw : 2 ≤ w) (e : Endian) {x : BitVec (8 * w)}
    (h : 0 < (bytesOf e.order x).length) :
    (bytesOf e.order x)[0].toNat = x.toNat ∧ x.toNat < 128 ↔ e = .little ∧ x.toNat < 128 ∨ x.toNat = 0 := by
  rw [first_byte_eq_iff hw e.order h]
  cases e <;> simp [Endian.order]

/-- Where the second read takes its byte from. -/
theorem Ready.second_cursor (h : Ready ba bytes) : Cursor (ba.behind (ba.position / ba.baseSize) 1)
    (ba.position / ba.baseSize + if ba.position % ba.baseSize + 1 = ba.baseSize then 1 else 0) := by
  have hB := h.inv.base_pos
  have hmod := Nat.mod_lt ba.position hB
  have hdiv := @div_block_end ba.baseSize (ba.position % ba.baseSize) 1 hB (by omega)
  have hnext := h.inv.cursor.behind 1
  rw [← hdiv] at hnext
  exact (if_congr (eq_comm (a := ba.baseSize)) rfl rfl : ite _ 1 0 = ite _ 1 0) ▸ hnext

/-- What the second and later reads can be, when more than one byte is taken
and the position ends up `w` further: one more byte, from the next block if the
word's first byte ends its block and from the start of the same block if not. -/
theorem second_byte {w k : Nat} (hw : 0 < w) (hk : w < k + 1) (host : Endian) (h : Ready ba bytes)
    (hB : 2 ≤ ba.baseSize) {bs : List UInt8} {ba' : ByteArray} (ht : Taken k bs)
    (hf : Feeds (readFuint8 host) bs (ba.behind (ba.position / ba.baseSize) 1) ba')
    (hp : ba'.position = ba.position + w) :
    ∃ b, bs = [b] ∧ b < 128 ∧ ba.baseSize - ba.position % ba.baseSize + ba.baseSize = w ∧
      ba.store[ba.baseSize * (ba.position / ba.baseSize +
        if ba.position % ba.baseSize + 1 = ba.baseSize then 1 else 0)]? = some (some b) := by
  have hcur := h.second_cursor
  have hone := h.inv.cursor.behind_one
  have hpos := hcur.feeds_position host h.inv.cursor.behind_aligned hf
  obtain ⟨hall, -⟩ := hcur.feeds_same host hB h.inv.cursor.behind_aligned hf
  rw [behind_baseSize] at hpos
  simp only [behind_store, behind_baseSize] at hall
  obtain ⟨k, rfl⟩ : ∃ j, k = j + 1 := ⟨k - 1, by omega⟩
  cases bs with
  | nil => exact ht.elim
  | cons b bs =>
    have hb := hall b List.mem_cons_self
    by_cases hlt : b < 128
    · rw [Taken, if_pos hlt] at ht
      subst ht
      refine ⟨b, rfl, hlt, ?_, hb⟩
      rw [List.length_singleton] at hpos
      omega
    · -- the same byte again, to the end of the loop
      have hsame : ∀ b' ∈ b :: bs, 128 ≤ b' := by
        intro b' hb'
        have he := (hall b' hb').symm.trans hb
        rw [Option.some.injEq, Option.some.injEq] at he
        exact he ▸ UInt8.not_lt.1 hlt
      have hlen := ht.length_eq hsame
      have := Nat.mul_le_mul_left (k + 1) hB
      rw [hlen] at hpos
      omega

/-- In blocks of one byte the reader goes through the bytes in order. -/
theorem Ready.feeds_all (h : Ready ba bytes) (hone : ba.baseSize = 1) (host : Endian) {run : List UInt8}
    {ba' : ByteArray} (hf : Feeds (readFuint8 host) run ba ba')
    (hp : ba'.position = ba.position + bytes.length) : run = bytes := by
  obtain ⟨hslice, -⟩ := h.inv.cursor.feeds_one host hone hf
  have hpos := h.inv.cursor.feeds_position host (by rw [hone]; exact Nat.one_dvd _) hf
  rw [hone] at hpos
  have hlen : run.length = bytes.length := by omega
  rw [hone, Nat.div_one, hlen, h.stored] at hslice
  exact (List.map_injective_iff.2 (Option.some_injective _) hslice).symm

theorem Ready.starts_with_two (h : Ready ba bytes) (hlen : 1 < bytes.length) {b b₁ : UInt8}
    (hfirst : bytes[0] = b)
    (hsecond : ba.store[ba.position + 1]? = some (some b₁)) : [b, b₁] <+: bytes := by
  rw [h.getElem? hlen, Option.some.injEq, Option.some.injEq] at hsecond
  rw [List.prefix_iff_getElem?]
  intro i hi
  rcases (show i = 0 ∨ i = 1 by rw [List.length_cons, List.length_singleton] at hi; omega) with rfl | rfl
  · rw [List.getElem?_eq_getElem (show 0 < bytes.length by omega), hfirst]
    rfl
  · rw [List.getElem?_eq_getElem hlen, hsecond]
    rfl

/-- A little-endian word read with two bytes or more: only the second of them
can be the last, and it is the byte at the start of the block. -/
theorem read_more_little {w k : Nat} (hw : w = 4 ∨ w = 8) (hk : w < k + 1) (host : Endian) {x : BitVec (8 * w)}
    (h : Ready ba (bytesOf .little x)) {b : UInt8} {bs : List UInt8} {ba' : ByteArray} (hb : 128 ≤ b)
    (ht : Taken k bs) (hf : Feeds (readFuint8 host) (b :: bs) ba ba')
    (hx : value (b :: bs) = x.toNat) (hp : ba'.position = ba.position + w) :
    w = 8 ∧ ReadTwice ba .little x.toNat := by
  have hB := h.inv.base_pos
  have hmod := Nat.mod_lt ba.position hB
  have hdiv := Nat.div_add_mod ba.position ba.baseSize
  have hlen : (bytesOf .little x).length = w := length_bytesOf _ _
  have hge : 128 ≤ b.toNat := UInt8.le_iff_toNat_le.1 hb
  have hf₀ := hf
  obtain ⟨ba₁, hread, hrest⟩ := hf
  obtain ⟨hfirst, rfl⟩ := (h.read_first (by omega) host b ba₁).1 hread
  have hlow := low_byte (x := x) (by omega)
  rw [hfirst] at hlow
  -- no run of the written bytes has the value of the word
  have hno : ¬ b :: bs <+: bytesOf .little x := fun hpre => (value_lt_of_start hb hpre).ne hx
  rcases Nat.lt_or_ge ba.baseSize 2 with h1 | h2
  · -- blocks of one byte: the bytes are read in order
    have hall := h.feeds_all (by omega) host hf₀ (by rw [hlen]; exact hp)
    exact absurd (hall ▸ List.prefix_rfl) hno
  · obtain ⟨b₁, rfl, hlt, hsum, hbyte⟩ := second_byte (by omega) hk host h h2 ht hrest hp
    have hlt₁ : b₁.toNat < 128 := UInt8.lt_iff_toNat_lt.1 hlt
    simp only [value, Nat.mod_eq_of_lt hlt₁, Nat.mul_zero, Nat.add_zero] at hx
    split at hbyte
    · -- the word's second byte
      rename_i hend
      have hnext : ba.baseSize * (ba.position / ba.baseSize + 1) = ba.position + 1 := by
        rw [Nat.mul_succ]
        omega
      rw [hnext] at hbyte
      exact absurd (h.starts_with_two (by omega) hfirst hbyte) hno
    · rename_i hend
      have hstart :
          ba.baseSize * (ba.position / ba.baseSize) = ba.position - ba.position % ba.baseSize := by omega
      rw [Nat.add_zero, hstart] at hbyte
      have hr : ba.position % ba.baseSize ≠ 0 := by
        intro h0
        have h0' := h.getElem? (show 0 < (bytesOf .little x).length by omega)
        rw [h0, Nat.sub_zero] at hbyte
        rw [Nat.add_zero, hbyte, hfirst, Option.some.injEq, Option.some.injEq] at h0'
        exact absurd (h0' ▸ hlt) (UInt8.not_lt.2 hb)
      refine ⟨by omega, rfl, ?_, by omega, by omega, ?_⟩
      · rcases (show ba.baseSize = 5 ∨ ba.baseSize = 6 by omega) with h5 | h6
        · left
          rw [h5] at hsum hmod ⊢
          omega
        · right
          rw [h6] at hsum hmod ⊢
          omega
      · rw [hbyte, show x.toNat / 128 = b₁.toNat by omega, UInt8.ofNat_toNat]

/-- A big-endian word is read with one byte only: its first byte is its top one. -/
theorem read_more_big {w : Nat} (hw : w = 4 ∨ w = 8) (host : Endian) {x : BitVec (8 * w)}
    (h : Ready ba (bytesOf .big x)) {b : UInt8} {bs : List UInt8} {ba' : ByteArray} (hb : 128 ≤ b)
    (hf : Feeds (readFuint8 host) (b :: bs) ba ba') (hp : ba'.position = ba.position + w) :
    value (b :: bs) ≠ x.toNat := by
  intro hx
  have hge : 128 ≤ b.toNat := UInt8.le_iff_toNat_le.1 hb
  obtain ⟨v, rfl⟩ : ∃ v, w = v + 1 := ⟨w - 1, by omega⟩
  have hf₀ := hf
  obtain ⟨ba₁, hread, -⟩ := hf
  obtain ⟨hfirst, rfl⟩ := (h.read_first (by simp) host b ba₁).1 hread
  have hlen := h.inv.cursor.feeds_length host hf₀
  have htop := top_byte (x := x) (by simp)
  have hlt := value_lt (b :: bs)
  have hpow : 128 ^ (b :: bs).length ≤ 128 ^ (v + 1) := Nat.pow_le_pow_right (by decide) (by omega)
  rw [hfirst] at htop
  rw [hx] at hlt
  rcases hw with hv | hv
  · obtain rfl : v = 3 := by omega
    omega
  · obtain rfl : v = 7 := by omega
    omega

/-- The coincidence in blocks of five and six bytes. -/
theorem ReadTwice.taken {k : Nat} (hk : 8 < k + 1) (host : Endian) {x : BitVec (8 * 8)}
    (h : Ready ba (bytesOf .little x)) (htwice : ReadTwice ba .little x.toNat) :
    ∃ bs ba', Taken (k + 1) bs ∧ Feeds (readFuint8 host) bs ba ba' ∧ value bs = x.toNat ∧
      ba'.position = ba.position + 8 := by
  obtain ⟨-, hblock, hx, hlow, hbyte⟩ := htwice
  have hr : ba.baseSize = 5 ∧ ba.position % ba.baseSize = 2 ∨
      ba.baseSize = 6 ∧ ba.position % ba.baseSize = 4 := by
    rcases hblock with ⟨h5, hm⟩ | ⟨h6, hm⟩
    · exact .inl ⟨h5, by rw [h5, hm]⟩
    · exact .inr ⟨h6, by rw [h6, hm]⟩
  have hdiv := Nat.div_add_mod ba.position ba.baseSize
  have hpos : 0 < (bytesOf .little x).length := by simp
  have hfirst : (bytesOf .little x)[0].toNat = x.toNat % 256 := low_byte hpos
  have hsecond : (UInt8.ofNat (x.toNat / 128)).toNat = x.toNat / 128 := by
    rw [UInt8.toNat_ofNat']
    omega
  have hsize := h.size
  rw [length_bytesOf] at hsize
  have halign := h.inv.cursor.behind_aligned
  have hone := h.inv.cursor.behind_one
  obtain ⟨-, hc⟩ := h.inv.cur_block (by have := h.inv.size_le; omega)
  -- the first read leaves `m_cur` in its block
  have hcur := h.second_cursor
  rw [if_neg (by omega), Nat.add_zero] at hcur
  have hread := (hcur.readFuint8_iff host (UInt8.ofNat (x.toNat / 128)) _).2 ⟨?_, hc, ?_, rfl⟩
  · refine ⟨[(bytesOf .little x)[0], UInt8.ofNat (x.toNat / 128)], _, ?_,
      ⟨_, (h.read_first hpos host _ _).2 ⟨rfl, rfl⟩, _, hread, rfl⟩, ?_, ?_⟩
    · obtain ⟨j, rfl⟩ : ∃ j, k = j + 1 := ⟨k - 1, by omega⟩
      rw [Taken, if_neg (UInt8.not_lt.2 (UInt8.le_iff_toNat_le.2 (hfirst ▸ hlow))), Taken,
        if_pos (UInt8.lt_iff_toNat_lt.2 (by rw [hsecond]; show _ < 128; omega))]
    · rw [value, value, value, hsecond, hfirst]
      omega
    · rw [hcur.behind_one, behind_baseSize, Nat.mod_eq_zero_of_dvd halign]
      omega
  · rw [getReadSize, behind_size, sizeSub_of_le (by omega)]
    omega
  · rw [behind_baseSize, behind_store, Nat.mod_eq_zero_of_dvd halign, Nat.add_zero, ← hbyte]
    congr 1
    omega

/-- The whole of what a variable-length reader does at a word of `w` bytes. -/
theorem taken_at_iff {w k : Nat} (hw : w = 4 ∨ w = 8) (hk : w < k + 1) (host e : Endian) {x : BitVec (8 * w)}
    (h : Ready ba (bytesOf e.order x)) :
    (∃ bs ba', Taken (k + 1) bs ∧ Feeds (readFuint8 host) bs ba ba' ∧ value bs = x.toNat ∧
      ba'.position = ba.position + w) ↔
      ReadAlone w ba.baseSize ba.position e x.toNat ∨ w = 8 ∧ ReadTwice ba e x.toNat := by
  have hB := h.inv.base_pos
  have hmod := Nat.mod_lt ba.position hB
  have hpos : 0 < (bytesOf e.order x).length := by rw [length_bytesOf]; omega
  have hone := h.inv.cursor.behind_one
  constructor
  · rintro ⟨bs, ba', ht, hf, hx, hp⟩
    cases bs with
    | nil => exact ht.elim
    | cons b bs =>
      by_cases hlt : b < 128
      · -- one byte
        rw [Taken, if_pos hlt] at ht
        subst ht
        obtain ⟨ba₁, hread, rfl⟩ := hf
        obtain ⟨hfirst, rfl⟩ := (h.read_first hpos host b ba₁).1 hread
        have hlt' : b.toNat < 128 := UInt8.lt_iff_toNat_lt.1 hlt
        simp only [value, Nat.mod_eq_of_lt hlt', Nat.mul_zero, Nat.add_zero] at hx
        exact .inl ⟨by omega, (alone_iff (by omega) e hpos).1 ⟨hfirst ▸ hx, hx ▸ hlt'⟩⟩
      · rw [Taken, if_neg hlt] at ht
        cases e with
        | little => exact .inr (read_more_little hw hk host h (UInt8.not_lt.1 hlt) ht hf hx hp)
        | big => exact absurd hx (read_more_big hw host h (UInt8.not_lt.1 hlt) hf hp)
  · rintro (⟨hend, hval⟩ | ⟨rfl, rfl, hblock, hx, hlow, hbyte⟩)
    · obtain ⟨hfirst, hlt⟩ := (alone_iff (by omega) e hpos).2 hval
      have hbyte : (bytesOf e.order x)[0] < 128 := UInt8.lt_iff_toNat_lt.2 (hfirst ▸ hlt)
      refine ⟨[(bytesOf e.order x)[0]], _, by rw [Taken, if_pos hbyte],
        ⟨_, (h.read_first hpos host _ _).2 ⟨rfl, rfl⟩, rfl⟩, ?_, by omega⟩
      rw [value, value, hfirst]
      omega
    · exact ReadTwice.taken hk host h ⟨rfl, hblock, hx, hlow, hbyte⟩

end

/-! ## The two pairs -/

theorem setIsLittleEndian_inv {ba : ByteArray} (h : ba.Inv) (little : Bool) :
    (ba.setIsLittleEndian little).Inv :=
  ⟨h.base_pos, h.blocks, h.root, h.capacity_eq, h.position_le, h.size_le, h.cur_eq⟩

/-- The value of what was taken on the way to `p + w` fits into the word. -/
theorem taken_fits (host : Endian) {ba ba' : ByteArray} (h : ba.Inv) {w : Nat} {bs : List UInt8}
    (hf : Feeds (readFuint8 host) bs ba ba') (hp : ba'.position = ba.position + w) :
    value bs < 2 ^ (8 * w) := by
  have hlen := h.cursor.feeds_length host hf
  have hlt := value_lt bs
  have hpow : 128 ^ bs.length ≤ 2 ^ (7 * w) := by
    rw [Nat.pow_mul]
    exact Nat.pow_le_pow_right (by decide) (by omega)
  exact hlt.trans_le (hpow.trans (Nat.pow_le_pow_right (by decide) (by omega)))

theorem readFloat_iff (host : Endian) {ba : ByteArray} (h : ba.Inv) (x : UInt32) :
    (∃ ba', readFloat host ba = .ok (some x, ba') ∧ ba'.position = ba.position + 4) ↔
      ∃ bs ba', Taken 5 bs ∧ Feeds (readFuint8 host) bs ba ba' ∧ value bs = x.toNat ∧
        ba'.position = ba.position + 4 := by
  constructor
  · rintro ⟨ba', hread, hp⟩
    obtain ⟨bs, ht, hf, rfl⟩ := decodeUint32_iff.1 hread
    exact ⟨bs, ba', ht, hf, (UInt32.toNat_ofNat_of_lt (taken_fits host h hf hp)).symm, hp⟩
  · rintro ⟨bs, ba', ht, hf, hx, hp⟩
    exact ⟨ba', decodeUint32_iff.2 ⟨bs, ht, hf, by rw [hx, UInt32.ofNat_toNat]⟩, hp⟩

theorem readDouble_iff (host : Endian) {ba : ByteArray} (h : ba.Inv) (x : UInt64) :
    (∃ ba', readDouble host ba = .ok (some x, ba') ∧ ba'.position = ba.position + 8) ↔
      ∃ bs ba', Taken 10 bs ∧ Feeds (readFuint8 host) bs ba ba' ∧ value bs = x.toNat ∧
        ba'.position = ba.position + 8 := by
  constructor
  · rintro ⟨ba', hread, hp⟩
    obtain ⟨bs, ht, hf, rfl⟩ := decodeUint64_iff.1 hread
    exact ⟨bs, ba', ht, hf, (UInt64.toNat_ofNat_of_lt (taken_fits host h hf hp)).symm, hp⟩
  · rintro ⟨bs, ba', ht, hf, hx, hp⟩
    exact ⟨ba', decodeUint64_iff.2 ⟨bs, ht, hf, by rw [hx, UInt64.ofNat_toNat]⟩, hp⟩

/-- A chain of calls whose first three returned: what is left is the last. -/
theorem runs_iff {w : Except Fault ByteArray} {p : Nat} {post : List UInt8} {P : ByteArray → ByteArray → Prop}
    {b₁ b₂ b₃ : ByteArray} (h₁ : w = .ok b₁) (h₂ : b₁.write post = .ok b₂) (h₃ : b₂.setPosition p = .ok b₃) :
    (∃ ba₁ ba₂ ba₃ ba₄, w = .ok ba₁ ∧ ba₁.write post = .ok ba₂ ∧ ba₂.setPosition p = .ok ba₃ ∧ P ba₃ ba₄) ↔
      ∃ ba₄, P b₃ ba₄ := by
  constructor
  · rintro ⟨ba₁, ba₂, ba₃, ba₄, h₁', h₂', h₃', h⟩
    obtain rfl := Except.ok.inj (h₁.symm.trans h₁')
    obtain rfl := Except.ok.inj (h₂.symm.trans h₂')
    obtain rfl := Except.ok.inj (h₃.symm.trans h₃')
    exact ⟨ba₄, h⟩
  · rintro ⟨ba₄, h⟩
    exact ⟨b₁, b₂, b₃, ba₄, h₁, h₂, h₃, h⟩

theorem floatSurvives_iff {ba : ByteArray} (h : ba.Inv) (host : Endian) (x : UInt32) (post : List UInt8) :
    FloatSurvives host ba x post ↔ ReadAlone 4 ba.baseSize ba.position ba.endian x.toNat := by
  obtain ⟨ba₁, ba₂, ba₃, hw, hpost, hset, hready, hb, he, hp, -⟩ :=
    ready_of_write h (bytesOf (w := 4) ba.endian.order x.toBitVec) post
  have hw' : writeFloat host ba x = .ok ba₁ := (Fixed.write_eq host ba (.uint32 x)).trans hw
  have hread := readFloat_iff host hready.inv x
  have hiff := taken_at_iff (w := 4) (k := 4) (.inl rfl) (by decide) host ba.endian hready
  rw [hp] at hread hiff
  rw [hb] at hiff
  refine (runs_iff hw' hpost hset).trans (hread.trans (hiff.trans ?_))
  simp

theorem doubleSurvives_iff {ba : ByteArray} (h : ba.Inv) (host : Endian) (x : UInt64) (post : List UInt8) :
    DoubleSurvives host ba x post ↔
      ReadAlone 8 ba.baseSize ba.position ba.endian x.toNat ∨ ReadTwice ba ba.endian x.toNat := by
  obtain ⟨ba₁, ba₂, ba₃, hw, hpost, hset, hready, hb, he, hp, hold⟩ :=
    ready_of_write h (bytesOf (w := 8) ba.endian.order x.toBitVec) post
  have hw' : writeDouble host ba x = .ok ba₁ := (Fixed.write_eq host ba (.uint64 x)).trans hw
  have hread := readDouble_iff host hready.inv x
  have hiff := taken_at_iff (w := 8) (k := 9) (.inr rfl) (by decide) host ba.endian hready
  rw [hp] at hread hiff
  rw [hb] at hiff
  refine (runs_iff hw' hpost hset).trans (hread.trans (hiff.trans (or_congr_right ?_)))
  rw [eq_self, true_and]
  unfold ReadTwice
  rw [hb, hp]
  refine and_congr_right fun _ => and_congr_right fun hblock => ?_
  -- the start of the block lies in front of the word
  have hfront : ba.position - ba.position % ba.baseSize < ba.position := by
    rcases hblock with ⟨h5, hm⟩ | ⟨h6, hm⟩
    · rw [h5]
      omega
    · rw [h6]
      omega
  rw [hold _ hfront]
  exact Iff.rfl

/-- Of the 32-bit patterns only those survive whose first byte, as it stands in
the buffer, is the whole value and the last four bytes of a block; of the
64-bit patterns also some that the byte at the start of the block completes. -/
theorem floats_survive_iff {B : Nat} (hB : 1 ≤ B) {ops : List WriteOp} {ba : ByteArray}
    (hr : runOps (new B) ops = .ok ba) (host : Endian) (little : Bool) (post : List UInt8) :
    (∀ x, FloatSurvives host (ba.setIsLittleEndian little) x post ↔
      ReadAlone 4 B ba.position (if little then .little else .big) x.toNat) ∧
    ∀ x, DoubleSurvives host (ba.setIsLittleEndian little) x post ↔
      ReadAlone 8 B ba.position (if little then .little else .big) x.toNat ∨
      ReadTwice ba (if little then .little else .big) x.toNat := by
  obtain ⟨hi, rfl⟩ := inv_of_runOps hB hr
  have hi' := setIsLittleEndian_inv hi little
  exact ⟨fun x => floatSurvives_iff hi' host x post, fun x => doubleSurvives_iff hi' host x post⟩

/-- The pattern 5 at the start of a block of four bytes. -/
theorem floats_survive_iff_alone : FloatSurvives .little ((new 4).setIsLittleEndian true) 5 [1, 2] :=
  ((floats_survive_iff (by decide) (show runOps (new 4) [] = .ok (new 4) from rfl) .little true [1, 2]).1 5).2
    ⟨by decide, .inl ⟨rfl, by decide⟩⟩

/-- `1.0f` is read back as zero, four bytes further on. -/
theorem not_floatSurvives_one : ¬ FloatSurvives .little ((new 4).setIsLittleEndian true) 0x3F800000 [] := by
  rintro ⟨ba₁, ba₂, ba₃, ba₄, h₁, h₂, h₃, h₄, -⟩
  have hw : writeFloat .little ((new 4).setIsLittleEndian true) 0x3F800000 =
      .ok ⟨4, 4, 4, 4, .little, [⟨[some 0, some 0, some 0x80, some 0x3F], 4⟩], none⟩ := by rfl
  obtain rfl := Except.ok.inj (hw.symm.trans h₁)
  obtain rfl := Except.ok.inj h₂
  obtain rfl := Except.ok.inj h₃
  have hread : readFloat .little ⟨4, 0, 4, 4, .little, [⟨[some 0, some 0, some 0x80, some 0x3F], 4⟩], some 0⟩ =
      .ok (some 0, ⟨4, 4, 4, 4, .little, [⟨[some 0, some 0, some 0x80, some 0x3F], 4⟩], some 0⟩) := by rfl
  have hv := (Prod.mk.inj (Except.ok.inj (hread.symm.trans h₄))).1
  exact absurd hv (by decide)

end Linko.ByteArray
