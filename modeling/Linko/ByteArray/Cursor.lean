import Linko.ByteArray.Varint
/-!
# Reading on behind a read

A `read` moves `m_position` to the end of a block but `m_cur` only as far as
the bytes go, so after it the two belong to different places. `Cursor` says
only what every `read` keeps, and `Cursor.read_iff` what the next one does.
-/

namespace Linko.ByteArray

open Blocks Words Base128

/-! ## A read from any block -/

/-- `m_cur` is block `c` of a chain of equal blocks, whatever the position. -/
structure Cursor (ba : ByteArray) (c : Nat) : Prop where
  base_pos : 1 ≤ ba.baseSize
  full : Full ba.baseSize ba.nodes
  cur_eq : ba.cur = link ba.nodes c

/-- The state behind a read of `n` bytes from block `c`. -/
def behind (ba : ByteArray) (c n : Nat) : ByteArray :=
  { ba with
    cur := link ba.nodes (c + (ba.position % ba.baseSize + n) / ba.baseSize)
    position := ba.position + advance ba.baseSize (ba.position % ba.baseSize) n }

theorem Cursor.behind {ba : ByteArray} {c : Nat} (h : Cursor ba c) (n : Nat) :
    Cursor (behind ba c n) (c + (ba.position % ba.baseSize + n) / ba.baseSize) :=
  ⟨h.base_pos, h.full, rfl⟩

theorem Inv.cursor {ba : ByteArray} (h : ba.Inv) : Cursor ba (ba.position / ba.baseSize) := by
  refine ⟨h.base_pos, h.full, ?_⟩
  rw [h.cur_eq, h.link_eq h.position_le_capacity]

theorem length_store_of_full {ba : ByteArray} (h : Full ba.baseSize ba.nodes) :
    ba.store.length = ba.baseSize * ba.nodes.length := h.length_flat

/-- A copy that would go on behind the last block dereferences null. -/
theorem readLoop_short {B : Nat} (nodes : List Node) (hf : Full B nodes) (npos size : Nat) (hn : npos < B)
    (hsize : 0 < size) (hfit : B * nodes.length < npos + size) :
    readLoop nodes npos size = .error .nullDeref := by
  induction nodes generalizing npos size with
  | nil => rfl
  | cons nd next ih =>
    obtain ⟨⟨rfl, hp⟩, hfn⟩ := full_cons.1 hf
    rw [List.length_cons, Nat.mul_succ] at hfit
    rw [readLoop]
    simp only [if_neg (show size ≠ 0 by omega), if_neg (show ¬ size ≤ nd.size - npos by omega),
      load_ok (show npos + (nd.size - npos) ≤ nd.ptr.length by omega),
      ih hfn 0 (size - (nd.size - npos)) (by omega) (by omega) (by omega)]
    rfl

/-- A copy from block `c` on, once `m_cur` is not null. -/
theorem readLoop_eq {B : Nat} (hB : 1 ≤ B) {nodes : List Node} (hf : Full B nodes) {c : Nat}
    (hc : c < nodes.length)
    {npos : Nat} (hn : npos < B) (n : Nat) :
    readLoop (nodes.drop c) npos n =
      if B * c + npos + n ≤ (flat nodes).length then
        .ok (slice (flat nodes) (B * c + npos) n, (npos + n) / B, advance B npos n)
      else .error .nullDeref := by
  have hdrop : B * c + B * (nodes.drop c).length = (flat nodes).length := by
    rw [List.length_drop, hf.length_flat, Nat.mul_sub]
    exact Nat.add_sub_cancel' (Nat.mul_le_mul_left _ hc.le)
  have hroom : B ≤ B * (nodes.drop c).length :=
    Nat.le_mul_of_pos_right _ (by rw [List.length_drop]; omega)
  rcases Nat.eq_zero_or_pos n with rfl | hpos
  · -- nothing to copy: the dereference of `m_cur` is all that happens
    rw [if_pos (by omega), slice_zero, Nat.add_zero, Nat.div_eq_of_lt hn,
      List.drop_eq_getElem_cons hc, readLoop]
    rfl
  · by_cases hfit : B * c + npos + n ≤ (flat nodes).length
    · rw [if_pos hfit, readLoop_spec hB _ (hf.drop c) _ n hn hpos (by omega), hf.flat_drop, slice,
        List.drop_drop]
      rfl
    · rw [if_neg hfit, readLoop_short _ (hf.drop c) _ n hn hpos (by omega)]

/-- Everything `read` can do from block `c`. -/
theorem Cursor.read_eq {ba : ByteArray} {c : Nat} (h : Cursor ba c) (n : Nat) :
    ba.read n =
      if n > ba.getReadSize then .error .outOfRange
      else if c < ba.nodes.length ∧ ba.baseSize * c + ba.position % ba.baseSize + n ≤ ba.store.length then
        .ok (slice ba.store (ba.baseSize * c + ba.position % ba.baseSize) n, ba.behind c n)
      else .error .nullDeref := by
  have hmod := Nat.mod_lt ba.position h.base_pos
  rw [read, h.cur_eq]
  split
  · rfl
  by_cases hc : c < ba.nodes.length
  · have hl : link ba.nodes c = some c := if_pos hc
    have hst : ba.store.length = (flat ba.nodes).length := rfl
    simp only [hl, hc, true_and, readLoop_eq h.base_pos h.full hc hmod n, hst]
    split <;> rfl
  · simp only [link, hc, false_and, if_false]

/-- When `read` returns, and with what. -/
theorem Cursor.read_iff {ba : ByteArray} {c : Nat} (h : Cursor ba c) (n : Nat) (cells : List Cell)
    (ba' : ByteArray) :
    ba.read n = .ok (cells, ba') ↔ n ≤ ba.getReadSize ∧ c < ba.nodes.length ∧
      ba.baseSize * c + ba.position % ba.baseSize + n ≤ ba.store.length ∧
      cells = slice ba.store (ba.baseSize * c + ba.position % ba.baseSize) n ∧ ba' = ba.behind c n := by
  rw [h.read_eq]
  by_cases hle : n > ba.getReadSize
  · simp [hle, Nat.not_le.2 hle]
  · by_cases hfit : c < ba.nodes.length ∧ ba.baseSize * c + ba.position % ba.baseSize + n ≤ ba.store.length
    · rw [if_neg hle, if_pos hfit, Except.ok.injEq, Prod.mk.injEq, eq_comm (a := slice _ _ _),
        eq_comm (a := ba.behind c n)]
      simp only [Nat.le_of_not_gt hle, hfit.1, hfit.2, true_and]
    · rw [if_neg hle, if_neg hfit]
      simp only [reduceCtorEq, false_iff]
      rintro ⟨-, hc, hroom, -⟩
      exact hfit ⟨hc, hroom⟩

/-- What no `read` touches. -/
structure Frame (ba ba' : ByteArray) : Prop where
  nodes : ba'.nodes = ba.nodes
  baseSize : ba'.baseSize = ba.baseSize
  size : ba'.size = ba.size
  endian : ba'.endian = ba.endian

theorem Frame.refl (ba : ByteArray) : Frame ba ba := ⟨rfl, rfl, rfl, rfl⟩

theorem Frame.trans {a b c : ByteArray} (h : Frame a b) (h' : Frame b c) : Frame a c :=
  ⟨h'.nodes.trans h.nodes, h'.baseSize.trans h.baseSize, h'.size.trans h.size, h'.endian.trans h.endian⟩

theorem Frame.store {a b : ByteArray} (h : Frame a b) : b.store = a.store := by
  rw [ByteArray.store, h.nodes]
  rfl

theorem frame_behind (ba : ByteArray) (c n : Nat) : Frame ba (ba.behind c n) := ⟨rfl, rfl, rfl, rfl⟩

/-- The position is a block start, though not that of `m_cur`. -/
structure Aligned (ba : ByteArray) (c : Nat) : Prop extends Cursor ba c where
  aligned : ba.baseSize ∣ ba.position

theorem Aligned.read_iff {ba : ByteArray} {c : Nat} (h : Aligned ba c) (n : Nat) (cells : List Cell)
    (ba' : ByteArray) :
    ba.read n = .ok (cells, ba') ↔ n ≤ ba.getReadSize ∧ c < ba.nodes.length ∧
      ba.baseSize * c + n ≤ ba.store.length ∧ cells = slice ba.store (ba.baseSize * c) n ∧
        ba' = ba.behind c n := by
  rw [h.toCursor.read_iff, Nat.mod_eq_zero_of_dvd h.aligned, Nat.add_zero]

theorem Aligned.behind_position {ba : ByteArray} {c : Nat} (h : Aligned ba c) (n : Nat) :
    (ba.behind c n).position = ba.position + roundUp ba.baseSize n := by
  have hB := h.base_pos
  show ba.position + advance ba.baseSize (ba.position % ba.baseSize) n = _
  rw [Nat.mod_eq_zero_of_dvd h.aligned, advance, Nat.zero_add, Nat.sub_zero]
  split
  · rename_i h0
    rw [h0, roundUp, Nat.div_eq_of_lt (by omega), Nat.zero_mul]
  · rfl

theorem Aligned.behind {ba : ByteArray} {c : Nat} (h : Aligned ba c) (n : Nat) :
    Aligned (ba.behind c n) (c + n / ba.baseSize) where
  toCursor := by
    have hnext := h.toCursor.behind n
    rwa [Nat.mod_eq_zero_of_dvd h.aligned, Nat.zero_add] at hnext
  aligned := by
    rw [h.behind_position]
    exact Nat.dvd_add h.aligned (Nat.dvd_mul_left _ _)

/-! ## Single bytes -/

section

variable {ba : ByteArray} {c : Nat}

theorem Cursor.offset_lt (h : Cursor ba c) (hc : c < ba.nodes.length) :
    ba.baseSize * c + ba.position % ba.baseSize < ba.store.length := by
  have hmod := Nat.mod_lt ba.position h.base_pos
  have := Nat.mul_le_mul_left ba.baseSize (Nat.succ_le_of_lt hc)
  rw [Nat.mul_succ] at this
  rw [length_store_of_full h.full]
  omega

@[simp] theorem behind_store (n : Nat) : (ba.behind c n).store = ba.store := rfl

@[simp] theorem behind_baseSize (n : Nat) : (ba.behind c n).baseSize = ba.baseSize := rfl

@[simp] theorem behind_endian (n : Nat) : (ba.behind c n).endian = ba.endian := rfl

@[simp] theorem behind_size (n : Nat) : (ba.behind c n).size = ba.size := rfl

theorem Cursor.behind_one (h : Cursor ba c) :
    (ba.behind c 1).position = ba.position + (ba.baseSize - ba.position % ba.baseSize) := by
  have hmod := Nat.mod_lt ba.position h.base_pos
  rw [ByteArray.behind, advance_end hmod (by decide) (by omega)]

/-- A read ends at a block boundary, by the position at least. -/
theorem Cursor.behind_aligned (h : Cursor ba c) : ba.baseSize ∣ (ba.behind c 1).position := by
  have hmod := Nat.mod_lt ba.position h.base_pos
  have hdiv := Nat.div_add_mod ba.position ba.baseSize
  refine ⟨ba.position / ba.baseSize + 1, ?_⟩
  rw [h.behind_one, Nat.mul_succ]
  omega

theorem ofBytes_one (o : Order) (b : UInt8) : UInt8.ofBitVec (ofBytes o 1 [b]) = b := by
  have h := ofBytes_bytesOf (w := 1) o b.toBitVec
  have hb : bytesOf (w := 1) o b.toBitVec = [b] := by cases o <;> simp [bytesOf, leBytes]
  rw [hb] at h
  rw [h]

/-- `readFuint8` reads one byte from the block of `m_cur`. -/
theorem Cursor.readFuint8_iff (h : Cursor ba c) (host : Endian) (b : UInt8) (ba' : ByteArray) :
    readFuint8 host ba = .ok (some b, ba') ↔ 1 ≤ ba.getReadSize ∧ c < ba.nodes.length ∧
      ba.store[ba.baseSize * c + ba.position % ba.baseSize]? = some (some b) ∧ ba' = ba.behind c 1 := by
  by_cases hok : 1 ≤ ba.getReadSize ∧ c < ba.nodes.length
  · obtain ⟨hsize, hc⟩ := hok
    have hlt := h.offset_lt hc
    have hone : slice ba.store (ba.baseSize * c + ba.position % ba.baseSize) 1 =
        [ba.store[ba.baseSize * c + ba.position % ba.baseSize]] := by
      rw [slice, List.drop_eq_getElem_cons hlt]
      rfl
    have hread := (h.read_iff 1 _ _).2 ⟨hsize, hc, hlt, hone.symm, rfl⟩
    simp only [readFuint8, readValue, hread, List.getElem?_eq_getElem hlt, hsize, hc, true_and,
      Option.some.injEq]
    show Except.ok (Option.map UInt8.ofBitVec (Option.map _ (determined [_])), _) = _ ↔ _
    rw [Except.ok.injEq, Prod.mk.injEq, eq_comm (b := ba')]
    refine and_congr_left fun _ => ?_
    cases ba.store[ba.baseSize * c + ba.position % ba.baseSize] with
    | none => simp [determined]
    | some b' =>
      rw [show determined [some b'] = some [b'] from determined_some [b'], Option.map_some,
        Option.map_some, ofBytes_one]
  · have hfail : ∀ cells ba₁, ba.read 1 ≠ .ok (cells, ba₁) := by
      intro cells ba₁ hr
      obtain ⟨hsize, hc, -⟩ := (h.read_iff 1 cells ba₁).1 hr
      exact hok ⟨hsize, hc⟩
    constructor
    · intro hr
      unfold readFuint8 readValue at hr
      cases hread : ba.read 1 with
      | error e => rw [hread] at hr; cases hr
      | ok r => exact absurd hread (hfail r.1 r.2)
    · rintro ⟨hsize, hc, -⟩
      exact absurd ⟨hsize, hc⟩ hok

theorem Cursor.feeds_frame (h : Cursor ba c) (host : Endian) {bs : List UInt8} {ba' : ByteArray}
    (hf : Feeds (readFuint8 host) bs ba ba') : Frame ba ba' := by
  induction bs generalizing ba c with
  | nil =>
    obtain rfl : ba = ba' := hf
    exact Frame.refl ba
  | cons b bs ih =>
    obtain ⟨ba₁, hread, hrest⟩ := hf
    obtain ⟨-, -, -, rfl⟩ := (h.readFuint8_iff host b ba₁).1 hread
    exact (frame_behind ba c 1).trans (ih (h.behind 1) hrest)

/-- From a block start: every read byte takes the position one block on. -/
theorem Cursor.feeds_position (h : Cursor ba c) (host : Endian) {bs : List UInt8} {ba' : ByteArray}
    (ha : ba.baseSize ∣ ba.position) (hf : Feeds (readFuint8 host) bs ba ba') :
    ba'.position = ba.position + bs.length * ba.baseSize := by
  induction bs generalizing ba c with
  | nil =>
    obtain rfl : ba = ba' := hf
    simp
  | cons b bs ih =>
    obtain ⟨ba₁, hread, hrest⟩ := hf
    obtain ⟨-, -, -, rfl⟩ := (h.readFuint8_iff host b ba₁).1 hread
    rw [ih (h.behind 1) h.behind_aligned hrest, h.behind_one, Nat.mod_eq_zero_of_dvd ha, behind_baseSize,
      List.length_cons, Nat.succ_mul]
    omega

/-- Every read byte moves the position. -/
theorem Cursor.feeds_length (h : Cursor ba c) (host : Endian) {bs : List UInt8} {ba' : ByteArray}
    (hf : Feeds (readFuint8 host) bs ba ba') : ba.position + bs.length ≤ ba'.position := by
  induction bs generalizing ba c with
  | nil =>
    obtain rfl : ba = ba' := hf
    exact Nat.le_refl _
  | cons b bs ih =>
    obtain ⟨ba₁, hread, hrest⟩ := hf
    obtain ⟨-, -, -, rfl⟩ := (h.readFuint8_iff host b ba₁).1 hread
    have hmod := Nat.mod_lt ba.position h.base_pos
    have hone := h.behind_one
    have := ih (h.behind 1) hrest
    rw [List.length_cons]
    omega

/-- In blocks of two bytes and more the same byte is read again and again. -/
theorem Cursor.feeds_same (h : Cursor ba c) (host : Endian) {bs : List UInt8} {ba' : ByteArray}
    (hB : 2 ≤ ba.baseSize) (ha : ba.baseSize ∣ ba.position) (hf : Feeds (readFuint8 host) bs ba ba') :
    (∀ b ∈ bs, ba.store[ba.baseSize * c]? = some (some b)) ∧ Cursor ba' c := by
  induction bs generalizing ba with
  | nil =>
    obtain rfl : ba = ba' := hf
    exact ⟨by simp, h⟩
  | cons b bs ih =>
    obtain ⟨ba₁, hread, hrest⟩ := hf
    have hmod := Nat.mod_eq_zero_of_dvd ha
    obtain ⟨-, -, hbyte, rfl⟩ := (h.readFuint8_iff host b ba₁).1 hread
    have hnext := h.behind 1
    rw [hmod, Nat.zero_add, Nat.div_eq_of_lt hB, Nat.add_zero] at hnext
    obtain ⟨hall, hcur⟩ := ih hnext hB h.behind_aligned hrest
    rw [hmod, Nat.add_zero] at hbyte
    refine ⟨fun b' hb' => ?_, hcur⟩
    rcases List.mem_cons.1 hb' with rfl | hb'
    · exact hbyte
    · exact hall b' hb'

/-- In blocks of one byte the bytes are read in order. -/
theorem Cursor.feeds_one (h : Cursor ba c) (host : Endian) {bs : List UInt8} {ba' : ByteArray}
    (hB : ba.baseSize = 1) (hf : Feeds (readFuint8 host) bs ba ba') :
    slice ba.store c bs.length = bs.map some ∧ Cursor ba' (c + bs.length) := by
  induction bs generalizing ba c with
  | nil =>
    obtain rfl : ba = ba' := hf
    exact ⟨by simp, h⟩
  | cons b bs ih =>
    obtain ⟨ba₁, hread, hrest⟩ := hf
    obtain ⟨-, -, hbyte, rfl⟩ := (h.readFuint8_iff host b ba₁).1 hread
    have hnext := h.behind 1
    rw [hB, Nat.mod_one, Nat.zero_add, Nat.div_one] at hnext
    rw [hB, Nat.mod_one, Nat.one_mul, Nat.add_zero] at hbyte
    obtain ⟨hslice, hcur⟩ := ih hnext hB hrest
    obtain ⟨hlt, hget⟩ := List.getElem?_eq_some_iff.1 hbyte
    refine ⟨?_, by rwa [List.length_cons, ← Nat.add_assoc, Nat.add_right_comm]⟩
    rw [slice, List.drop_eq_getElem_cons hlt, List.length_cons, List.take_succ_cons, hget, List.map_cons]
    exact congrArg (some b :: ·) hslice

end

end Linko.ByteArray
