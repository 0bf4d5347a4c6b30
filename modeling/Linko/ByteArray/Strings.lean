import Linko.ByteArray.Cursor
/-!
# Length-prefixed strings

The `writeString*` functions store the length of a string as a fixed-width
word and then its bytes. The `readStringF*` functions read a word of the same
width, `readStringFVint` reads a variable-length integer although
`writeStringVint` stores a fixed-width one.
-/

namespace Linko.ByteArray

open Blocks Words Base128

/-! ## The functions -/

section

variable (host : Endian) (ba : ByteArray)

def writeStringF16 (value : List UInt8) : Except Fault ByteArray := do
  let ba ← writeFint16 host ba (Int16.ofNat value.length)
  ba.write value

def writeStringF32 (value : List UInt8) : Except Fault ByteArray := do
  let ba ← writeFint32 host ba (Int32.ofNat value.length)
  ba.write value

def writeStringF64 (value : List UInt8) : Except Fault ByteArray := do
  let ba ← writeFint64 host ba (Int64.ofNat value.length)
  ba.write value

def writeStringVint (value : List UInt8) : Except Fault ByteArray := do
  let ba ← writeFint64 host ba (Int64.ofNat value.length)
  ba.write value

/-- `buff.resize(len); read(&buff[0], len); return buff;` -/
def readBuff (len : Nat) : Except Fault (Option (List UInt8) × ByteArray) := do
  let (cells, ba) ← ba.read len
  .ok (determined cells, ba)

/-- A length and then as many bytes. A length made of bytes that were never
stored decides nothing: the string is `none` there. -/
def readString {α : Type} (readLen : ByteArray → Except Fault (Option α × ByteArray)) (size : α → Nat) :
    Except Fault (Option (List UInt8) × ByteArray) := do
  let (len, ba) ← readLen ba
  match len with
  | none => .ok (none, ba)
  | some len => readBuff ba (size len)

def readStringF16 : Except Fault (Option (List UInt8) × ByteArray) :=
  readString ba (readFuint16 host) UInt16.toNat

def readStringF32 : Except Fault (Option (List UInt8) × ByteArray) :=
  readString ba (readFuint32 host) UInt32.toNat

def readStringF64 : Except Fault (Option (List UInt8) × ByteArray) :=
  readString ba (readFuint64 host) UInt64.toNat

def readStringFVint : Except Fault (Option (List UInt8) × ByteArray) :=
  readString ba (readUint64 host) UInt64.toNat

end

/-- The strings are written one after the other to a fresh `ByteArray`; read
from the start they come back in order, and nothing is left behind them. -/
def StringsReadBack (write : ByteArray → List UInt8 → Except Fault ByteArray)
    (read : ByteArray → Except Fault (Option (List UInt8) × ByteArray)) (little : Bool) (B : Nat)
    (vs : List (List UInt8)) : Prop :=
  ∃ ba ba₀ ba', vs.foldlM write ((new B).setIsLittleEndian little) = .ok ba ∧ ba.setPosition 0 = .ok ba₀ ∧
    Feeds read vs ba₀ ba' ∧ ba'.getReadSize = 0

/-! ## What is stored -/

/-- The length in front of a string, in `w` bytes. -/
def header (e : Endian) (w len : Nat) : List UInt8 := bytesOf e.order (BitVec.ofNat (8 * w) len)

@[simp] theorem length_header (e : Endian) (w len : Nat) : (header e w len).length = w := length_bytesOf _ _

/-- The bytes of the strings as they stand in the buffer. -/
def text (e : Endian) (w : Nat) (vs : List (List UInt8)) : List UInt8 :=
  vs.flatMap fun s => header e w s.length ++ s

@[simp] theorem text_nil (e : Endian) (w : Nat) : text e w [] = [] := rfl

theorem text_cons (e : Endian) (w : Nat) (s : List UInt8) (vs : List (List UInt8)) :
    text e w (s :: vs) = header e w s.length ++ (s ++ text e w vs) := by
  rw [text, List.flatMap_cons, List.append_assoc]
  rfl

theorem length_text (e : Endian) (w : Nat) (vs : List (List UInt8)) :
    (text e w vs).length = (vs.map fun s => w + s.length).sum := by
  induction vs with
  | nil => rfl
  | cons s vs ih =>
    rw [text_cons, List.length_append, List.length_append, length_header, ih, List.map_cons, List.sum_cons,
      Nat.add_assoc]

/-- The body of the `writeString*` functions. -/
def writeHeaded (w : Nat) (ba : ByteArray) (s : List UInt8) : Except Fault ByteArray := do
  let ba ← ba.write (header ba.endian w s.length)
  ba.write s

theorem writeStringF16_eq (host : Endian) (ba : ByteArray) (s : List UInt8) :
    writeStringF16 host ba s = writeHeaded 2 ba s := by
  unfold writeStringF16 writeHeaded
  rw [show writeFint16 host ba (Int16.ofNat s.length) = _ from
    Fixed.write_eq host ba (.int16 (Int16.ofNat s.length))]
  rfl

theorem writeStringF32_eq (host : Endian) (ba : ByteArray) (s : List UInt8) :
    writeStringF32 host ba s = writeHeaded 4 ba s := by
  unfold writeStringF32 writeHeaded
  rw [show writeFint32 host ba (Int32.ofNat s.length) = _ from
    Fixed.write_eq host ba (.int32 (Int32.ofNat s.length))]
  rfl

theorem writeStringF64_eq (host : Endian) (ba : ByteArray) (s : List UInt8) :
    writeStringF64 host ba s = writeHeaded 8 ba s := by
  unfold writeStringF64 writeHeaded
  rw [show writeFint64 host ba (Int64.ofNat s.length) = _ from
    Fixed.write_eq host ba (.int64 (Int64.ofNat s.length))]
  rfl

theorem writeStringVint_eq (host : Endian) (ba : ByteArray) (s : List UInt8) :
    writeStringVint host ba s = writeHeaded 8 ba s := writeStringF64_eq host ba s

/-- The buffer holds exactly `bs`, in no more blocks than these need. -/
structure Packed (ba : ByteArray) (B : Nat) (e : Endian) (bs : List UInt8) : Prop extends Holds ba B e bs where
  capacity : ba.capacity = max B (roundUp B bs.length)

theorem packed_new {B : Nat} (hB : 1 ≤ B) (little : Bool) :
    Packed ((new B).setIsLittleEndian little) B (if little then .little else .big) [] where
  toHolds := holds_new hB little
  capacity := by
    have h0 : roundUp B ([] : List UInt8).length = 0 := by
      rw [List.length_nil, roundUp, Nat.div_eq_of_lt (by omega), Nat.zero_mul]
    rw [h0]
    exact (Nat.max_zero B).symm

theorem packed_write {ba : ByteArray} {B : Nat} {e : Endian} {bs : List UInt8} (h : Packed ba B e bs)
    (buf : List UInt8) : ∃ ba', ba.write buf = .ok ba' ∧ Packed ba' B e (bs ++ buf) := by
  obtain ⟨ba', hw, hholds⟩ := holds_write h.toHolds buf
  obtain ⟨ba'', fresh, hw', -, -, -, -, -, hc, -⟩ := write_ok h.inv buf
  obtain rfl := Except.ok.inj (hw.symm.trans hw')
  refine ⟨ba', hw, hholds, ?_⟩
  have hmono : roundUp B bs.length ≤ roundUp B (bs.length + buf.length) := roundUp_mono (Nat.le_add_right _ _)
  rw [hc, h.capacity, h.position, h.base, List.length_append]
  omega

theorem packed_writeHeaded {ba : ByteArray} {B : Nat} {e : Endian} {bs : List UInt8}
    (h : Packed ba B e bs) (w : Nat)
    (vs : List (List UInt8)) :
    ∃ ba', vs.foldlM (writeHeaded w) ba = .ok ba' ∧ Packed ba' B e (bs ++ text e w vs) := by
  induction vs generalizing ba bs with
  | nil => exact ⟨ba, rfl, by rwa [text_nil, List.append_nil]⟩
  | cons s vs ih =>
    obtain ⟨ba₁, h₁, hp₁⟩ := packed_write h (header e w s.length)
    obtain ⟨ba₂, h₂, hp₂⟩ := packed_write hp₁ s
    obtain ⟨ba', hrun, hp'⟩ := ih hp₂
    refine ⟨ba', ?_, by simpa only [text_cons, List.append_assoc] using hp'⟩
    have hs : writeHeaded w ba s = .ok ba₂ := by
      unfold writeHeaded
      rw [h.endian, h₁]
      exact h₂
    rw [List.foldlM_cons, hs]
    exact hrun

/-! ## Reading -/

theorem determined_iff (cells : List Cell) (bs : List UInt8) :
    determined cells = some bs ↔ cells = bs.map some := by
  constructor
  · intro h
    induction cells generalizing bs with
    | nil =>
      obtain rfl : [] = bs := Option.some.inj h
      rfl
    | cons cell cells ih =>
      cases cell with
      | none => cases h
      | some b =>
        have hcons : determined (some b :: cells) = (determined cells).map (b :: ·) := by
          simp only [determined, List.mapM_cons, id]
          cases List.mapM id cells <;> rfl
        rw [hcons] at h
        obtain ⟨rest, hrest, rfl⟩ := Option.map_eq_some_iff.1 h
        rw [ih rest hrest, List.map_cons]
  · rintro rfl
    exact determined_some bs

theorem Aligned.readBuff_iff {ba : ByteArray} {c : Nat} (h : Aligned ba c) (n : Nat) (s : List UInt8)
    (ba' : ByteArray) :
    readBuff ba n = .ok (some s, ba') ↔ n ≤ ba.getReadSize ∧ c < ba.nodes.length ∧
      ba.baseSize * c + n ≤ ba.store.length ∧ slice ba.store (ba.baseSize * c) n = s.map some ∧
      ba' = ba.behind c n := by
  constructor
  · intro hr
    unfold readBuff at hr
    cases hread : ba.read n with
    | error e =>
      rw [hread] at hr
      cases hr
    | ok r =>
      obtain ⟨cells, ba₁⟩ := r
      rw [hread] at hr
      obtain ⟨hdet, rfl⟩ := Prod.mk.inj (Except.ok.inj hr)
      obtain ⟨h₁, h₂, h₃, h₄, h₅⟩ := (h.read_iff n cells _).1 hread
      exact ⟨h₁, h₂, h₃, h₄ ▸ (determined_iff _ _).1 hdet, h₅⟩
  · rintro ⟨h₁, h₂, h₃, h₄, h₅⟩
    unfold readBuff
    rw [(h.read_iff n _ ba').2 ⟨h₁, h₂, h₃, h₄.symm, h₅⟩]
    show Except.ok (determined _, ba') = _
    rw [determined_some]

/-- A string is read by reading a length and then as many bytes. -/
theorem readString_iff {α : Type} {ba : ByteArray} {readLen : ByteArray → Except Fault (Option α × ByteArray)}
    {size : α → Nat} {s : List UInt8} {ba' : ByteArray} :
    readString ba readLen size = .ok (some s, ba') ↔
      ∃ len ba₁, readLen ba = .ok (some len, ba₁) ∧ readBuff ba₁ (size len) = .ok (some s, ba') := by
  unfold readString
  rcases readLen ba with e | ⟨_ | len, ba₁⟩
  · constructor
    · intro h
      cases h
    · rintro ⟨len, ba₁, h, -⟩
      cases h
  · constructor
    · intro h
      cases h
    · rintro ⟨len, ba₂, h, -⟩
      cases h
  · constructor
    · exact fun h => ⟨len, ba₁, rfl, h⟩
    · rintro ⟨len', ba₂, h, hr⟩
      cases h
      exact hr

/-! ## The fixed-width lengths -/

/-- The body of the three `readStringF*` functions with a fixed-width length. -/
def readHeaded (host : Endian) (w : Nat) (ba : ByteArray) : Except Fault (Option (List UInt8) × ByteArray) :=
  readString ba (fun ba => readFixed host ba w) BitVec.toNat

theorem readString_map {α β : Type} (ba : ByteArray) (readLen : ByteArray → Except Fault (Option α × ByteArray))
    (f : α → β) (size : β → Nat) :
    readString ba (fun ba => do let (v, ba') ← readLen ba; .ok (v.map f, ba')) size =
      readString ba readLen (size ∘ f) := by
  unfold readString
  rcases hr : readLen ba with e | ⟨_ | len, ba₁⟩ <;> simp only [hr] <;> rfl

theorem readStringF16_eq (host : Endian) (ba : ByteArray) : readStringF16 host ba = readHeaded host 2 ba :=
  readString_map ba (fun ba => readFixed host ba 2) UInt16.ofBitVec UInt16.toNat

theorem readStringF32_eq (host : Endian) (ba : ByteArray) : readStringF32 host ba = readHeaded host 4 ba :=
  readString_map ba (fun ba => readFixed host ba 4) UInt32.ofBitVec UInt32.toNat

theorem readStringF64_eq (host : Endian) (ba : ByteArray) : readStringF64 host ba = readHeaded host 8 ba :=
  readString_map ba (fun ba => readFixed host ba 8) UInt64.ofBitVec UInt64.toNat

theorem read_of_readFixed {host : Endian} {ba ba' : ByteArray} {w : Nat} {v : BitVec (8 * w)}
    (h : readFixed host ba w = .ok (some v, ba')) : ∃ cells, ba.read w = .ok (cells, ba') := by
  unfold readFixed readValue at h
  rcases hread : ba.read w with e | ⟨cells, ba₁⟩
  · rw [hread] at h
    cases h
  · rw [hread] at h
    obtain ⟨-, rfl⟩ := Prod.mk.inj (Except.ok.inj h)
    exact ⟨cells, rfl⟩

/-- Each string moves the position by whole blocks, for its length and for its
bytes. -/
theorem Aligned.readHeaded_moves {ba ba' : ByteArray} {c : Nat} (h : Aligned ba c) {host : Endian} {w : Nat}
    {s : List UInt8} (hr : readHeaded host w ba = .ok (some s, ba')) :
    ∃ c', Aligned ba' c' ∧ Frame ba ba' ∧
      ba'.position = ba.position + (roundUp ba.baseSize w + roundUp ba.baseSize s.length) := by
  obtain ⟨len, ba₁, hlen, hbuff⟩ := readString_iff.1 hr
  obtain ⟨cells, hread⟩ := read_of_readFixed hlen
  obtain ⟨-, -, -, -, rfl⟩ := (h.read_iff w cells ba₁).1 hread
  have h₁ := h.behind w
  obtain ⟨-, -, hroom, hs, rfl⟩ := (h₁.readBuff_iff len.toNat s ba').1 hbuff
  have hsize : s.length = len.toNat := by
    have := congrArg List.length hs
    rwa [length_slice hroom, List.length_map, eq_comm] at this
  refine ⟨_, h₁.behind _, (frame_behind ba c w).trans (frame_behind _ _ _), ?_⟩
  rw [h₁.behind_position, h.behind_position, behind_baseSize, hsize, Nat.add_assoc]

/-- What reading the strings moves the position by, with the given number of
bytes for each length. -/
def span (B w : Nat) (vs : List (List UInt8)) : Nat :=
  (vs.map fun s => roundUp B w + roundUp B s.length).sum

theorem Aligned.feeds_span {ba ba' : ByteArray} {c : Nat} (h : Aligned ba c) {host : Endian} {w : Nat}
    {vs : List (List UInt8)} (hf : Feeds (readHeaded host w) vs ba ba') :
    Frame ba ba' ∧ ba'.position = ba.position + span ba.baseSize w vs := by
  induction vs generalizing ba c with
  | nil =>
    obtain rfl : ba = ba' := hf
    exact ⟨Frame.refl ba, rfl⟩
  | cons s vs ih =>
    obtain ⟨ba₁, hr, hrest⟩ := hf
    obtain ⟨c₁, h₁, hframe, hpos⟩ := h.readHeaded_moves hr
    obtain ⟨hframe', hpos'⟩ := ih h₁ hrest
    refine ⟨hframe.trans hframe', ?_⟩
    rw [hpos', hpos, hframe.baseSize, span, span, List.map_cons, List.sum_cons, Nat.add_assoc]

/-- The condition under which the strings come back: the blocks divide
everything, no length is cut off, and something follows the last length. -/
structure Fits (w B : Nat) (vs : List (List UInt8)) : Prop where
  width : B ∣ w
  lengths : ∀ s ∈ vs, B ∣ s.length ∧ s.length < 256 ^ w
  last : vs.getLast? ≠ some []

theorem sum_eq_forall {α : Type} {f g : α → Nat} {l : List α} (hle : ∀ a, f a ≤ g a)
    (h : (l.map f).sum = (l.map g).sum) : ∀ a ∈ l, f a = g a := by
  have hsum : ∀ m : List α, (m.map f).sum ≤ (m.map g).sum := by
    intro m
    induction m with
    | nil => exact Nat.le_refl _
    | cons a m ih => exact Nat.add_le_add (hle a) ih
  induction l with
  | nil => simp
  | cons a l ih =>
    rw [List.map_cons, List.map_cons, List.sum_cons, List.sum_cons] at h
    have := hle a
    have := hsum l
    intro b hb
    rcases List.mem_cons.1 hb with rfl | hb
    · omega
    · exact ih (by omega) b hb

/-- The position ends at the size only when every step is a whole number of
blocks. -/
theorem dvd_of_span {B w : Nat} (hB : 1 ≤ B) {vs : List (List UInt8)}
    (h : span B w vs = (vs.map fun s => w + s.length).sum) : ∀ s ∈ vs, B ∣ w ∧ B ∣ s.length := by
  intro s hs
  have he := sum_eq_forall (fun s => Nat.add_le_add (le_roundUp hB w) (le_roundUp hB s.length)) h.symm s hs
  have := le_roundUp hB w
  have := le_roundUp hB s.length
  exact ⟨(dvd_iff_roundUp hB).2 (by omega), (dvd_iff_roundUp hB).2 (by omega)⟩

/-- The unread part is `bs`, and the blocks end where it does. -/
structure Exact (ba : ByteArray) (B : Nat) (e : Endian) (bs : List UInt8) : Prop extends Unread ba B e bs where
  tight : ba.capacity = ba.size

section

variable {ba : ByteArray} {B : Nat} {e : Endian} {bs rest : List UInt8}

theorem Exact.at_block (h : Exact ba B e bs) : Aligned ba (ba.position / B) where
  toCursor := h.base ▸ h.inv.cursor
  aligned := h.base.symm ▸ h.aligned

theorem Exact.start (h : Exact ba B e bs) : ba.baseSize * (ba.position / B) = ba.position := by
  rw [h.base]
  exact Nat.mul_div_cancel' h.aligned

theorem Exact.append (h : Exact ba B e (bs ++ rest)) :
    slice ba.store ba.position bs.length = bs.map some ∧
      slice ba.store (ba.position + bs.length) rest.length = rest.map some := by
  have hsplit := slice_slice_append ba.store ba.position bs.length rest.length
  rw [← List.length_append, h.bytes, List.map_append] at hsplit
  have hsize := h.size
  have hroom := h.inv.size_le
  rw [List.length_append] at hsize
  exact List.append_inj hsplit (by rw [length_slice (by rw [h.inv.length_store]; omega), List.length_map])

/-- A read of whole blocks goes to the rest. -/
theorem Exact.behind (h : Exact ba B e (bs ++ rest)) (hd : B ∣ bs.length) :
    Exact (ba.behind (ba.position / B) bs.length) B e rest := by
  have hB : 1 ≤ B := h.base ▸ h.inv.base_pos
  have hpos : (ba.behind (ba.position / B) bs.length).position = ba.position + bs.length := by
    rw [h.at_block.behind_position, h.base, (dvd_iff_roundUp hB).1 hd]
  have hsize := h.size
  rw [List.length_append] at hsize
  have hle := h.inv.size_le
  have hcur := h.at_block.behind bs.length
  have hlink := h.inv.link_eq (v := ba.position + bs.length) (by omega)
  refine ⟨⟨⟨h.inv.base_pos, h.inv.blocks, h.inv.root, h.inv.capacity_eq, ?_, hle, ?_⟩, h.base,
    h.endian, ?_, ?_, ?_⟩, h.tight⟩
  · rw [hpos, behind_size]
    omega
  · rw [hpos, hcur.cur_eq, behind_baseSize]
    refine Eq.trans ?_ hlink
    congr 1
    obtain ⟨k, hk⟩ := h.aligned
    rw [h.base, hk, Nat.mul_add_div hB, Nat.mul_div_cancel_left _ hB]
  · rw [hpos]
    exact Nat.dvd_add h.aligned hd
  · rw [hpos, behind_size]
    omega
  · rw [hpos, behind_store]
    exact h.append.2

/-- The length is read as it was stored, as far as its width goes. -/
theorem Exact.read_header (h : Exact ba B e (header e w len ++ rest)) (host : Endian) (hw : 0 < w) :
    readFixed host ba w = .ok (some (BitVec.ofNat (8 * w) len), ba.behind (ba.position / B) w) := by
  have hsize := h.size
  have hcap := h.inv.size_le
  rw [List.length_append, length_header] at hsize
  have hstored := h.append.1
  rw [length_header] at hstored
  obtain ⟨-, hc⟩ := h.inv.cur_block (by omega)
  rw [h.base] at hc
  refine readFixed_stored host w ((h.at_block.read_iff w _ _).2 ⟨?_, hc, ?_, ?_, rfl⟩)
  · rw [getReadSize_eq h.inv]
    omega
  · rw [h.start, h.inv.length_store]
    omega
  · rw [h.start, hstored, behind_endian, h.endian]
    rfl

/-- One string: it comes back when its length does, unless it is empty and
nothing follows. -/
theorem Exact.readHeaded_iff {w : Nat} {s : List UInt8} (h : Exact ba B e (header e w s.length ++ (s ++ rest)))
    (host : Endian) (hw : 0 < w) (hdw : B ∣ w) (ba' : ByteArray) :
    readHeaded host w ba = .ok (some s, ba') ↔ s.length < 256 ^ w ∧ s ++ rest ≠ [] ∧
      ba' = (ba.behind (ba.position / B) w).behind ((ba.behind (ba.position / B) w).position / B) s.length := by
  have hB : 1 ≤ B := h.base ▸ h.inv.base_pos
  have hnext : Exact (ba.behind (ba.position / B) w) B e (s ++ rest) := by
    have := h.behind (by rwa [length_header])
    rwa [length_header] at this
  have hlen := h.read_header host hw
  generalize ba.behind (ba.position / B) w = ba₁ at hnext hlen ⊢
  have hsize := hnext.size
  have htight := hnext.tight
  have hround : (BitVec.ofNat (8 * w) s.length).toNat = s.length % 256 ^ w := by
    rw [BitVec.toNat_ofNat, Nat.pow_mul]
  constructor
  · intro hr
    obtain ⟨len, ba₂, hlen', hbuff⟩ := readString_iff.1 hr
    obtain ⟨rfl, rfl⟩ : BitVec.ofNat (8 * w) s.length = len ∧ ba₁ = ba₂ := by
      have := Except.ok.inj (hlen.symm.trans hlen')
      exact ⟨Option.some.inj (Prod.mk.inj this).1, (Prod.mk.inj this).2⟩
    obtain ⟨-, hc, hroom, hs, rfl⟩ := (hnext.at_block.readBuff_iff _ s ba').1 hbuff
    have hn : s.length = s.length % 256 ^ w := by
      have := congrArg List.length hs
      rw [length_slice hroom, List.length_map, hround] at this
      exact this.symm
    refine ⟨by rw [hn]; exact Nat.mod_lt _ (Nat.pow_pos (by decide)), ?_, by rw [hround, ← hn]⟩
    -- behind the last block there is no `m_cur` left to dereference
    rintro hnil
    rw [hnil, List.length_nil, Nat.add_zero] at hsize
    have hend := hnext.inv.capacity_eq
    rw [htight, hsize, hnext.base] at hend
    rw [hend, Nat.mul_div_cancel_left _ hB] at hc
    exact Nat.lt_irrefl _ hc
  · rintro ⟨hlt, hne, rfl⟩
    have hpos : 0 < (s ++ rest).length := List.length_pos_iff.2 hne
    have hle : s.length ≤ (s ++ rest).length := by simp
    obtain ⟨-, hc⟩ := hnext.inv.cur_block (by omega)
    rw [hnext.base] at hc
    refine readString_iff.2 ⟨_, _, hlen, ?_⟩
    rw [hround, Nat.mod_eq_of_lt hlt]
    refine (hnext.at_block.readBuff_iff _ s _).2 ⟨?_, hc, ?_, ?_, rfl⟩
    · rw [getReadSize_eq hnext.inv]
      omega
    · rw [hnext.start, hnext.inv.length_store]
      omega
    · rw [hnext.start]
      exact hnext.append.1

/-- From a block start on, with everything a whole number of blocks. -/
theorem Exact.feeds_iff {w : Nat} {vs : List (List UInt8)} (h : Exact ba B e (text e w vs)) (host : Endian)
    (hw : 0 < w) (hdw : B ∣ w) (hds : ∀ s ∈ vs, B ∣ s.length) :
    (∃ ba', Feeds (readHeaded host w) vs ba ba' ∧ ba'.getReadSize = 0) ↔
      (∀ s ∈ vs, s.length < 256 ^ w) ∧ vs.getLast? ≠ some [] := by
  induction vs generalizing ba with
  | nil =>
    have hsize := h.size
    rw [text_nil, List.length_nil] at hsize
    refine ⟨fun _ => ⟨by simp, by simp⟩, fun _ => ⟨ba, rfl, ?_⟩⟩
    rw [getReadSize_eq h.inv]
    omega
  | cons s vs ih =>
    obtain ⟨hd, hds⟩ := List.forall_mem_cons.1 hds
    rw [text_cons] at h
    have hstep := h.readHeaded_iff host hw hdw
    have hnext : Exact ((ba.behind (ba.position / B) w).behind
        ((ba.behind (ba.position / B) w).position / B) s.length) B e (text e w vs) := by
      have h₁ := h.behind (by rwa [length_header])
      rw [length_header] at h₁
      exact h₁.behind hd
    have hlast : (s ++ text e w vs ≠ [] ∧ vs.getLast? ≠ some []) ↔ (s :: vs).getLast? ≠ some [] := by
      cases vs with
      | nil => simp
      | cons t ts =>
        have hne : s ++ text e w (t :: ts) ≠ [] := by
          intro hnil
          have := congrArg List.length hnil
          rw [text_cons, List.length_append, List.length_append, length_header, List.length_nil] at this
          omega
        rw [List.getLast?_cons_cons]
        exact and_iff_right hne
    rw [List.forall_mem_cons, and_assoc, ← hlast]
    constructor
    · rintro ⟨ba', ⟨ba₁, hread, hrest⟩, hend⟩
      obtain ⟨hlt, hne, rfl⟩ := (hstep ba₁).1 hread
      obtain ⟨hall, hl⟩ := (ih hnext hds).1 ⟨ba', hrest, hend⟩
      exact ⟨hlt, hall, hne, hl⟩
    · rintro ⟨hlt, hall, hne, hl⟩
      obtain ⟨ba', hrest, hend⟩ := (ih hnext hds).2 ⟨hall, hl⟩
      exact ⟨ba', ⟨_, (hstep _).2 ⟨hlt, hne, rfl⟩, hrest⟩, hend⟩

end

/-! ## The round trip with fixed-width lengths -/

/-- The buffer after the writes, back at its start. -/
structure Rewound (ba : ByteArray) (B : Nat) (e : Endian) (bs : List UInt8) : Prop where
  inv : ba.Inv
  base : ba.baseSize = B
  endian : ba.endian = e
  position : ba.position = 0
  size : ba.size = bs.length
  capacity : ba.capacity = max B (roundUp B bs.length)
  bytes : slice ba.store 0 bs.length = bs.map some

theorem Packed.rewind {ba : ByteArray} {B : Nat} {e : Endian} {bs : List UInt8} (h : Packed ba B e bs) :
    ∃ ba₀, ba.setPosition 0 = .ok ba₀ ∧ Rewound ba₀ B e bs := by
  obtain ⟨ba₀, hset, hi, hb, he, hp, hs, hc, hst⟩ := setPosition_ok h.inv (Nat.zero_le _)
  refine ⟨ba₀, hset, hi, hb.trans h.base, he.trans h.endian, hp, ?_, hc.trans h.capacity, ?_⟩
  · rw [hs, h.size, Nat.max_zero]
  · rw [hst]
    exact h.bytes

/-- After the writes only the reading is left to say. -/
theorem stringsReadBack_iff {write : ByteArray → List UInt8 → Except Fault ByteArray} {w : Nat}
    (hwrite : ∀ ba s, write ba s = writeHeaded w ba s)
    (read : ByteArray → Except Fault (Option (List UInt8) × ByteArray)) {B : Nat} (hB : 1 ≤ B) (little : Bool)
    (vs : List (List UInt8)) :
    ∃ ba₀, Rewound ba₀ B (if little then .little else .big) (text (if little then .little else .big) w vs) ∧
      (StringsReadBack write read little B vs ↔ ∃ ba', Feeds read vs ba₀ ba' ∧ ba'.getReadSize = 0) := by
  obtain ⟨ba, hrun, hp⟩ := packed_writeHeaded (packed_new hB little) w vs
  rw [List.nil_append] at hp
  obtain ⟨ba₀, hset, hr⟩ := hp.rewind
  obtain rfl : write = writeHeaded w := funext fun ba => funext (hwrite ba)
  refine ⟨ba₀, hr, ?_, ?_⟩
  · rintro ⟨ba₁, ba₂, ba', h₁, h₂, hf, hend⟩
    obtain rfl := Except.ok.inj (hrun.symm.trans h₁)
    obtain rfl := Except.ok.inj (hset.symm.trans h₂)
    exact ⟨ba', hf, hend⟩
  · rintro ⟨ba', hf, hend⟩
    exact ⟨ba, ba₀, ba', hrun, hset, hf, hend⟩

theorem Rewound.aligned {ba : ByteArray} {B : Nat} {e : Endian} {bs : List UInt8} (h : Rewound ba B e bs) :
    Aligned ba 0 where
  toCursor := by
    have := h.inv.cursor
    rwa [h.position, Nat.zero_div] at this
  aligned := h.position.symm ▸ Nat.dvd_zero _

/-- Whole blocks, at least one: the chain ends with the text. -/
theorem Rewound.exact {ba : ByteArray} {B : Nat} {e : Endian} {bs : List UInt8} (h : Rewound ba B e bs)
    (hd : B ∣ bs.length) (hne : bs ≠ []) : Exact ba B e bs := by
  have hB : 1 ≤ B := h.base ▸ h.inv.base_pos
  refine ⟨⟨h.inv, h.base, h.endian, h.position.symm ▸ Nat.dvd_zero B, ?_, ?_⟩, ?_⟩
  · rw [h.size, h.position, Nat.zero_add]
  · rw [h.position]
    exact h.bytes
  · rw [h.capacity, h.size, (dvd_iff_roundUp hB).1 hd]
    exact max_eq_right (Nat.le_of_dvd (List.length_pos_iff.2 hne) hd)

/-- Nothing left to read, in the arithmetic of `size_t`, below `2^64`. -/
theorem position_of_readSize {ba : ByteArray} (hp : ba.position < 2 ^ 64) (h : ba.getReadSize = 0) :
    ba.position = ba.size := by
  rw [getReadSize, sizeSub] at h
  split at h <;> omega

theorem dvd_length_text {B w : Nat} (hw : B ∣ w) (e : Endian) {vs : List (List UInt8)}
    (hds : ∀ s ∈ vs, B ∣ s.length) : B ∣ (text e w vs).length := by
  induction vs with
  | nil => exact Nat.dvd_zero B
  | cons s vs ih =>
    obtain ⟨hd, hds⟩ := List.forall_mem_cons.1 hds
    rw [text_cons, List.length_append, List.length_append, length_header]
    exact Nat.dvd_add hw (Nat.dvd_add hd (ih hds))

/-- The pairs with a length of `w` bytes on both sides. -/
theorem headed_readBack {write : ByteArray → List UInt8 → Except Fault ByteArray}
    {read : ByteArray → Except Fault (Option (List UInt8) × ByteArray)} {host : Endian} {w : Nat} (hw : 0 < w)
    (hwrite : ∀ ba s, write ba s = writeHeaded w ba s) (hread : ∀ ba, read ba = readHeaded host w ba)
    {B : Nat} (hB : 1 ≤ B) (little : Bool) (vs : List (List UInt8)) :
    (vs = [] ∨ Fits w B vs → StringsReadBack write read little B vs) ∧
      (span B w vs < 2 ^ 64 → StringsReadBack write read little B vs → vs = [] ∨ Fits w B vs) := by
  obtain ⟨ba₀, hr, hiff⟩ := stringsReadBack_iff hwrite read hB little vs
  rw [hiff]
  obtain rfl : read = readHeaded host w := funext hread
  have htext : ∀ s us, vs = s :: us → text (if little then Endian.little else .big) w vs ≠ [] := by
    rintro s us rfl hnil
    have := congrArg List.length hnil
    rw [text_cons, List.length_append, length_header, List.length_nil] at this
    omega
  cases vs with
  | nil =>
    refine ⟨fun _ => ⟨ba₀, rfl, ?_⟩, fun _ _ => .inl rfl⟩
    rw [getReadSize_eq hr.inv, hr.size]
    exact Nat.zero_sub _
  | cons s us =>
    have hne := htext s us rfl
    constructor
    · rintro (h | hfits)
      · cases h
      · have hds := fun t ht => (hfits.lengths t ht).1
        exact ((hr.exact (dvd_length_text hfits.width _ hds) hne).feeds_iff host hw hfits.width hds).2
          ⟨fun t ht => (hfits.lengths t ht).2, hfits.last⟩
    · rintro hspan ⟨ba', hf, hend⟩
      obtain ⟨hframe, hpos⟩ := hr.aligned.feeds_span hf
      rw [hr.position, Nat.zero_add, hr.base] at hpos
      have hall := position_of_readSize (by rwa [hpos]) hend
      rw [hpos, hframe.size, hr.size, length_text] at hall
      have hdvd := dvd_of_span hB hall
      have hdw := (hdvd s List.mem_cons_self).1
      have hds := fun t ht => (hdvd t ht).2
      obtain ⟨hlt, hlast⟩ :=
        ((hr.exact (dvd_length_text hdw _ hds) hne).feeds_iff host hw hdw hds).1 ⟨ba', hf, hend⟩
      exact .inr ⟨hdw, fun t ht => ⟨hds t ht, hlt t ht⟩, hlast⟩

end Linko.ByteArray
