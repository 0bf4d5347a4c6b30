import Linko.ByteArray.FlatBuffer
/-!
# Programs that write and read

A `read` that ends inside a block leaves the position at the end of that block
and `m_cur` at the bytes: the cursor is lost. A program that then sets the
position, or starts over, before it uses the cursor cannot tell the block list
from a flat buffer.
-/

namespace Linko.ByteArray

open Blocks

inductive Op where
  | call (op : WriteOp)
  | read (size : Nat)
  | toString

inductive Reply where
  | done
  | bytes (cells : List Cell)
  | outOfRange
  deriving DecidableEq, Repr

/-- Whether the call has thrown. -/
def WriteOp.reply (ba : ByteArray) : WriteOp → Reply
  | .setPosition v =>
    match ba.setPosition v with
    | .error .outOfRange => .outOfRange
    | _ => .done
  | _ => .done

/-- One call. The caller catches `std::out_of_range`. -/
def Op.apply (ba : ByteArray) : Op → Except Fault (ByteArray × Reply)
  | .call op => do
    let ba' ← op.apply ba
    .ok (ba', op.reply ba)
  | .read size =>
    match ba.read size with
    | .ok (cells, ba) => .ok (ba, .bytes cells)
    | .error .outOfRange => .ok (ba, .outOfRange)
    | .error e => .error e
  | .toString => do
    let cells ← ba.toString
    .ok (ba, .bytes cells)

def run (ba : ByteArray) : List Op → Except Fault (ByteArray × List Reply)
  | [] => .ok (ba, [])
  | op :: ops => do
    let (ba, r) ← op.apply ba
    let (ba, rs) ← run ba ops
    .ok (ba, r :: rs)

/-! ## On the flat buffer -/

namespace FlatBuffer

/-- The position behind a `read`. -/
def skip (f : FlatBuffer) (n : Nat) : FlatBuffer :=
  { f with position := if n = 0 then f.position else roundUp f.baseSize (f.position + n) }

/-- The `n` bytes at the position, as far as they have been written. -/
def Shows (f : FlatBuffer) (n : Nat) (r : Reply) : Prop :=
  ∃ cells, r = .bytes cells ∧ cells.length = n ∧
    ∀ i b, i < n → f.mem (f.position + i) = some b → cells[i]? = some (some b)

end FlatBuffer

/-- A flat buffer whose cursor may be lost. -/
structure Flat where
  buffer : FlatBuffer
  lost : Bool

namespace Flat

variable (t : Flat)

def fresh (B : Nat) : Flat := ⟨FlatBuffer.fresh B, false⟩

/-- With a lost cursor only `setPosition` and `clear` may be called. And even
for no bytes `read` looks at the block of the cursor. -/
def Allows : Op → Prop
  | .call (.setPosition _) | .call .clear => True
  | .read n => t.lost = false ∧ (n = 0 → t.buffer.position < t.buffer.capacity)
  | _ => t.lost = false

def next : Op → Flat
  | .call (.setPosition v) => ⟨t.buffer.setPosition v, t.lost && decide (t.buffer.capacity < v)⟩
  | .call op => ⟨op.onFlat t.buffer, false⟩
  | .read n =>
    if t.buffer.size - t.buffer.position < n then t
    else ⟨t.buffer.skip n, decide ((t.buffer.skip n).position ≠ t.buffer.position + n)⟩
  | .toString => t

def Answers : Op → Reply → Prop
  | .call (.setPosition v), r => r = if t.buffer.capacity < v then .outOfRange else .done
  | .call _, r => r = .done
  | .read n, r =>
    if t.buffer.size - t.buffer.position < n then r = .outOfRange else t.buffer.Shows n r
  | .toString, r => t.buffer.Shows (t.buffer.size - t.buffer.position) r

/-- Every call of the program is allowed where it is made. -/
def Careful (t : Flat) : List Op → Prop
  | [] => True
  | op :: ops => t.Allows op ∧ Careful (t.next op) ops

def Replies (t : Flat) : List Op → List Reply → Prop
  | [], rs => rs = []
  | op :: ops, rs => ∃ r rs', rs = r :: rs' ∧ t.Answers op r ∧ Replies (t.next op) ops rs'

end Flat

/-! ## A lost cursor -/

/-- The object with another cursor. -/
def withCursor (ba : ByteArray) (p : Nat) (cur : Option Nat) : ByteArray := { ba with position := p, cur := cur }

theorem setPosition_withCursor (ba : ByteArray) (p : Nat) (cur : Option Nat) (v : Nat) :
    (ba.withCursor p cur).setPosition v = ba.setPosition v := rfl

/-- `setPosition` finds the block of any position, wherever the cursor was. -/
theorem setPosition_anywhere {ba : ByteArray} {p : Nat} {cur : Option Nat} (h : (ba.withCursor p cur).Inv) {v : Nat}
    (hv : v ≤ ba.capacity) :
    ∃ ba', ba.setPosition v = .ok ba' ∧ ba'.Inv ∧ ba'.baseSize = ba.baseSize ∧ ba'.endian = ba.endian ∧
      ba'.position = v ∧ ba'.size = max ba.size v ∧ ba'.capacity = ba.capacity ∧ ba'.store = ba.store :=
  setPosition_ok h hv

/-- A lost cursor is all that keeps `ba` from refining the flat buffer. -/
structure Stands (t : Flat) (ba : ByteArray) : Prop where
  position : ba.position = t.buffer.position
  placed : t.lost = false → Refines ba t.buffer
  behind : ∃ p cur, Refines (ba.withCursor p cur) { t.buffer with position := p }

namespace Stands

variable {t : Flat} {ba : ByteArray}

theorem of_refines {f : FlatBuffer} (h : Refines ba f) : Stands ⟨f, false⟩ ba where
  position := h.position
  placed _ := h
  behind := by
    refine ⟨ba.position, ba.cur, ?_⟩
    have hf : { f with position := ba.position } = f := by rw [h.position]
    rw [hf]
    exact h

theorem size (h : Stands t ba) : ba.size = t.buffer.size := by
  obtain ⟨p, cur, hr⟩ := h.behind
  exact hr.size

theorem capacity (h : Stands t ba) : ba.capacity = t.buffer.capacity := by
  obtain ⟨p, cur, hr⟩ := h.behind
  exact hr.capacity

/-- `setPosition` puts a lost cursor back, unless it throws. -/
theorem setPosition (h : Stands t ba) (v : Nat) :
    ∃ ba' r, Op.apply ba (.call (.setPosition v)) = .ok (ba', r) ∧
      t.Answers (.call (.setPosition v)) r ∧ Stands (t.next (.call (.setPosition v))) ba' := by
  have hcap := h.capacity
  obtain ⟨p, cur, hr⟩ := h.behind
  unfold Flat.Answers Flat.next
  dsimp only
  by_cases hv : t.buffer.capacity < v
  · have hset : ba.setPosition v = .error .outOfRange := if_pos (by omega)
    have hsame : t.buffer.setPosition v = t.buffer := if_pos hv
    refine ⟨ba, .outOfRange, ?_, (if_pos hv).symm, ?_⟩
    · simp only [Op.apply, WriteOp.apply, WriteOp.reply, hset]
      rfl
    · rw [hsame, decide_eq_true hv, Bool.and_true]
      exact h
  · obtain ⟨ba', hset, -⟩ := setPosition_anywhere hr.inv (v := v) (by omega)
    obtain ⟨ba₁, happly, hrefines⟩ := refines_setPosition hr v
    obtain rfl : ba' = ba₁ := by
      simp only [WriteOp.apply, setPosition_withCursor, hset, Except.ok.injEq] at happly
      exact happly
    have hflat : ({ t.buffer with position := p } : FlatBuffer).setPosition v = t.buffer.setPosition v := by
      rw [FlatBuffer.setPosition, FlatBuffer.setPosition, if_neg hv, if_neg hv]
    rw [hflat] at hrefines
    refine ⟨ba', .done, ?_, (if_neg hv).symm, ?_⟩
    · simp only [Op.apply, WriteOp.apply, WriteOp.reply, hset]
      rfl
    · rw [decide_eq_false hv, Bool.and_false]
      exact of_refines hrefines

theorem clear (h : Stands t ba) :
    ∃ ba' r, Op.apply ba (.call .clear) = .ok (ba', r) ∧ t.Answers (.call .clear) r ∧
      Stands (t.next (.call .clear)) ba' := by
  obtain ⟨p, cur, hr⟩ := h.behind
  have hclear := refines_clear hr
  exact ⟨ba.clear, .done, rfl, rfl, of_refines hclear⟩

/-- With the cursor in its place every call is one of the flat buffer. -/
theorem call (h : Stands t ba) (hplaced : t.lost = false) {op : WriteOp} (hop : ∀ v, op ≠ .setPosition v) :
    ∃ ba' r, Op.apply ba (.call op) = .ok (ba', r) ∧ t.Answers (.call op) r ∧ Stands (t.next (.call op)) ba' := by
  obtain ⟨ba', happly, hrefines⟩ := refines_apply (h.placed hplaced) op
  have hok : Op.apply ba (.call op) = .ok (ba', op.reply ba) := by
    rw [Op.apply, happly]
    rfl
  cases op with
  | setPosition v => exact absurd rfl (hop v)
  | write buf => exact ⟨ba', .done, hok, rfl, of_refines hrefines⟩
  | clear => exact ⟨ba', .done, hok, rfl, of_refines hrefines⟩
  | getWriteBuffers len => exact ⟨ba', .done, hok, rfl, of_refines hrefines⟩

end Stands

/-- The bytes of a slice of the storage, as far as they have been written. -/
theorem shows_slice {ba : ByteArray} {f : FlatBuffer} (h : Refines ba f) {n : Nat}
    (hn : f.position + n ≤ f.size) : f.Shows n (.bytes (slice ba.store ba.position n)) := by
  have hsize := h.size
  have hcap := h.capacity
  have hle := h.inv.size_le
  refine ⟨_, rfl, ?_, ?_⟩
  · rw [length_slice]
    rw [h.inv.length_store, h.position]
    omega
  · intro i b hi hm
    rw [getElem?_slice, if_pos hi, h.position]
    exact h.mem _ _ hm

/-- Where the position and `m_cur` are behind a `read`. -/
theorem read_skip {ba : ByteArray} (h : ba.Inv) {n : Nat} (hn : 0 < n) (hfit : ba.position + n ≤ ba.size) :
    ba.read n = .ok (slice ba.store ba.position n,
      ba.withCursor (roundUp ba.baseSize (ba.position + n)) (link ba.nodes ((ba.position + n) / ba.baseSize))) := by
  have hB := h.base_pos
  have hdiv := Nat.div_add_mod ba.position ba.baseSize
  have hround := add_roundUp hB (ba.position / ba.baseSize) (ba.position % ba.baseSize + n)
  have hle := le_roundUp hB (ba.position % ba.baseSize + n)
  have hmove : ba.position + advance ba.baseSize (ba.position % ba.baseSize) n =
      roundUp ba.baseSize (ba.position + n) := by
    rw [← Nat.add_assoc, hdiv] at hround
    rw [advance, if_neg (by omega)]
    omega
  rw [read_ok h hn hfit, hmove]
  rfl

/-- A `read` of no bytes needs a block to look at. -/
theorem read_zero {ba : ByteArray} (h : ba.Inv) (hlt : ba.position < ba.capacity) : ba.read 0 = .ok ([], ba) := by
  obtain ⟨hcur, hblock⟩ := h.cur_block hlt
  have hlink : link ba.nodes (ba.position / ba.baseSize) = some (ba.position / ba.baseSize) := if_pos hblock
  have hloop : readLoop (ba.nodes.drop (ba.position / ba.baseSize)) (ba.position % ba.baseSize) 0 = .ok ([], 0, 0) := by
    rw [List.drop_eq_getElem_cons hblock, readLoop]
    rfl
  rw [read, if_neg (Nat.not_lt_zero _), hcur]
  simp only [hloop]
  show Except.ok ([], { ba with cur := link ba.nodes (ba.position / ba.baseSize), position := ba.position }) = _
  rw [hlink, ← hcur]

theorem skip_position {ba : ByteArray} {f : FlatBuffer} (h : Refines ba f) {n : Nat} (hn : 0 < n) :
    (f.skip n).position = roundUp ba.baseSize (ba.position + n) := by
  rw [FlatBuffer.skip, h.base, h.position]
  exact if_neg (by omega)

/-- A `read` that ends at a block end leaves the cursor in its place. -/
theorem refines_skip {ba : ByteArray} {f : FlatBuffer} (h : Refines ba f) {n : Nat} (hn : 0 < n)
    (hfit : ba.position + n ≤ ba.size) (hend : roundUp ba.baseSize (ba.position + n) = ba.position + n) :
    Refines (ba.withCursor (roundUp ba.baseSize (ba.position + n)) (link ba.nodes ((ba.position + n) / ba.baseSize)))
      (f.skip n) := by
  have hle := hfit.trans h.inv.size_le
  refine ⟨?_, h.base, (skip_position h hn).symm, h.size, h.capacity, h.mem⟩
  rw [hend]
  exact ⟨h.inv.base_pos, h.inv.blocks, h.inv.root, h.inv.capacity_eq, hfit, h.inv.size_le, h.inv.link_eq hle⟩

namespace Stands

variable {t : Flat} {ba : ByteArray}

/-- `read` returns the bytes at the cursor, and may lose it. -/
theorem read (h : Stands t ba) {n : Nat} (ha : t.Allows (.read n)) :
    ∃ ba' r, Op.apply ba (.read n) = .ok (ba', r) ∧ t.Answers (.read n) r ∧ Stands (t.next (.read n)) ba' := by
  obtain ⟨hplaced, hroom⟩ := ha
  have hr := h.placed hplaced
  have hi := hr.inv
  have hle := hi.position_le
  have hread := getReadSize_eq hi
  rw [hr.size, hr.position] at hread hle
  unfold Flat.Answers Flat.next
  dsimp only
  by_cases hshort : t.buffer.size - t.buffer.position < n
  · simp only [if_pos hshort]
    have hthrow : ba.read n = .error .outOfRange := if_pos (by omega)
    exact ⟨ba, .outOfRange, by simp only [Op.apply, hthrow], rfl, h⟩
  · simp only [if_neg hshort]
    rcases Nat.eq_zero_or_pos n with rfl | hn
    · have hzero := read_zero hi (by rw [hr.position, hr.capacity]; exact hroom rfl)
      refine ⟨ba, .bytes [], by simp only [Op.apply, hzero], ⟨[], rfl, rfl, nofun⟩, ?_⟩
      have hstay : t.buffer.skip 0 = t.buffer := rfl
      rw [hstay, decide_eq_false (by simp)]
      exact of_refines hr
    · have hfit : ba.position + n ≤ ba.size := by
        rw [hr.position, hr.size]
        omega
      have hok := read_skip hi hn hfit
      refine ⟨_, _, by rw [Op.apply, hok], shows_slice hr (by omega), ?_⟩
      have hskip := skip_position hr hn
      refine ⟨hskip.symm, ?_, ba.position, ba.cur, ?_⟩
      · intro hend
        rw [decide_eq_false_iff_not, not_not, hskip, ← hr.position] at hend
        exact refines_skip hr hn hfit hend
      · have hback : ({ t.buffer.skip n with position := ba.position } : FlatBuffer) = t.buffer := by
          rw [hr.position]
          rfl
        rw [hback]
        exact hr

/-- One call that the flat buffer allows. -/
theorem apply (h : Stands t ba) {op : Op} (ha : t.Allows op) :
    ∃ ba' r, op.apply ba = .ok (ba', r) ∧ t.Answers op r ∧ Stands (t.next op) ba' := by
  cases op with
  | read n => exact h.read ha
  | toString =>
    have hr := h.placed ha
    have hle := hr.inv.position_le
    have hsize := hr.size
    have hposition := hr.position
    have hok := toString_ok hr.inv
    have hn : t.buffer.size - t.buffer.position = ba.size - ba.position := by rw [hsize, hposition]
    refine ⟨ba, _, by rw [Op.apply, hok]; rfl, ?_, h⟩
    rw [Flat.Answers, hn]
    exact shows_slice hr (by omega)
  | call op =>
    cases op with
    | setPosition v => exact h.setPosition v
    | clear => exact h.clear
    | write buf => exact h.call ha nofun
    | getWriteBuffers len => exact h.call ha nofun

theorem run (h : Stands t ba) {ops : List Op} (hcareful : t.Careful ops) :
    ∃ ba' rs, ByteArray.run ba ops = .ok (ba', rs) ∧ t.Replies ops rs ∧ Stands (ops.foldl Flat.next t) ba' := by
  induction ops generalizing t ba with
  | nil => exact ⟨ba, [], rfl, rfl, h⟩
  | cons op ops ih =>
    obtain ⟨hallowed, hrest⟩ := hcareful
    obtain ⟨ba₁, r, happly, hanswer, hstands⟩ := h.apply hallowed
    obtain ⟨ba', rs, hrun, hreplies, hend⟩ := ih hstands hrest
    refine ⟨ba', r :: rs, ?_, ⟨r, rs, rfl, hanswer, hreplies⟩, hend⟩
    rw [ByteArray.run, happly]
    show (ByteArray.run ba₁ ops >>= _) = _
    rw [hrun]
    rfl

end Stands

/-- A record that is read field by field, the position set before each. -/
def fields : List Op :=
  [.call (.write [1, 2, 3, 4, 5]), .call (.setPosition 0), .read 1, .call (.setPosition 1), .read 3,
    .call (.setPosition 4), .read 2, .read 1, .call (.setPosition 5), .call (.write [6])]

end Linko.ByteArray
