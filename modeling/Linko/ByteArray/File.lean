import Linko.ByteArray.Gather
import Linko.ByteArray.Fixed
/-!
# Saving to a file and loading it

`writeToFile` writes the readable bytes block by block, `readFromFile` reads
the file in pieces of its own block size. The stream is opened or not, and a
file is the list of its bytes.
-/

namespace Linko.ByteArray

open Blocks

/-! ## The functions -/

/-- The value of an `int` that a 64-bit number is assigned to. -/
def toInt (n : Int) : Int := Int.bmod n (2 ^ 32)

/-- `ofs.write(cur->ptr + diff, len)`: the bytes that go into the file. -/
def Node.dump (nd : Node) (diff len : Int) : Except Fault (List Cell) :=
  if 0 ≤ diff ∧ 0 ≤ len then nd.load diff.toNat len.toNat else .error .heapOverflow

/-- The loop of `writeToFile` over the nodes from `cur` on; `none` when it is
not over after `rounds` rounds. -/
def exportLoop (baseSize : Nat) : Nat → List Node → Int → Int → Except Fault (Option (List Cell))
  | 0, _, _, _ => .ok none
  | rounds + 1, nodes, pos, read_size =>
    if read_size > 0 then
      let diff := toInt (pos % baseSize)
      let len := if read_size + diff > baseSize then baseSize - diff else read_size
      match nodes with
      | [] => .error .nullDeref
      | nd :: next => do
        let bytes ← nd.dump diff len
        let rest ← exportLoop baseSize rounds (if len + diff = baseSize then next else nodes) (pos + len)
          (read_size - len)
        .ok (rest.map (bytes ++ ·))
    else .ok (some [])

/-- The nodes from a pointer on. -/
def chain (nodes : List Node) : Option Nat → List Node
  | none => []
  | some i => nodes.drop i

/-- `const`, so there is no state to return: what it reports, and what is in
the file. -/
def writeToFile (ba : ByteArray) (opened : Bool) : Except Fault (Option (Bool × List Cell)) :=
  if !opened then .ok (some (false, []))
  else do
    let file ← exportLoop ba.baseSize (ba.getReadSize + 1) (chain ba.nodes ba.cur) ba.position ba.getReadSize
    .ok (file.map (true, ·))

/-- A stream that is read to its end. -/
structure Ifs where
  rest : List UInt8
  eof : Bool

/-- `ifs.read(buff, n)`: the `gcount()` bytes it gets, and the end of file
noticed when there are fewer than `n`. -/
def Ifs.read (ifs : Ifs) (n : Nat) : List UInt8 × Ifs :=
  (ifs.rest.take n, ⟨ifs.rest.drop n, ifs.rest.length < n⟩)

/-- The loop of `readFromFile`; `none` when it is not over after `rounds`
rounds. -/
def importLoop : Nat → ByteArray → Ifs → Except Fault (Option ByteArray)
  | 0, _, _ => .ok none
  | rounds + 1, ba, ifs =>
    if ifs.eof then .ok (some ba)
    else do
      let (buff, ifs) := ifs.read ba.baseSize
      let ba ← ba.write buff
      importLoop rounds ba ifs

def readFromFile (ba : ByteArray) (opened : Bool) (file : List UInt8) :
    Except Fault (Option (Bool × ByteArray)) :=
  if !opened then .ok (some (false, ba))
  else do
    let ba ← importLoop (file.length + 2) ba ⟨file, false⟩
    .ok (ba.map (true, ·))

/-! ## Writing the file -/

theorem toInt_of_lt {n : Nat} (h : n < 2 ^ 31) : toInt n = n := by
  unfold toInt
  rw [Int.bmod_eq_of_le] <;> omega

theorem dump_eq {nd : Node} {npos n : Nat} (h : npos + n ≤ nd.ptr.length) :
    nd.dump npos n = .ok (slice nd.ptr npos n) := by
  rw [Node.dump, if_pos ⟨Int.natCast_nonneg _, Int.natCast_nonneg _⟩, Int.toNat_natCast,
    Int.toNat_natCast, load_ok h]

theorem exportLoop_done (B rounds : Nat) (nodes : List Node) (pos : Int) :
    exportLoop B (rounds + 1) nodes pos 0 = .ok (some []) := by
  rw [exportLoop, if_neg (by decide)]

/-- The position behind a whole block is a block start. -/
theorem block_end_mod {B : Nat} (hB : 1 ≤ B) (pos : Nat) : (pos + (B - pos % B)) % B = 0 := by
  have hmod := Nat.mod_lt pos hB
  have hdiv := Nat.div_add_mod pos B
  have hsum : pos + (B - pos % B) = B * (pos / B + 1) := by
    rw [Nat.mul_succ]
    omega
  rw [hsum, Nat.mul_mod_right]

/-- From offset `pos` of the storage on, the next `n` bytes. -/
theorem exportLoop_spec {B : Nat} (hB : 1 ≤ B) (hB' : B < 2 ^ 31) (nodes : List Node) (hf : Full B nodes)
    (rounds pos n : Nat) (hr : n < rounds) (hfit : pos % B + n ≤ B * nodes.length) :
    exportLoop B rounds nodes pos n = .ok (some (slice (flat nodes) (pos % B) n)) := by
  obtain ⟨rounds, rfl⟩ : ∃ r, rounds = r + 1 := ⟨rounds - 1, by omega⟩
  rcases Nat.eq_zero_or_pos n with rfl | hn
  · rw [slice_zero]
    exact exportLoop_done B rounds nodes pos
  induction nodes generalizing rounds pos n with
  | nil =>
    rw [List.length_nil, Nat.mul_zero] at hfit
    omega
  | cons nd next ih =>
    obtain ⟨⟨rfl, hp⟩, hfn⟩ := full_cons.1 hf
    have hmod := Nat.mod_lt pos hB
    have hrot : pos % nd.size ≤ nd.size := hmod.le
    have hdiff : toInt ((pos : Int) % (nd.size : Int)) = ((pos % nd.size : Nat) : Int) := by
      rw [← Int.natCast_emod]
      exact toInt_of_lt (hmod.trans hB')
    obtain ⟨rounds, rfl⟩ : ∃ r, rounds = r + 1 := ⟨rounds - 1, by omega⟩
    rw [exportLoop, if_pos (by omega)]
    simp only [hdiff]
    by_cases hlast : pos % nd.size + n ≤ nd.size
    · -- the last piece, which may end with its block
      have hdump := dump_eq (show pos % nd.size + n ≤ nd.ptr.length by omega)
      rw [if_neg (by omega), hdump, flat_cons, slice_append_left (by omega), Int.sub_self]
      simp only [exportLoop_done]
      show Except.ok (some (_ ++ [])) = _
      rw [List.append_nil]
    · -- the rest of the block, and the next one from its start
      have hdump := dump_eq (show pos % nd.size + (nd.size - pos % nd.size) ≤ nd.ptr.length by omega)
      have hstart := block_end_mod hB pos
      rw [List.length_cons, Nat.mul_succ] at hfit
      have hnext := ih hfn (pos + (nd.size - pos % nd.size)) (n - (nd.size - pos % nd.size))
        (by rw [hstart]; omega) rounds (by omega) (by omega)
      rw [Nat.cast_sub hrot] at hdump
      rw [hstart, Nat.cast_sub (by omega), Nat.cast_add, Nat.cast_sub hrot] at hnext
      rw [if_pos (by omega), if_pos (by omega), hdump, flat_cons, slice_append_cross (by omega) (by omega), hp]
      simp only [hnext]
      rfl

theorem writeToFile_ok {ba : ByteArray} (h : ba.Inv) (hB : ba.baseSize < 2 ^ 31) :
    ba.writeToFile true = .ok (some (true, slice ba.store ba.position (ba.size - ba.position))) := by
  have hle := h.position_le
  have hsize := h.size_le
  have hrs := getReadSize_eq h
  have hloop : exportLoop ba.baseSize (ba.getReadSize + 1) (chain ba.nodes ba.cur) ba.position ba.getReadSize =
      .ok (some (slice ba.store ba.position (ba.size - ba.position))) := by
    rw [hrs]
    by_cases hend : ba.position = ba.capacity
    · -- `m_cur` is null, and nothing is left to read
      obtain h0 : ba.size - ba.position = 0 := by omega
      rw [h0, exportLoop, if_neg (by decide), slice_zero]
    · obtain ⟨hcur, -⟩ := h.cur_block (by omega)
      have hdiv := Nat.div_add_mod ba.position ba.baseSize
      rw [hcur, chain, exportLoop_spec h.base_pos hB _ (h.full.drop _) _ _ _ (Nat.lt_succ_self _)
        (room_behind h (by omega)), h.full.flat_drop]
      simp only [slice, List.drop_drop, hdiv]
      rfl
  simp only [writeToFile, hloop]
  rfl

/-! ## Loading it -/

/-- Pieces of `B` bytes, the last one short and perhaps empty. -/
theorem importLoop_spec {B : Nat} (hB : 1 ≤ B) {e : Endian} (rounds : Nat) {ba : ByteArray} {bs : List UInt8}
    (h : Holds ba B e bs) (rest : List UInt8) (hr : rest.length + 2 ≤ rounds) :
    ∃ ba', importLoop rounds ba ⟨rest, false⟩ = .ok (some ba') ∧ Holds ba' B e (bs ++ rest) := by
  induction rounds generalizing ba bs rest with
  | zero => omega
  | succ rounds ih =>
    obtain ⟨ba₁, hw, h₁⟩ := holds_write h (rest.take B)
    by_cases hshort : rest.length < B
    · -- the short piece is the rest, and the end of the file is noticed
      obtain ⟨rounds, rfl⟩ : ∃ r, rounds = r + 1 := ⟨rounds - 1, by omega⟩
      refine ⟨ba₁, ?_, by rwa [List.take_of_length_le hshort.le] at h₁⟩
      simp only [importLoop, Ifs.read, h.base, hshort, hw, decide_true]
      rfl
    · obtain ⟨ba', hrun, h'⟩ := ih h₁ (rest.drop B) (by rw [List.length_drop]; omega)
      refine ⟨ba', ?_, by rwa [List.append_assoc, List.take_append_drop] at h'⟩
      rw [importLoop]
      simp only [Ifs.read, h.base, hshort, hw, decide_false]
      exact hrun

theorem readFromFile_ok {B : Nat} (hB : 1 ≤ B) (file : List UInt8) :
    ∃ ba', (new B).readFromFile true file = .ok (some (true, ba')) ∧ Holds ba' B .big file := by
  obtain ⟨ba', hrun, h⟩ := importLoop_spec hB (file.length + 2) (holds_new hB false) file le_rfl
  refine ⟨ba', ?_, h⟩
  have hrun' : importLoop (file.length + 2) (new B) ⟨file, false⟩ = .ok (some ba') := hrun
  simp only [readFromFile, hrun']
  rfl

/-- The file holds the bytes of `toString`, and loading it into blocks of any
size gives them back. -/
theorem file_roundTrip {B₁ B₂ : Nat} (h₁ : 1 ≤ B₁) (h₁' : B₁ < 2 ^ 31) (h₂ : 1 ≤ B₂) (ops : List WriteOp)
    {ba : ByteArray} (hr : runOps (new B₁) ops = .ok ba) (junk : Nat → UInt8) :
    ∃ str ba' ba'', ba.toString = .ok str ∧ ba.writeToFile true = .ok (some (true, str)) ∧
      (new B₂).readFromFile true (settle junk ba.position str) = .ok (some (true, ba')) ∧
      ba'.setPosition 0 = .ok ba'' ∧ ba''.toString = .ok ((settle junk ba.position str).map some) := by
  obtain ⟨hi, rfl⟩ := inv_of_runOps h₁ hr
  obtain ⟨ba', hread, hholds⟩ := readFromFile_ok h₂
    (settle junk ba.position (slice ba.store ba.position (ba.size - ba.position)))
  obtain ⟨ba'', hset, -, -, hstr⟩ := setPosition_toString hholds.inv (Nat.zero_le ba'.capacity)
  refine ⟨_, ba', ba'', toString_ok hi, writeToFile_ok hi h₁', hread, hset, ?_⟩
  rw [hstr, Nat.sub_zero, hholds.size, hholds.bytes]

/-- Three bytes from the middle of a block of two, loaded into a block of
three: the last piece is empty. -/
theorem file_roundTrip_cut :
    ∃ ba' ba'', (new 3).readFromFile true [2, 3, 4] = .ok (some (true, ba')) ∧ ba'.setPosition 0 = .ok ba'' ∧
      ba''.toString = .ok [some 2, some 3, some 4] := by
  have hrun : runOps (new 2) [.write [1, 2, 3, 4], .setPosition 1] =
      .ok ⟨2, 1, 4, 4, .big, [⟨[some 1, some 2], 2⟩, ⟨[some 3, some 4], 2⟩], some 0⟩ := by rfl
  obtain ⟨str, ba', ba'', hstr, -, hread, hset, hback⟩ :=
    @file_roundTrip 2 3 (by decide) (by decide) (by decide) _ _ hrun fun _ => 0
  obtain rfl := Except.ok.inj hstr
  exact ⟨ba', ba'', hread, hset, hback⟩

end Linko.ByteArray
