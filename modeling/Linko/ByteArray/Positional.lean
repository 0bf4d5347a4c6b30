import Linko.ByteArray.Cursor
import Linko.ByteArray.Gather
/-!
# Reading at a position of the caller's

`read(buf, size, position)` and `getReadBuffers(buffers, len, position)` leave
the cursor alone. The first takes its offset in the block from `position` but
the block from `m_cur`; the second finds the block from `m_root`, and goes
round in it. Both count what is left from `m_position`.
-/

namespace Linko.ByteArray

open Blocks

/-- `cur = cur->next`, `count` times. -/
def walkLoop : List Node → Nat → Except Fault (List Node)
  | nodes, 0 => .ok nodes
  | [], _ + 1 => .error .nullDeref
  | _ :: next, count + 1 => walkLoop next count

/-- `getReadBuffers(buffers, len, position) const`. -/
def getReadBuffersAt (ba : ByteArray) (len position : Nat) : Except Fault (Option (Nat × List IoVec)) :=
  let len := if len > ba.getReadSize then ba.getReadSize else len
  if len = 0 then .ok (some (0, []))
  else do
    let npos := position % ba.baseSize
    let count := position / ba.baseSize
    let cur ← walkLoop ba.nodes count
    match cur with
    | [] => .error .nullDeref
    | nd :: _ =>
      .ok ((readBuffersLoop count nd.size len npos (nd.size - npos) len).map fun iovs => (len, iovs))

/-! ## The bytes that the allocator left -/

/-- A block whose unset bytes are what the allocator left from offset `o` on. -/
def Node.filled (junk : Nat → UInt8) (o : Nat) (nd : Node) : Node :=
  { nd with ptr := (settle junk o nd.ptr).map some }

/-- The same state, every byte of the storage with its value. -/
def filled (junk : Nat → UInt8) (ba : ByteArray) : ByteArray :=
  { ba with nodes := ba.nodes.mapIdx fun i nd => nd.filled junk (i * ba.baseSize) }

theorem settle_append (junk : Nat → UInt8) (o : Nat) (xs ys : List Cell) :
    settle junk o (xs ++ ys) = settle junk o xs ++ settle junk (o + xs.length) ys := by
  unfold settle
  rw [List.mapIdx_append]
  congr 2
  funext i c
  rw [Nat.add_comm i, Nat.add_assoc]

theorem flat_filled {B : Nat} (junk : Nat → UInt8) (nodes : List Node) (hf : Full B nodes) (k : Nat) :
    flat (nodes.mapIdx fun i nd => nd.filled junk ((i + k) * B)) =
      (settle junk (k * B) (flat nodes)).map some := by
  induction nodes generalizing k with
  | nil => rfl
  | cons nd next ih =>
    obtain ⟨⟨-, hp⟩, hfn⟩ := full_cons.1 hf
    have hnext := ih hfn (k + 1)
    rw [List.mapIdx_cons, flat_cons, flat_cons, settle_append, List.map_append, hp, Nat.zero_add,
      ← Nat.succ_mul, ← hnext]
    congr 3
    funext i nd
    rw [Nat.add_right_comm, Nat.add_assoc]

section

variable {ba : ByteArray}

theorem filled_store (h : ba.Inv) (junk : Nat → UInt8) :
    (ba.filled junk).store = (settle junk 0 ba.store).map some := by
  have hflat := flat_filled junk ba.nodes h.full 0
  rw [Nat.zero_mul] at hflat
  exact hflat

theorem filled_inv (h : ba.Inv) (junk : Nat → UInt8) : (ba.filled junk).Inv := by
  have hlen : (ba.filled junk).nodes.length = ba.nodes.length := List.length_mapIdx
  refine ⟨h.base_pos, ?_, ?_, ?_, h.position_le, h.size_le, h.cur_eq⟩
  · intro nd hnd
    obtain ⟨i, hi, rfl⟩ := List.mem_mapIdx.1 hnd
    have hblock := h.blocks _ (List.getElem_mem hi)
    refine ⟨hblock.1, ?_⟩
    show ((settle _ _ _).map some).length = ba.baseSize
    rw [List.length_map, length_settle, hblock.2]
  · exact List.length_pos_iff.1 (hlen ▸ List.length_pos_iff.2 h.root)
  · rw [hlen]
    exact h.capacity_eq

/-- The bytes from offset `o` on. -/
theorem slice_filled (h : ba.Inv) (junk : Nat → UInt8) {o n : Nat} (hfit : o + n ≤ ba.store.length) :
    slice (ba.filled junk).store o n = ((List.range' o n).map (byteAt junk ba)).map some := by
  apply List.ext_getElem?
  intro j
  rw [getElem?_slice, filled_store h, List.getElem?_map, List.getElem?_map, List.getElem?_map]
  by_cases hj : j < n
  · have hlt : o + j < ba.store.length := by omega
    simp only [settle, List.getElem?_mapIdx, List.getElem?_range', hj, byteAt, Nat.zero_add, Nat.one_mul,
      List.getElem?_eq_getElem hlt, Option.map_some, Option.join_some, if_true]
  · rw [if_neg hj, List.getElem?_eq_none (by rw [List.length_range']; omega)]
    rfl

/-! ## What the two functions do -/

/-- `read` at `p` begins in the block of `m_cur`. -/
def readStart (ba : ByteArray) (p : Nat) : Nat :=
  ba.position / ba.baseSize * ba.baseSize + p % ba.baseSize

theorem readAt_eq (h : ba.Inv) (n p : Nat) :
    ba.readAt n p =
      if n > ba.size - ba.position then .error .outOfRange
      else if ba.position < ba.capacity ∧ ba.readStart p + n ≤ ba.capacity then
        .ok (slice ba.store (ba.readStart p) n)
      else .error .nullDeref := by
  have hle := h.position_le_capacity
  have hst : (flat ba.nodes).length = ba.capacity := h.length_store
  rw [readAt, getReadSize_eq h, readStart, Nat.mul_comm]
  split
  · rfl
  by_cases hend : ba.position < ba.capacity
  · obtain ⟨hcur, hlt⟩ := h.cur_block hend
    simp only [hcur, readLoop_eq h.base_pos h.full hlt (Nat.mod_lt p h.base_pos) n, hst, hend, true_and]
    split <;> rfl
  · rw [if_neg fun hc => hend hc.1, h.cur_eq, if_pos (Nat.le_antisymm hle (Nat.le_of_not_lt hend))]

theorem filled_readAt (h : ba.Inv) (junk : Nat → UInt8) (n p : Nat) :
    (ba.filled junk).readAt n p =
      if n > ba.size - ba.position then .error .outOfRange
      else if ba.position < ba.capacity ∧ ba.readStart p + n ≤ ba.capacity then
        .ok (((List.range' (ba.readStart p) n).map (byteAt junk ba)).map some)
      else .error .nullDeref := by
  have hread : (ba.filled junk).readAt n p =
      if n > ba.size - ba.position then .error .outOfRange
      else if ba.position < ba.capacity ∧ ba.readStart p + n ≤ ba.capacity then
        .ok (slice (ba.filled junk).store (ba.readStart p) n)
      else .error .nullDeref := readAt_eq (filled_inv h junk) n p
  rw [hread]
  by_cases hin : ba.position < ba.capacity ∧ ba.readStart p + n ≤ ba.capacity
  · rw [slice_filled h junk (by rw [h.length_store]; exact hin.2)]
  · rw [if_neg hin, if_neg hin]

theorem walkLoop_eq (nodes : List Node) {count : Nat} (h : count ≤ nodes.length) :
    walkLoop nodes count = .ok (nodes.drop count) := by
  induction nodes generalizing count with
  | nil =>
    obtain rfl := Nat.le_zero.1 h
    rfl
  | cons nd next ih =>
    cases count with
    | zero => rfl
    | succ count => exact ih (Nat.le_of_succ_le_succ h)

theorem getReadBuffersAt_len (h : ba.Inv) (n : Nat) :
    (if n > ba.getReadSize then ba.getReadSize else n) = min n (ba.size - ba.position) := by
  rw [getReadSize_eq h]
  split <;> omega

/-- The end of a full storage has no block. -/
theorem getReadBuffersAt_end (h : ba.Inv) {n p : Nat} (hm : min n (ba.size - ba.position) ≠ 0)
    (hp : p = ba.capacity) : ba.getReadBuffersAt n p = .error .nullDeref := by
  have hcount : p / ba.baseSize = ba.nodes.length := by
    rw [hp, h.capacity_eq, Nat.mul_div_cancel_left _ h.base_pos]
  unfold getReadBuffersAt
  simp only [getReadBuffersAt_len h, if_neg hm, hcount, walkLoop_eq _ (Nat.le_refl ba.nodes.length),
    List.drop_length]
  rfl

/-- Round and round in the block of `p`. -/
theorem getReadBuffersAt_round (h : ba.Inv) {n p : Nat} (hm : min n (ba.size - ba.position) ≠ 0)
    (hp : p < ba.capacity) :
    ∃ iovs, ba.getReadBuffersAt n p = .ok (some (min n (ba.size - ba.position), iovs)) ∧
      offsets ba.baseSize iovs = (List.range' (p % ba.baseSize) (min n (ba.size - ba.position))).map fun t =>
        p / ba.baseSize * ba.baseSize + t % ba.baseSize := by
  have hlt : p / ba.baseSize < ba.nodes.length := by
    rw [Nat.div_lt_iff_lt_mul h.base_pos, Nat.mul_comm, ← h.capacity_eq]
    exact hp
  have hnd := h.blocks _ (List.getElem_mem hlt)
  obtain ⟨iovs, hrun, -, -, hoff⟩ := readBuffersLoop_spec (i := p / ba.baseSize) (min n (ba.size - ba.position))
    (p % ba.baseSize) (min n (ba.size - ba.position)) (Nat.mod_lt p h.base_pos) le_rfl
  refine ⟨iovs, ?_, hoff⟩
  unfold getReadBuffersAt
  simp only [getReadBuffersAt_len h, if_neg hm, walkLoop_eq _ hlt.le, List.drop_eq_getElem_cons hlt]
  show Except.ok _ = _
  rw [hnd.1, hrun]
  rfl

/-! ## When they follow the position -/

/-- `read` at `p` returns the `n` bytes from there on, or throws when there
are not so many. -/
def ReadsAt (junk : Nat → UInt8) (ba : ByteArray) (n p : Nat) : Prop :=
  (ba.filled junk).readAt n p =
    if n ≤ ba.getSize - p then .ok (((List.range' p n).map (byteAt junk ba)).map some) else .error .outOfRange

/-- `getReadBuffers` at `p` hands out the bytes from there on. -/
def GathersAt (ba : ByteArray) (n p : Nat) : Prop :=
  ∃ iovs, ba.getReadBuffersAt n p = .ok (some (min n (ba.getSize - p), iovs)) ∧
    offsets ba.getBaseSize iovs = List.range' p (min n (ba.getSize - p))

/-- The bytes at `p` are looked for in the block of `m_cur`. -/
theorem readsAt_iff (h : ba.Inv) (junk : Nat → UInt8) (n p : Nat) :
    ReadsAt junk ba n p ↔
      if ba.size - ba.position < n then ba.size - p < n
      else n ≤ ba.size - p ∧ ba.position < ba.capacity ∧ ba.readStart p + n ≤ ba.capacity ∧
        ∀ k, k < n → byteAt junk ba (ba.readStart p + k) = byteAt junk ba (p + k) := by
  rw [ReadsAt, filled_readAt h, show ba.getSize = ba.size from rfl]
  by_cases hshort : ba.size - ba.position < n
  · rw [if_pos hshort, if_pos hshort, ← Nat.not_le]
    by_cases hn : n ≤ ba.size - p
    · simp [hn]
    · simp [hn]
  rw [if_neg hshort, if_neg hshort]
  by_cases hn : n ≤ ba.size - p
  · rw [if_pos hn]
    by_cases hin : ba.position < ba.capacity ∧ ba.readStart p + n ≤ ba.capacity
    · rw [if_pos hin, Except.ok.injEq, (List.map_injective_iff.2 (Option.some_injective _)).eq_iff]
      have hrange :
          (List.range' (ba.readStart p) n).map (byteAt junk ba) = (List.range' p n).map (byteAt junk ba) ↔
          ∀ k, k < n → byteAt junk ba (ba.readStart p + k) = byteAt junk ba (p + k) := by
        rw [List.range'_eq_map_range, List.range'_eq_map_range, List.map_map, List.map_map, List.map_inj_left]
        simp only [List.mem_range, Function.comp_apply]
      rw [hrange]
      exact ⟨fun hk => ⟨hn, hin.1, hin.2, hk⟩, fun hk => hk.2.2.2⟩
    · rw [if_neg hin]
      refine iff_of_false nofun ?_
      rintro ⟨-, hend, hfit, -⟩
      exact hin ⟨hend, hfit⟩
  · -- it had to throw
    rw [if_neg hn]
    refine iff_of_false ?_ fun hc => hn hc.1
    split <;> nofun

/-- Going round in the block of `p` follows the bytes from `p` on as long as
the block lasts. -/
theorem round_eq_range_iff {B : Nat} (hB : 1 ≤ B) (p m : Nat) :
    ((List.range' (p % B) m).map fun t => p / B * B + t % B) = List.range' p m ↔ p % B + m ≤ B := by
  have hmod := Nat.mod_lt p hB
  have hp : p / B * B + p % B = p := Nat.div_add_mod' p B
  have hfrom : List.range' p m = (List.range' (p % B) m).map fun t => p / B * B + t := by
    rw [List.map_add_range', hp]
  rw [hfrom, List.map_inj_left]
  constructor
  · intro hsame
    by_contra hlong
    have hat := hsame B (List.mem_range'_1.2 (by omega))
    rw [Nat.mod_self] at hat
    omega
  · intro hshort t ht
    rw [Nat.mod_eq_of_lt (by have := List.mem_range'_1.1 ht; omega)]

theorem gathersAt_of_eq {n p m : Nat} {iovs : List IoVec}
    (hget : ba.getReadBuffersAt n p = .ok (some (m, iovs))) :
    GathersAt ba n p ↔ m = min n (ba.size - p) ∧
      offsets ba.baseSize iovs = List.range' p (min n (ba.size - p)) := by
  rw [GathersAt, hget]
  constructor
  · rintro ⟨iovs', heq, hoff⟩
    simp only [Except.ok.injEq, Option.some.injEq, Prod.mk.injEq] at heq
    exact ⟨heq.1, heq.2 ▸ hoff⟩
  · rintro ⟨hlen, hoff⟩
    exact ⟨iovs, by rw [hlen]; rfl, hoff⟩

/-- The pieces are as long as they should be, and end with the block of `p`. -/
theorem gathersAt_iff (h : ba.Inv) (n : Nat) {p : Nat} (hp : p ≤ ba.size) :
    GathersAt ba n p ↔ min n (ba.size - ba.position) = min n (ba.size - p) ∧
      p % ba.baseSize + min n (ba.size - p) ≤ ba.baseSize := by
  have hsize := h.size_le
  have hmod := Nat.mod_lt p h.base_pos
  by_cases hm : min n (ba.size - ba.position) = 0
  · have hget : ba.getReadBuffersAt n p = .ok (some (0, [])) := by
      simp only [getReadBuffersAt, getReadBuffersAt_len h, hm, if_true]
    rw [gathersAt_of_eq hget, hm]
    refine and_congr_right fun hw => iff_of_true ?_ (by omega)
    rw [← hw]
    rfl
  by_cases hend : p = ba.capacity
  · rw [GathersAt, getReadBuffersAt_end h hm hend]
    refine iff_of_false (by rintro ⟨iovs, hc, -⟩; cases hc) ?_
    rintro ⟨hw, -⟩
    omega
  · obtain ⟨iovs, hget, hoff⟩ := getReadBuffersAt_round h hm (p := p) (by omega)
    rw [gathersAt_of_eq hget]
    refine and_congr_right fun hlen => ?_
    rw [hoff, ← hlen, round_eq_range_iff h.base_pos]

/-- The block of `m_cur` lies inside the storage. -/
theorem readStart_fits (h : ba.Inv) {n p : Nat} (hend : ba.position < ba.capacity)
    (hblock : p % ba.baseSize + n ≤ ba.baseSize) : ba.readStart p + n ≤ ba.capacity := by
  obtain ⟨-, hlt⟩ := h.cur_block hend
  have hblocks := Nat.mul_le_mul_right ba.baseSize (Nat.succ_le_of_lt hlt)
  rw [Nat.succ_mul, Nat.mul_comm ba.nodes.length, ← h.capacity_eq] at hblocks
  unfold readStart
  omega

end

/-- When both functions do what their position says: the bytes asked for lie in
one block, and, if there are as many behind the cursor, they are also those at
the same place in the block of the cursor; if there are not, the position is
the cursor's own. -/
theorem positional_iff {B : Nat} (hB : 1 ≤ B) (ops : List WriteOp) {ba : ByteArray}
    (hr : runOps (new B) ops = .ok ba) (junk : Nat → UInt8) (n : Nat) {p : Nat} (hp : p ≤ ba.getSize) :
    ReadsAt junk ba n p ∧ GathersAt ba n p ↔
      p % B + min n (ba.getSize - p) ≤ B ∧
        if ba.getReadSize < n then p = ba.getPosition
        else n ≤ ba.getSize - p ∧ ba.position < ba.capacity ∧
          ∀ k, k < n → byteAt junk ba (ba.position / B * B + p % B + k) = byteAt junk ba (p + k) := by
  obtain ⟨hi, rfl⟩ := inv_of_runOps hB hr
  have hle := hi.position_le
  replace hp : p ≤ ba.size := hp
  rw [readsAt_iff hi, gathersAt_iff hi n hp, getReadSize_eq hi, show ba.getSize = ba.size from rfl,
    show ba.getPosition = ba.position from rfl]
  by_cases hshort : ba.size - ba.position < n
  · rw [if_pos hshort, if_pos hshort]
    omega
  · rw [if_neg hshort, if_neg hshort]
    constructor
    · rintro ⟨⟨hn, hend, -, hbytes⟩, -, hblock⟩
      exact ⟨hblock, hn, hend, hbytes⟩
    · rintro ⟨hblock, hn, hend, hbytes⟩
      have hmin : min n (ba.size - p) = n := min_eq_left hn
      refine ⟨⟨hn, hend, readStart_fits hi hend (by rwa [hmin] at hblock), hbytes⟩, ?_, hblock⟩
      omega

/-- The second byte of a block of two, with the cursor in front of it. -/
theorem positional_iff_block :
    ReadsAt (fun _ => 0) ⟨2, 0, 4, 3, .big, [⟨[some 1, some 2], 2⟩, ⟨[some 3, none], 2⟩], some 0⟩ 1 1 ∧
      GathersAt ⟨2, 0, 4, 3, .big, [⟨[some 1, some 2], 2⟩, ⟨[some 3, none], 2⟩], some 0⟩ 1 1 := by
  refine (positional_iff (B := 2) (by decide) [.write [1, 2, 3], .setPosition 0] (by rfl) _ 1 (by decide)).2 ?_
  decide

/-- Three bytes in blocks of two, the cursor at the front: `read` at 2 returns
the first byte. -/
theorem not_positional :
    ¬ ∀ (B : Nat) (ops : List WriteOp) (ba : ByteArray) (junk : Nat → UInt8) (n p : Nat), 1 ≤ B →
      runOps (new B) ops = .ok ba → p ≤ ba.getSize → ReadsAt junk ba n p ∧ GathersAt ba n p := by
  intro h
  obtain ⟨hread, -⟩ := h 2 [.write [1, 2, 3], .setPosition 0]
    ⟨2, 0, 4, 3, .big, [⟨[some 1, some 2], 2⟩, ⟨[some 3, none], 2⟩], some 0⟩ (fun _ => 0) 1 2
      (by decide) (by rfl)
    (by decide)
  revert hread
  unfold ReadsAt
  decide

end Linko.ByteArray
