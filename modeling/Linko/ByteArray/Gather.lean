import Linko.ByteArray.Scatter
/-!
# Writing to a socket from the blocks

`SocketStream::write` sends the pieces that `getReadBuffers` collects. The loop
of `getReadBuffers` never goes on to the next block: behind the end of the
current block it starts again at the beginning of the same block.
-/

namespace Linko.ByteArray

open Blocks

/-- The loop of `getReadBuffers` in block number `i` of `size` bytes, which
`cur` points to all the time; `none` when it is not over after `rounds` rounds. -/
def readBuffersLoop (i size : Nat) : Nat → Nat → Nat → Nat → Option (List IoVec)
  | _, _, _, 0 => some []
  | 0, _, _, _ + 1 => none
  | rounds + 1, npos, ncap, len + 1 =>
    if ncap ≥ len + 1 then some [⟨i, npos, len + 1⟩]
    else (readBuffersLoop i size rounds 0 size (len + 1 - ncap)).map (⟨i, npos, ncap⟩ :: ·)

def getReadBuffers (ba : ByteArray) (len : Nat) : Except Fault (Option (Nat × List IoVec)) :=
  let len := if len > ba.getReadSize then ba.getReadSize else len
  if len = 0 then .ok (some (0, []))
  else
    match ba.cur with
    | none => .error .nullDeref
    | some i =>
      match ba.nodes[i]? with
      | none => .error .nullDeref
      | some nd =>
        let npos := ba.position % ba.baseSize
        .ok ((readBuffersLoop i nd.size len npos (nd.size - npos) len).map fun iovs => (len, iovs))

/-! ## The bytes of the storage -/

/-- The byte at an offset, where `junk` is what the allocator left in the
blocks. -/
def byteAt (junk : Nat → UInt8) (ba : ByteArray) (o : Nat) : UInt8 := ba.store[o]?.join.getD (junk o)

/-- The bytes of cells that were copied from offset `o` on. -/
def settle (junk : Nat → UInt8) (o : Nat) (cells : List Cell) : List UInt8 :=
  cells.mapIdx fun i c => c.getD (junk (o + i))

/-- What `writev` sends. -/
def gathered (junk : Nat → UInt8) (ba : ByteArray) : List IoVec → Except Fault (List UInt8)
  | [] => .ok []
  | v :: iovs =>
    match ba.nodes[v.node]? with
    | none => .error .heapOverflow
    | some nd => do
      let cells ← nd.load v.base v.len
      let rest ← gathered junk ba iovs
      .ok (settle junk (v.offset ba.baseSize) cells ++ rest)

@[simp] theorem length_settle (junk : Nat → UInt8) (o : Nat) (cells : List Cell) :
    (settle junk o cells).length = cells.length := by simp [settle]

theorem settle_slice (junk : Nat → UInt8) (ba : ByteArray) {o n : Nat} (h : o + n ≤ ba.store.length) :
    settle junk o (slice ba.store o n) = (List.range' o n).map (byteAt junk ba) := by
  apply List.ext_getElem
  · simp [settle, length_slice h]
  · intro j h₁ h₂
    have hj : j < n := by simpa [settle, length_slice h] using h₁
    have hget : ba.store[o + j]? = some ba.store[o + j] := List.getElem?_eq_getElem (by omega)
    have hcell : (slice ba.store o n)[j]? = ba.store[o + j]? := by rw [getElem?_slice, if_pos hj]
    have hj' : j < (slice ba.store o n).length := by rw [length_slice h]; exact hj
    rw [List.getElem?_eq_getElem hj', hget, Option.some.injEq] at hcell
    simp only [settle, List.getElem_mapIdx, List.getElem_map, List.getElem_range', byteAt, hcell,
      Nat.one_mul, hget, Option.join_some]

/-- The cells of a piece are those of the storage at its offset. -/
theorem load_piece {ba : ByteArray} (h : ba.Inv) {v : IoVec} (hn : v.node < ba.nodes.length)
    (hb : v.base + v.len ≤ ba.baseSize) :
    ∃ nd, ba.nodes[v.node]? = some nd ∧
      nd.load v.base v.len = .ok (slice ba.store (v.offset ba.baseSize) v.len) ∧
      v.offset ba.baseSize + v.len ≤ ba.store.length := by
  have hnd := h.blocks _ (List.getElem_mem hn)
  have hdrop := h.full.flat_drop v.node
  rw [List.drop_eq_getElem_cons hn, flat_cons] at hdrop
  refine ⟨ba.nodes[v.node], List.getElem?_eq_getElem hn, ?_, ?_⟩
  · rw [load_ok (by omega)]
    congr 1
    rw [← slice_append_left (r := flat (ba.nodes.drop (v.node + 1))) (by omega), hdrop]
    unfold slice IoVec.offset
    rw [List.drop_drop, Nat.mul_comm]
    rfl
  · rw [h.length_store, h.capacity_eq]
    have := Nat.mul_le_mul_right ba.baseSize (Nat.succ_le_of_lt hn)
    rw [Nat.succ_mul, Nat.mul_comm ba.nodes.length] at this
    unfold IoVec.offset
    omega

/-- What `writev` sends, byte by byte. -/
theorem gathered_eq (junk : Nat → UInt8) {ba : ByteArray} (h : ba.Inv) {iovs : List IoVec}
    (hin : ∀ v ∈ iovs, v.node < ba.nodes.length ∧ v.base + v.len ≤ ba.baseSize) :
    gathered junk ba iovs = .ok ((offsets ba.baseSize iovs).map (byteAt junk ba)) := by
  induction iovs with
  | nil => rfl
  | cons v iovs ih =>
    obtain ⟨hn, hb⟩ := hin v List.mem_cons_self
    obtain ⟨nd, hnd, hload, hlen⟩ := load_piece h hn hb
    have hrest := ih fun w hw => hin w (List.mem_cons_of_mem _ hw)
    simp only [gathered, hnd, hload, hrest, offsets, List.flatMap_cons, List.map_append]
    rw [← settle_slice junk ba hlen]
    rfl

theorem toString_bytes (junk : Nat → UInt8) {ba : ByteArray} (h : ba.Inv) :
    ∃ str, ba.toString = .ok str ∧
      settle junk ba.position str = (List.range' ba.position (ba.size - ba.position)).map (byteAt junk ba) := by
  refine ⟨_, toString_ok h, settle_slice junk ba ?_⟩
  have := h.position_le
  have := h.size_le
  rw [h.length_store]
  omega

/-! ## What the loop collects -/

/-- Round and round through block `i`. -/
theorem readBuffersLoop_spec {B i : Nat} (rounds npos len : Nat) (hn : npos < B) (hr : len ≤ rounds) :
    ∃ iovs, readBuffersLoop i B rounds npos (B - npos) len = some iovs ∧ (iovs.map IoVec.len).sum = len ∧
      (∀ v ∈ iovs, v.node = i ∧ v.base + v.len ≤ B) ∧
      offsets B iovs = (List.range' npos len).map fun t => i * B + t % B := by
  -- every round takes at least one byte, so `len` rounds are enough
  induction rounds generalizing npos len with
  | zero =>
    obtain rfl := Nat.le_zero.1 hr
    exact ⟨[], by rw [readBuffersLoop], rfl, by simp, rfl⟩
  | succ rounds ih =>
    rcases len with _ | len
    · exact ⟨[], by rw [readBuffersLoop], rfl, by simp, rfl⟩
    have hinside : ∀ m, npos + m ≤ B →
        List.range' (i * B + npos) m = (List.range' npos m).map fun t => i * B + t % B := by
      intro m hm
      rw [← List.map_add_range']
      apply List.map_congr_left
      intro t ht
      rw [Nat.mod_eq_of_lt (by have := List.mem_range'_1.1 ht; omega)]
    rw [readBuffersLoop]
    by_cases hc : B - npos ≥ len + 1
    · refine ⟨[⟨i, npos, len + 1⟩], by rw [if_pos hc], rfl, ?_, ?_⟩
      · intro v hv
        obtain rfl := List.mem_singleton.1 hv
        exact ⟨rfl, by simp only; omega⟩
      · rw [← hinside (len + 1) (by omega)]
        simp [offsets, IoVec.offset]
    · obtain ⟨iovs, hrun, hsum, hin, hoff⟩ := ih 0 (len + 1 - (B - npos)) (by omega) (by omega)
      refine ⟨⟨i, npos, B - npos⟩ :: iovs, ?_, ?_, ?_, ?_⟩
      · rw [Nat.sub_zero] at hrun
        rw [if_neg hc, hrun]
        rfl
      · simp only [List.map_cons, List.sum_cons, hsum]
        omega
      · intro v hv
        rcases List.mem_cons.1 hv with rfl | hv
        · exact ⟨rfl, by simp only; omega⟩
        · exact hin v hv
      · -- the first round ends with the block, the others begin at its start
        have hcut : List.range' npos (len + 1) = List.range' npos (B - npos) ++
            (List.range' 0 (len + 1 - (B - npos))).map (B + ·) := by
          have hsum : len + 1 = B - npos + (len + 1 - (B - npos)) := by omega
          have happ := @List.range'_append_1 npos (B - npos) (len + 1 - (B - npos))
          rw [← hsum, Nat.add_sub_cancel' hn.le] at happ
          rw [List.map_add_range']
          exact happ.symm
        unfold offsets at hoff ⊢
        rw [List.flatMap_cons, hoff, hcut, List.map_append, ← hinside _ (by omega), List.map_map]
        congr 1
        apply List.map_congr_left
        intro t _
        simp

/-- The pieces have the requested length and hold the first bytes of
`toString`. -/
def GathersReadable (junk : Nat → UInt8) (ba : ByteArray) (len : Nat) : Prop :=
  ∃ iovs str, ba.getReadBuffers len = .ok (some (min len ba.getReadSize, iovs)) ∧
    (iovs.map IoVec.len).sum = min len ba.getReadSize ∧ ba.toString = .ok str ∧
    ba.gathered junk iovs = .ok ((settle junk ba.getPosition str).take (min len ba.getReadSize))

/-- The whole call: `min(len, getReadSize())` bytes of the current block, round
and round. -/
theorem getReadBuffers_spec (junk : Nat → UInt8) {ba : ByteArray} (h : ba.Inv) (len : Nat) :
    ∃ iovs, ba.getReadBuffers len = .ok (some (min len ba.getReadSize, iovs)) ∧
      (iovs.map IoVec.len).sum = min len ba.getReadSize ∧
      ba.gathered junk iovs =
        .ok ((List.range' (ba.position % ba.baseSize) (min len ba.getReadSize)).map fun t =>
        byteAt junk ba (ba.position / ba.baseSize * ba.baseSize + t % ba.baseSize)) := by
  have hmin : (if len > ba.getReadSize then ba.getReadSize else len) = min len ba.getReadSize := by
    split <;> omega
  unfold getReadBuffers
  simp only [hmin]
  by_cases h0 : min len ba.getReadSize = 0
  · exact ⟨[], by rw [if_pos h0, h0], h0.symm, by rw [h0]; rfl⟩
  · have hrs := getReadSize_eq h
    have := h.size_le
    obtain ⟨hcur, hlt⟩ := h.cur_block (by omega)
    have hnd := h.blocks _ (List.getElem_mem hlt)
    obtain ⟨iovs, hrun, hsum, hin, hoff⟩ := readBuffersLoop_spec (i := ba.position / ba.baseSize)
      (min len ba.getReadSize) (ba.position % ba.baseSize) (min len ba.getReadSize)
        (Nat.mod_lt _ h.base_pos) le_rfl
    refine ⟨iovs, ?_, hsum, ?_⟩
    · rw [if_neg h0]
      simp only [hcur, List.getElem?_eq_getElem hlt, hnd.1, hrun]
      rfl
    · rw [gathered_eq junk h fun v hv => ⟨(hin v hv).1 ▸ hlt, (hin v hv).2⟩, hoff, List.map_map]
      rfl

/-- `getReadBuffers` sends the readable bytes exactly when what it repeats is
what follows: every requested byte behind the end of the current block equals
the byte of the current block at the same place. -/
theorem gathersReadable_iff {B : Nat} (hB : 1 ≤ B) (ops : List WriteOp) {ba : ByteArray}
    (hr : runOps (new B) ops = .ok ba) (junk : Nat → UInt8) (len : Nat) :
    GathersReadable junk ba len ↔
      ∀ t, B ≤ t → t < ba.position % B + min len ba.getReadSize →
        byteAt junk ba (ba.position / B * B + t) = byteAt junk ba (ba.position / B * B + t % B) := by
  obtain ⟨hi, rfl⟩ := inv_of_runOps hB hr
  obtain ⟨iovs, hget, hsum, hgath⟩ := getReadBuffers_spec junk hi len
  obtain ⟨str, hstr, hbytes⟩ := toString_bytes junk hi
  have hrs := getReadSize_eq hi
  have hle := hi.position_le
  have hstart : ba.position / ba.baseSize * ba.baseSize + ba.position % ba.baseSize = ba.position :=
    Nat.div_add_mod' _ _
  -- the first bytes of `toString`, counted from the start of the current block
  have htake : (settle junk ba.getPosition str).take (min len ba.getReadSize) =
      (List.range' (ba.position % ba.baseSize) (min len ba.getReadSize)).map fun t =>
        byteAt junk ba (ba.position / ba.baseSize * ba.baseSize + t) := by
    rw [show ba.getPosition = ba.position from rfl, hbytes, ← List.map_take,
      List.take_range'_of_length_ge (by omega)]
    nth_rewrite 1 [← hstart]
    rw [← List.map_add_range', List.map_map]
    rfl
  have hiff : GathersReadable junk ba len ↔
      ba.gathered junk iovs = .ok ((settle junk ba.getPosition str).take (min len ba.getReadSize)) := by
    constructor
    · rintro ⟨iovs', str', hget', -, hstr', heq⟩
      rw [hget, Except.ok.injEq, Option.some.injEq, Prod.mk.injEq] at hget'
      rw [hstr, Except.ok.injEq] at hstr'
      rw [hget'.2, hstr']
      exact heq
    · intro heq
      exact ⟨iovs, str, hget, hsum, hstr, heq⟩
  rw [hiff, hgath, htake, Except.ok.injEq, List.map_inj_left]
  constructor
  · intro h t ht htlt
    have := Nat.mod_lt ba.position hi.base_pos
    exact (h t (List.mem_range'_1.2 (by omega))).symm
  · intro h t ht
    -- inside the current block both sides are the same byte
    by_cases hB' : ba.baseSize ≤ t
    · exact (h t hB' (List.mem_range'_1.1 ht).2).symm
    · rw [Nat.mod_eq_of_lt (Nat.lt_of_not_le hB')]

/-- The first two of three bytes, which fill the current block. -/
theorem gathersReadable_iff_block :
    GathersReadable (fun _ => 0) ⟨2, 0, 4, 3, .big, [⟨[some 1, some 2], 2⟩, ⟨[some 3, none], 2⟩],
      some 0⟩ 2 := by
  refine (gathersReadable_iff (B := 2) (by decide) [.write [1, 2, 3], .setPosition 0] (by rfl) _ _).2 ?_
  intro t ht htlt
  exact absurd (htlt.trans_le (by decide)) (Nat.not_lt_of_le ht)

/-- Three bytes in blocks of two: the third byte sent is the first again. -/
theorem not_gathersReadable :
    ¬ ∀ (B : Nat) (ops : List WriteOp) (ba : ByteArray) (junk : Nat → UInt8) (len : Nat), 1 ≤ B →
      runOps (new B) ops = .ok ba → GathersReadable junk ba len := by
  intro h
  obtain ⟨iovs, str, hget, -, hstr, hgath⟩ := h 2 [.write [1, 2, 3], .setPosition 0]
    ⟨2, 0, 4, 3, .big, [⟨[some 1, some 2], 2⟩, ⟨[some 3, none], 2⟩], some 0⟩ (fun _ => 0) 3 (by decide) (by rfl)
  cases hget
  cases hstr
  revert hgath
  decide

end Linko.ByteArray
