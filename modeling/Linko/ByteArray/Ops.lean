import Linko.ByteArray.Loops
/-!
# What each operation does

From a state satisfying `Inv`: the state after a `write`, a `setPosition`, a
`clear` or a `getWriteBuffers`, and what a `read` and `toString` return. Later
modules use these and never look into the block list again.
-/

namespace Linko.ByteArray

open Blocks

variable {ba : ByteArray}

/-- Room for `n` bytes is there after `addCapacity`. -/
theorem addCapacity_fits (h : ba.Inv) (n : Nat) :
    (ba.addCapacity n).position + n ≤ (ba.addCapacity n).capacity := by
  obtain ⟨-, -, hp, -, -, hc, -⟩ := addCapacity_spec h n
  have := le_roundUp h.base_pos (ba.position + n)
  rw [hp, hc]
  omega

/-- The position splits into the blocks before it and the offset in its own. -/
theorem room_behind (h : ba.Inv) {n : Nat} (hfit : ba.position + n ≤ ba.capacity) :
    ba.position % ba.baseSize + n ≤ ba.baseSize * (ba.nodes.drop (ba.position / ba.baseSize)).length := by
  have hdiv := Nat.div_add_mod ba.position ba.baseSize
  rw [List.length_drop, Nat.mul_sub, ← h.capacity_eq]
  omega

/-- `write`'s loop, run from the block of the position. -/
theorem writeLoop_inv (h : ba.Inv) {buf : List UInt8} (hbuf : 0 < buf.length)
    (hfit : ba.position + buf.length ≤ ba.capacity) :
    ∃ nodes k, writeLoop (ba.nodes.drop (ba.position / ba.baseSize))
      (ba.position % ba.baseSize) buf = .ok (nodes, k) ∧
      (ba.nodes.take (ba.position / ba.baseSize) ++ nodes).length = ba.nodes.length ∧
      Full ba.baseSize (ba.nodes.take (ba.position / ba.baseSize) ++ nodes) ∧
      flat (ba.nodes.take (ba.position / ba.baseSize) ++ nodes) = splice ba.store ba.position (buf.map some) ∧
      ba.position / ba.baseSize + k = (ba.position + buf.length) / ba.baseSize := by
  have hB := h.base_pos
  obtain ⟨-, hlt⟩ := h.cur_block (by omega)
  have hmod := Nat.mod_lt ba.position hB
  have hdiv := Nat.div_add_mod ba.position ba.baseSize
  obtain ⟨nodes, hrun, hlen, hfull, hflat⟩ :=
    writeLoop_spec hB _ (h.full.drop _) _ buf hmod hbuf (room_behind h hfit)
  have htake :
      (flat (ba.nodes.take (ba.position / ba.baseSize))).length =
        ba.baseSize * (ba.position / ba.baseSize) := by
    rw [(h.full.take _).length_flat, List.length_take, min_eq_left hlt.le]
  have hstore : ba.store = flat (ba.nodes.take (ba.position / ba.baseSize)) ++
      flat (ba.nodes.drop (ba.position / ba.baseSize)) := by
    rw [← flat_append, List.take_append_drop]
    rfl
  refine ⟨nodes, _, hrun, ?_, (h.full.take _).append hfull, ?_, ?_⟩
  · rw [List.length_append, hlen, ← List.length_append, List.take_append_drop]
  · rw [flat_append, hflat, hstore]
    have e := splice_append_right (l := flat (ba.nodes.take (ba.position / ba.baseSize)))
      (r := flat (ba.nodes.drop (ba.position / ba.baseSize))) (ba.position % ba.baseSize) (buf.map some)
    rw [htake, hdiv] at e
    exact e.symm
  · rw [← Nat.mul_add_div hB (ba.position / ba.baseSize), ← Nat.add_assoc, hdiv]

/-- `write`, once there is room: the whole state after it. -/
theorem write_fit (h : ba.Inv) {buf : List UInt8} (hbuf : 0 < buf.length)
    (hfit : ba.position + buf.length ≤ ba.capacity) :
    ∃ nodes k, ba.cur = some (ba.position / ba.baseSize) ∧
      writeLoop (ba.nodes.drop (ba.position / ba.baseSize)) (ba.position % ba.baseSize) buf = .ok (nodes, k) ∧
      Inv { ba with
        nodes := ba.nodes.take (ba.position / ba.baseSize) ++ nodes
        cur := link ba.nodes (ba.position / ba.baseSize + k)
        position := ba.position + buf.length
        size := max ba.size (ba.position + buf.length) } ∧
      flat (ba.nodes.take (ba.position / ba.baseSize) ++ nodes) =
        splice ba.store ba.position (buf.map some) := by
  obtain ⟨hcur, -⟩ := h.cur_block (by omega)
  obtain ⟨nodes, k, hrun, hlen, hfull, hflat, hk⟩ := writeLoop_inv h hbuf hfit
  have hsize := h.size_le
  refine ⟨nodes, k, hcur, hrun, ?_, hflat⟩
  constructor
  · exact h.base_pos
  · exact hfull
  · have := List.length_pos_iff.2 h.root
    exact List.length_pos_iff.1 (by simp only [hlen]; omega)
  · simp only [hlen]
    exact h.capacity_eq
  · exact Nat.le_max_right _ _
  · exact Nat.max_le.2 ⟨hsize, hfit⟩
  · simp only [hk]
    exact h.link_eq hfit

/-- `write` stores its bytes at the position, in blocks appended as needed. -/
theorem write_ok (h : ba.Inv) (buf : List UInt8) :
    ∃ ba' fresh, ba.write buf = .ok ba' ∧ ba'.Inv ∧ ba'.baseSize = ba.baseSize ∧ ba'.endian = ba.endian ∧
      ba'.position = ba.position + buf.length ∧ ba'.size = max ba.size (ba.position + buf.length) ∧
      ba'.capacity = max ba.capacity (roundUp ba.baseSize (ba.position + buf.length)) ∧
      ba.position + buf.length ≤ (ba.store ++ fresh).length ∧
      ba'.store = splice (ba.store ++ fresh) ba.position (buf.map some) := by
  by_cases hbuf : buf.length = 0
  · obtain rfl := List.length_eq_zero_iff.1 hbuf
    have hroom : roundUp ba.baseSize ba.position ≤ ba.capacity := by
      have := roundUp_mono (B := ba.baseSize) h.position_le_capacity
      rwa [h.capacity_eq, roundUp_mul h.base_pos, ← h.capacity_eq] at this
    refine ⟨ba, [], rfl, h, rfl, rfl, rfl, (max_eq_left h.position_le).symm, (max_eq_left hroom).symm, ?_, ?_⟩
    · simpa [h.length_store] using h.position_le_capacity
    · simp
  obtain ⟨hi, hb, hp, hs, he, hc, fresh, hst⟩ := addCapacity_spec h buf.length
  have hfit := addCapacity_fits h buf.length
  obtain ⟨nodes, k, hcur, hrun, hinv, hflat⟩ := write_fit hi (by omega) hfit
  refine ⟨_, fresh, ?_, hinv, hb, he, ?_, ?_, hc, ?_, ?_⟩
  · simp only [write, if_neg hbuf, hcur, hrun]
    show Except.ok _ = Except.ok _
    congr 2
    split <;> omega
  · show (ba.addCapacity buf.length).position + buf.length = _
    rw [hp]
  · show max (ba.addCapacity buf.length).size ((ba.addCapacity buf.length).position + buf.length) = _
    rw [hp, hs]
  · rw [← hst, hi.length_store, ← hp]
    exact hfit
  · rw [← hst, ← hp]
    exact hflat

theorem setPosition_ok (h : ba.Inv) {v : Nat} (hv : v ≤ ba.capacity) :
    ∃ ba', ba.setPosition v = .ok ba' ∧ ba'.Inv ∧ ba'.baseSize = ba.baseSize ∧ ba'.endian = ba.endian ∧
      ba'.position = v ∧ ba'.size = max ba.size v ∧ ba'.capacity = ba.capacity ∧ ba'.store = ba.store := by
  have hseek := seekLoop_spec h.base_pos ba.nodes h.full v h.root (by rw [← h.capacity_eq]; exact hv)
  have hsize := h.size_le
  refine ⟨{ ba with position := v, size := max ba.size v, cur := link ba.nodes (v / ba.baseSize) },
    ?_, ?_, rfl, rfl, rfl, rfl, rfl, rfl⟩
  · simp only [setPosition, if_neg (show ¬ v > ba.capacity by omega), hseek]
    show Except.ok _ = Except.ok _
    congr 2
    split <;> omega
  · constructor
    · exact h.base_pos
    · exact h.blocks
    · exact h.root
    · exact h.capacity_eq
    · exact Nat.le_max_right _ _
    · exact Nat.max_le.2 ⟨hsize, hv⟩
    · exact h.link_eq hv

theorem clear_inv (h : ba.Inv) : ba.clear.Inv := by
  have hB := h.base_pos
  obtain ⟨root, rest, hn⟩ := List.exists_cons_of_ne_nil h.root
  constructor
  · exact hB
  · exact h.full.take 1
  · simp [clear, hn]
  · simp [clear, hn]
  · exact Nat.le_refl 0
  · exact Nat.zero_le _
  · show some 0 = if 0 = ba.baseSize then none else some (0 / ba.baseSize)
    rw [if_neg (by omega), Nat.zero_div]

theorem getWriteBuffers_ok (h : ba.Inv) {len : Nat} (hlen : len ≠ 0) :
    ∃ iovs, ba.getWriteBuffers len = .ok (len, iovs, ba.addCapacity len) := by
  obtain ⟨hi, -⟩ := addCapacity_spec h len
  have hfit := addCapacity_fits h len
  simp only [getWriteBuffers, if_neg hlen]
  generalize ba.addCapacity len = ba at hi hfit ⊢
  obtain ⟨hcur, hlt⟩ := hi.cur_block (by omega)
  obtain ⟨iovs, hrun⟩ := writeBuffersLoop_ok _ (hi.full.drop _) (ba.position / ba.baseSize) _ len
    (Nat.mod_lt ba.position hi.base_pos).le (by simpa [List.drop_eq_nil_iff] using hlt) (room_behind hi hfit)
  exact ⟨iovs, by simp only [hcur, hrun]; rfl⟩

/-- The loop of both `read`s, run from the block of the position. -/
theorem readLoop_inv (h : ba.Inv) {size : Nat} (hs : 0 < size) (hfit : ba.position + size ≤ ba.size) :
    ba.cur = some (ba.position / ba.baseSize) ∧
      readLoop (ba.nodes.drop (ba.position / ba.baseSize)) (ba.position % ba.baseSize) size =
        .ok (slice ba.store ba.position size, (ba.position % ba.baseSize + size) / ba.baseSize,
          advance ba.baseSize (ba.position % ba.baseSize) size) := by
  have hB := h.base_pos
  have hsz := h.size_le
  obtain ⟨hcur, hlt⟩ := h.cur_block (by omega)
  have hdiv := Nat.div_add_mod ba.position ba.baseSize
  refine ⟨hcur, ?_⟩
  rw [readLoop_spec hB _ (h.full.drop _) _ size (Nat.mod_lt _ hB) hs (room_behind h (by omega)),
    h.full.flat_drop]
  simp only [slice, List.drop_drop, hdiv]
  rfl

theorem getReadSize_eq (h : ba.Inv) : ba.getReadSize = ba.size - ba.position := sizeSub_of_le h.position_le

/-- `read` returns the bytes at the position; the current block moves with
them, the position moves on to the end of a block. -/
theorem read_ok (h : ba.Inv) {size : Nat} (hs : 0 < size) (hfit : ba.position + size ≤ ba.size) :
    ba.read size = .ok (slice ba.store ba.position size,
      { ba with
        cur := link ba.nodes ((ba.position + size) / ba.baseSize)
        position := ba.position + advance ba.baseSize (ba.position % ba.baseSize) size }) := by
  obtain ⟨hcur, hrun⟩ := readLoop_inv h hs hfit
  have hk : ba.position / ba.baseSize + (ba.position % ba.baseSize + size) / ba.baseSize =
      (ba.position + size) / ba.baseSize := by
    rw [← Nat.mul_add_div h.base_pos, ← Nat.add_assoc, Nat.div_add_mod]
  rw [← hk]
  simp only [read, getReadSize_eq h, if_neg (show ¬ size > ba.size - ba.position by omega), hcur, hrun]
  rfl

theorem toString_ok (h : ba.Inv) : ba.toString = .ok (slice ba.store ba.position (ba.size - ba.position)) := by
  have := h.position_le
  unfold toString
  rw [getReadSize_eq h]
  split
  · rename_i h0
    rw [h0, slice_zero]
  · obtain ⟨hcur, hrun⟩ := @readLoop_inv ba h (ba.size - ba.position) (by omega) (by omega)
    simp only [readAt, getReadSize_eq h, if_neg (Nat.lt_irrefl _), hcur, hrun]
    rfl

end Linko.ByteArray
