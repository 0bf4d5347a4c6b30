import Linko.ByteArray.FlatBuffer
/-!
# Reading from a socket into the blocks

`SocketStream::read` asks `getWriteBuffers` for pieces of the blocks, lets
`readv` fill them and moves the position behind what has come in. The pieces
are the storage from the position on, and the outcome is that of a `write`.
-/

namespace Linko.ByteArray

open Blocks

/-! ## Pieces of the storage -/

/-- Where a piece begins in the flat storage. -/
def IoVec.offset (B : Nat) (v : IoVec) : Nat := v.node * B + v.base

/-- The offsets of the bytes of the pieces, in their order. -/
def offsets (B : Nat) (iovs : List IoVec) : List Nat := iovs.flatMap fun v => List.range' (v.offset B) v.len

/-- The pieces follow each other from offset `o` on for `n` bytes, none empty
and each inside one block. -/
def Tiles (B : Nat) : List IoVec → Nat → Nat → Prop
  | [], _, n => n = 0
  | v :: iovs, o, n =>
    v.offset B = o ∧ (0 < v.len ∧ v.base + v.len ≤ B) ∧ v.len ≤ n ∧ Tiles B iovs (o + v.len) (n - v.len)

variable {B : Nat}

theorem Tiles.sum_len {iovs : List IoVec} {o n : Nat} (h : Tiles B iovs o n) :
    (iovs.map IoVec.len).sum = n := by
  induction iovs generalizing o n with
  | nil => exact h.symm
  | cons v iovs ih =>
    obtain ⟨-, -, hle, ht⟩ := h
    have := ih ht
    simp only [List.map_cons, List.sum_cons]
    omega

theorem Tiles.offsets_eq {iovs : List IoVec} {o n : Nat} (h : Tiles B iovs o n) :
    offsets B iovs = List.range' o n := by
  induction iovs generalizing o n with
  | nil =>
    cases h
    rfl
  | cons v iovs ih =>
    obtain ⟨rfl, -, hle, ht⟩ := h
    have htail := ih ht
    unfold offsets at htail ⊢
    rw [List.flatMap_cons, htail, List.range'_append_1, Nat.add_sub_cancel' hle]

theorem Tiles.behind {iovs : List IoVec} {o n : Nat} (h : Tiles B iovs o n) :
    ∀ v ∈ iovs, o ≤ v.offset B ∧ v.offset B + v.len ≤ o + n := by
  induction iovs generalizing o n with
  | nil => intro v hv; cases hv
  | cons w iovs ih =>
    obtain ⟨rfl, -, hle, ht⟩ := h
    intro v hv
    rcases List.mem_cons.1 hv with rfl | hv
    · omega
    · have := ih ht v hv
      omega

/-- Each piece ends before the next one begins. -/
theorem Tiles.disjoint {iovs : List IoVec} {o n : Nat} (h : Tiles B iovs o n) :
    iovs.Pairwise fun v w => v.offset B + v.len ≤ w.offset B := by
  induction iovs generalizing o n with
  | nil => exact List.Pairwise.nil
  | cons v iovs ih =>
    obtain ⟨rfl, -, -, ht⟩ := h
    exact List.Pairwise.cons (fun w hw => (ht.behind w hw).1) (ih ht)

theorem Tiles.in_block {iovs : List IoVec} {o n : Nat} (h : Tiles B iovs o n) :
    ∀ v ∈ iovs, 0 < v.len ∧ v.base + v.len ≤ B := by
  induction iovs generalizing o n with
  | nil => intro v hv; cases hv
  | cons w iovs ih =>
    obtain ⟨-, hb, -, ht⟩ := h
    intro v hv
    rcases List.mem_cons.1 hv with rfl | hv
    · exact hb
    · exact ih ht v hv

/-- `getWriteBuffers`' loop cuts the storage from its starting point on. -/
theorem writeBuffersLoop_tiles (nodes : List Node) (hf : Full B nodes) (i npos len : Nat) (hn : npos < B)
    (hlen : 0 < len) {iovs : List IoVec} (h : writeBuffersLoop nodes i npos len = .ok iovs) :
    Tiles B iovs (i * B + npos) len := by
  induction nodes generalizing i npos len iovs with
  | nil => cases h
  | cons nd next ih =>
    obtain ⟨⟨rfl, -⟩, hfn⟩ := full_cons.1 hf
    rw [writeBuffersLoop] at h
    by_cases hc : len ≤ nd.size - npos
    · simp only [if_pos hc, Except.ok.injEq] at h
      subst h
      refine ⟨rfl, ⟨hlen, ?_⟩, le_rfl, Nat.sub_self len⟩
      show npos + len ≤ nd.size
      omega
    · simp only [if_neg hc] at h
      cases hrest : writeBuffersLoop next (i + 1) 0 (len - (nd.size - npos)) with
      | error e =>
        rw [hrest] at h
        cases h
      | ok rest =>
        rw [hrest] at h
        cases h
        have ht := ih hfn (i + 1) 0 (len - (nd.size - npos)) (by omega) (by omega) hrest
        have hstart : (i + 1) * nd.size + 0 = i * nd.size + npos + (nd.size - npos) := by
          rw [Nat.succ_mul]
          omega
        rw [hstart] at ht
        refine ⟨rfl, ⟨?_, ?_⟩, ?_, ht⟩
        · show 0 < nd.size - npos
          omega
        · show npos + (nd.size - npos) ≤ nd.size
          omega
        · show nd.size - npos ≤ len
          omega

/-! ## Filling the pieces -/

/-- What `readv` does with the pieces: `bytes` is what comes in, no more than
there is room for. -/
def fill (nodes : List Node) : List IoVec → List UInt8 → Except Fault (List Node)
  | [], _ => .ok nodes
  | v :: iovs, bytes =>
    match nodes[v.node]? with
    | none => .error .heapOverflow
    | some nd => do
      let nd' ← nd.store v.base (bytes.take v.len)
      fill (nodes.set v.node nd') iovs (bytes.drop v.len)

/-- `SocketStream::read` once `recv` has delivered `bytes` into the pieces. -/
def received (ba : ByteArray) (iovs : List IoVec) (bytes : List UInt8) : Except Fault ByteArray := do
  let nodes ← fill ba.nodes iovs bytes
  setPosition { ba with nodes := nodes } (ba.getPosition + bytes.length)

/-- A store into one block, seen in the flat storage. -/
theorem flat_set {nodes : List Node} (hf : Full B nodes) {i : Nat} {nd : Node} (hi : nodes[i]? = some nd)
    {base : Nat} {xs : List Cell} (hfit : base + xs.length ≤ B) :
    flat (nodes.set i { nd with ptr := splice nd.ptr base xs }) = splice (flat nodes) (i * B + base) xs := by
  obtain ⟨hlt, hget⟩ := List.getElem?_eq_some_iff.1 hi
  have hnd := hf nd (hget ▸ List.getElem_mem hlt)
  have htake : (flat (nodes.take i)).length = i * B := by
    rw [(hf.take i).length_flat, List.length_take, min_eq_left hlt.le, Nat.mul_comm]
  have hcut : flat nodes = flat (nodes.take i) ++ (nd.ptr ++ flat (nodes.drop (i + 1))) := by
    rw [← flat_cons, ← flat_append, ← hget, List.getElem_cons_drop, List.take_append_drop]
  rw [List.set_eq_take_append_cons_drop, if_pos hlt, flat_append, flat_cons, hcut, ← htake, splice_append_right,
    splice_append_left (by omega)]

theorem full_set {nodes : List Node} (hf : Full B nodes) {i : Nat} {nd : Node} (hi : nodes[i]? = some nd)
    {base : Nat} {xs : List Cell} (hfit : base + xs.length ≤ B) :
    Full B (nodes.set i { nd with ptr := splice nd.ptr base xs }) := by
  have hnd := hf nd (List.mem_of_getElem? hi)
  intro m hm
  rcases List.mem_or_eq_of_mem_set hm with hm | rfl
  · exact hf m hm
  · exact ⟨hnd.1, by rw [length_splice (by omega), hnd.2]⟩

/-- Filling the pieces is one copy over the flat storage. -/
theorem fill_spec {iovs : List IoVec} {nodes : List Node} (hf : Full B nodes) {o n : Nat}
    (ht : Tiles B iovs o n)
    (hroom : o + n ≤ nodes.length * B) (bytes : List UInt8) (hn : bytes.length ≤ n) :
    ∃ nodes', fill nodes iovs bytes = .ok nodes' ∧ nodes'.length = nodes.length ∧ Full B nodes' ∧
      flat nodes' = splice (flat nodes) o (bytes.map some) := by
  induction iovs generalizing nodes o n bytes with
  | nil =>
    cases ht
    obtain rfl := List.length_eq_zero_iff.1 (Nat.le_zero.1 hn)
    exact ⟨nodes, rfl, rfl, hf, (splice_nil _ _).symm⟩
  | cons v iovs ih =>
    obtain ⟨rfl, ⟨hlen, hblock⟩, hle, ht⟩ := ht
    have hnode : v.node < nodes.length := by
      by_contra hge
      have := Nat.mul_le_mul_right B (Nat.le_of_not_lt hge)
      simp only [IoVec.offset] at hroom
      omega
    obtain ⟨nd, hnd⟩ : ∃ nd, nodes[v.node]? = some nd := ⟨_, List.getElem?_eq_getElem hnode⟩
    have hsize := (hf nd (List.mem_of_getElem? hnd)).2
    have htake : (bytes.take v.len).length = min v.len bytes.length := List.length_take
    have hfit : v.base + ((bytes.take v.len).map some).length ≤ B := by
      rw [List.length_map, htake]
      omega
    have hstore : nd.store v.base (bytes.take v.len) =
        .ok { nd with ptr := splice nd.ptr v.base ((bytes.take v.len).map some) } :=
      store_ok (by rw [hsize]; simpa using hfit)
    have hset := flat_set hf hnd hfit
    have hlength :
        (nodes.set v.node { nd with ptr := splice nd.ptr v.base ((bytes.take v.len).map some) }).length
        = nodes.length := List.length_set
    -- the rest of the bytes goes into the rest of the pieces
    obtain ⟨nodes', hrun, hcount, hfull, hflat⟩ := ih (full_set hf hnd hfit) ht
      (by rw [hlength]; omega) (bytes.drop v.len) (by rw [List.length_drop]; omega)
    refine ⟨nodes', ?_, hcount.trans hlength, hfull, ?_⟩
    · simp only [fill, hnd, hstore]
      exact hrun
    · have hin : v.offset B + (bytes.map some).length ≤ (flat nodes).length := by
        rw [hf.length_flat, List.length_map, Nat.mul_comm]
        omega
      rw [hflat, hset, List.map_take, List.map_drop]
      exact splice_take_drop hin _

/-! ## The state after `n` bytes have come in -/

/-- `ba'` is `ba` with `bytes` put at the position, in blocks appended as
needed. -/
structure Puts (ba : ByteArray) (bytes : List UInt8) (ba' : ByteArray) : Prop where
  inv : ba'.Inv
  position : ba'.position = ba.position + bytes.length
  size : ba'.size = max ba.size (ba.position + bytes.length)
  store : ∃ fresh, ba'.store = splice (ba.store ++ fresh) ba.position (bytes.map some) ∧
    ba.position + bytes.length ≤ (ba.store ++ fresh).length

theorem write_puts {ba : ByteArray} (h : ba.Inv) (bytes : List UInt8) :
    ∃ ba', ba.write bytes = .ok ba' ∧ Puts ba bytes ba' := by
  obtain ⟨ba', fresh, hw, hi, -, -, hp, hs, -, hfit, hst⟩ := write_ok h bytes
  exact ⟨ba', hw, hi, hp, hs, fresh, hst, hfit⟩

theorem received_puts {ba : ByteArray} (h : ba.Inv) {len : Nat} {iovs : List IoVec}
    (ht : Tiles ba.baseSize iovs ba.position len) {bytes : List UInt8} (hk : bytes.length ≤ len) :
    ∃ ba', (ba.addCapacity len).received iovs bytes = .ok ba' ∧ Puts ba bytes ba' := by
  obtain ⟨hi, hb, hp, hs, -, -, fresh, hst⟩ := addCapacity_spec h len
  have hfit := addCapacity_fits h len
  generalize ba.addCapacity len = grown at *
  obtain ⟨nodes, hfill, hcount, hfull, hflat⟩ := fill_spec hi.full (by rw [hb]; exact ht)
    (by rw [Nat.mul_comm, ← hi.capacity_eq, ← hp]; exact hfit) bytes hk
  have hfilled : Inv { grown with nodes := nodes } := by
    refine ⟨hi.base_pos, hfull, ?_, ?_, hi.position_le, hi.size_le, hi.cur_eq⟩
    · have := List.length_pos_iff.2 hi.root
      exact List.length_pos_iff.1 (by simp only [hcount]; omega)
    · simp only [hcount]
      exact hi.capacity_eq
  obtain ⟨ba', hset, hi', -, -, hp', hs', -, hst'⟩ :=
    setPosition_ok hfilled (v := grown.position + bytes.length)
      (by simp only; omega)
  refine ⟨ba', ?_, hi', ?_, ?_, fresh, ?_, ?_⟩
  · simp only [received, hfill]
    exact hset
  · rw [hp', hp]
  · rw [hs', ← hp]
    simp only [hs]
  · rw [hst', ← hst]
    exact hflat
  · rw [← hst, hi.length_store, ← hp]
    omega

/-- Inside the size the two stores agree: what a longer reservation adds lies
behind it. -/
theorem Puts.agree {ba : ByteArray} (h : ba.Inv) {bytes : List UInt8} {a b : ByteArray} (ha : Puts ba bytes a)
    (hb : Puts ba bytes b) {o : Nat} (ho : o < a.size) : a.store[o]? = b.store[o]? := by
  obtain ⟨fa, hsa, hfa⟩ := ha.store
  obtain ⟨fb, hsb, hfb⟩ := hb.store
  rw [ha.size] at ho
  rw [hsa, hsb, getElem?_splice (by simpa using hfa), getElem?_splice (by simpa using hfb)]
  -- the new bytes, or the old storage on both sides
  by_cases hin : ba.position ≤ o ∧ o < ba.position + (bytes.map some).length
  · rw [if_pos hin, if_pos hin]
  · have hold : o < ba.store.length := by
      have := h.size_le
      have := h.position_le
      rw [List.length_map] at hin
      rw [h.length_store]
      omega
    rw [if_neg hin, if_neg hin, List.getElem?_append_left hold, List.getElem?_append_left hold]

/-- The same position, size and bytes for a reader who goes to `v`. Behind the
size there is nothing to read, and behind the capacity `setPosition` throws. -/
def ReadsSame (a b : ByteArray) (v : Nat) : Prop :=
  (∃ a' b', a.setPosition v = .ok a' ∧ b.setPosition v = .ok b' ∧ a'.getPosition = b'.getPosition ∧
    a'.getSize = b'.getSize ∧ a'.toString = b'.toString) ∨
  (a.size < v ∧ b.size < v ∧ ∀ c ∈ [a, b], c.setPosition v = .error .outOfRange ∨
    ∃ c', c.setPosition v = .ok c' ∧ c'.toString = .ok [])

/-- Going to `v` and reading on from there. -/
theorem setPosition_toString {c : ByteArray} (h : c.Inv) {v : Nat} (hv : v ≤ c.capacity) :
    ∃ c', c.setPosition v = .ok c' ∧ c'.position = v ∧ c'.size = max c.size v ∧
      c'.toString = .ok (slice c.store v (c.size - v)) := by
  obtain ⟨c', hset, hi, -, -, hp, hs, -, hst⟩ := setPosition_ok h hv
  refine ⟨c', hset, hp, hs, ?_⟩
  rw [toString_ok hi, hp, hs, hst]
  congr 2
  omega

theorem setPosition_behind {c : ByteArray} (h : c.Inv) {v : Nat} (hv : c.size < v) :
    c.setPosition v = .error .outOfRange ∨ ∃ c', c.setPosition v = .ok c' ∧ c'.toString = .ok [] := by
  by_cases hc : v ≤ c.capacity
  · obtain ⟨c', hset, -, -, hread⟩ := setPosition_toString h hc
    refine .inr ⟨c', hset, ?_⟩
    rw [hread, Nat.sub_eq_zero_of_le hv.le, slice_zero]
  · exact .inl (if_pos (Nat.lt_of_not_le hc))

theorem Puts.readsSame {ba : ByteArray} (h : ba.Inv) {bytes : List UInt8} {a b : ByteArray}
    (ha : Puts ba bytes a)
    (hb : Puts ba bytes b) (v : Nat) : ReadsSame a b v := by
  have hsize : a.size = b.size := ha.size.trans hb.size.symm
  by_cases hv : v ≤ a.capacity ∧ v ≤ b.capacity
  · obtain ⟨a', hseta, hpa, hsa, hra⟩ := setPosition_toString ha.inv hv.1
    obtain ⟨b', hsetb, hpb, hsb, hrb⟩ := setPosition_toString hb.inv hv.2
    refine .inl ⟨a', b', hseta, hsetb, hpa.trans hpb.symm, ?_, ?_⟩
    · show a'.size = b'.size
      rw [hsa, hsb, hsize]
    · rw [hra, hrb, ← hsize]
      congr 1
      exact slice_congr fun o _ ho => ha.agree h hb (by omega)
  · -- one of the two has not so many blocks, so `v` lies behind both sizes
    have hlt : a.size < v := by
      have := ha.inv.size_le
      have := hb.inv.size_le
      omega
    refine .inr ⟨hlt, hsize ▸ hlt, fun c hc => ?_⟩
    rcases List.mem_pair.1 hc with rfl | rfl
    · exact setPosition_behind ha.inv hlt
    · exact setPosition_behind hb.inv (hsize ▸ hlt)

theorem getWriteBuffers_tiles {ba : ByteArray} (h : ba.Inv) {len : Nat} (hlen : 0 < len) :
    ∃ iovs, ba.getWriteBuffers len = .ok (len, iovs, ba.addCapacity len) ∧
      Tiles ba.baseSize iovs ba.position len := by
  obtain ⟨iovs, hget⟩ := getWriteBuffers_ok h (Nat.ne_of_gt hlen)
  obtain ⟨hi, hb, hp, -⟩ := addCapacity_spec h len
  have hfit := addCapacity_fits h len
  refine ⟨iovs, hget, ?_⟩
  simp only [getWriteBuffers, if_neg (Nat.ne_of_gt hlen)] at hget
  generalize ba.addCapacity len = grown at *
  obtain ⟨hcur, -⟩ := hi.cur_block (by omega)
  simp only [hcur] at hget
  cases hrun : writeBuffersLoop (grown.nodes.drop (grown.position / grown.baseSize))
    (grown.position / grown.baseSize)
      (grown.position % grown.baseSize) len with
  | error e =>
    rw [hrun] at hget
    cases hget
  | ok iovs' =>
    rw [hrun] at hget
    cases hget
    have ht := writeBuffersLoop_tiles _ (hi.full.drop _) _ _ len (Nat.mod_lt _ hi.base_pos) hlen hrun
    rwa [Nat.div_add_mod', hb, hp] at ht

/-- A read into the blocks equals a write: the pieces that `getWriteBuffers`
hands out are the storage from the position on, and filling any number of their
bytes and moving the position has the outcome of `write`. -/
theorem scatter_eq_write {B : Nat} (hB : 1 ≤ B) {ops : List WriteOp} {ba : ByteArray}
    (hr : runOps (new B) ops = .ok ba) (len : Nat) (hlen : 0 < len) :
    ∃ iovs grown, ba.getWriteBuffers len = .ok (len, iovs, grown) ∧
      (iovs.map IoVec.len).sum = len ∧ offsets B iovs = List.range' ba.getPosition len ∧
      (∀ v ∈ iovs, v.node < grown.nodes.length ∧ v.base + v.len ≤ B) ∧
      (iovs.Pairwise fun v w => v.offset B + v.len ≤ w.offset B) ∧
      grown.getPosition = ba.getPosition ∧ grown.getSize = ba.getSize ∧
      (∃ fresh, grown.store = ba.store ++ fresh) ∧
      ∀ bytes : List UInt8, bytes.length ≤ len →
        ∃ filled written, grown.received iovs bytes = .ok filled ∧ ba.write bytes = .ok written ∧
          filled.getPosition = written.getPosition ∧ filled.getSize = written.getSize ∧
          ∀ v, ReadsSame filled written v := by
  obtain ⟨hi, rfl⟩ := inv_of_runOps hB hr
  obtain ⟨iovs, hget, ht⟩ := getWriteBuffers_tiles hi hlen
  obtain ⟨hgi, hgb, hgp, hgs, -, -, hfresh⟩ := addCapacity_spec hi len
  have hfit := addCapacity_fits hi len
  refine ⟨iovs, ba.addCapacity len, hget, ht.sum_len, ht.offsets_eq, ?_, ht.disjoint, hgp, hgs, hfresh, ?_⟩
  · intro v hv
    obtain ⟨hpos, hblock⟩ := ht.in_block v hv
    have hend := (ht.behind v hv).2
    refine ⟨?_, hblock⟩
    by_contra hge
    have := Nat.mul_le_mul_right ba.baseSize (Nat.le_of_not_lt hge)
    rw [hgp, hgi.capacity_eq, hgb, Nat.mul_comm] at hfit
    simp only [IoVec.offset] at hend
    omega
  · intro bytes hk
    -- both put the bytes at the position, in storage of different lengths
    obtain ⟨filled, hfill, hpf⟩ := received_puts hi ht hk
    obtain ⟨written, hwrite, hpw⟩ := write_puts hi bytes
    exact ⟨filled, written, hfill, hwrite, hpf.position.trans hpw.position.symm,
      hpf.size.trans hpw.size.symm, hpf.readsSame hi hpw⟩

/-- Three of four bytes come in, over the end of a block. -/
theorem scatter_eq_write_across :
    ∃ (iovs : List IoVec) (grown filled : ByteArray), runOps (new 2) [.write [1, 2, 3]] = .ok
        ⟨2, 3, 4, 3, .big, [⟨[some 1, some 2], 2⟩, ⟨[some 3, none], 2⟩], some 1⟩ ∧
      grown.received iovs [7, 8, 9] = .ok filled ∧ iovs = [⟨1, 1, 1⟩, ⟨2, 0, 2⟩, ⟨3, 0, 1⟩] ∧
      filled.getSize = 6 ∧ filled.getPosition = 6 := by
  have hr : runOps (new 2) [.write [1, 2, 3]] = .ok
      ⟨2, 3, 4, 3, .big, [⟨[some 1, some 2], 2⟩, ⟨[some 3, none], 2⟩], some 1⟩ := by rfl
  obtain ⟨iovs, grown, hget, -, -, -, -, -, -, -, hall⟩ := scatter_eq_write (by decide) hr 4 (by decide)
  obtain ⟨filled, written, hfill, hwrite, hp, hs, -⟩ := hall [7, 8, 9] (by decide)
  cases hget
  cases hwrite
  exact ⟨_, _, filled, hr, hfill, rfl, hs, hp⟩

end Linko.ByteArray
