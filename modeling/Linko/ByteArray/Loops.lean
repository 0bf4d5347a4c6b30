import Linko.ByteArray.Model
/-!
# What the loops over the blocks do

One lemma for each loop of `ByteArray`, in terms of the flat storage: the
copies of `write` and `read`, the walk of `setPosition`, the scatter list of
`getWriteBuffers`, and the growth of the chain.
-/

namespace Linko.ByteArray

open Blocks

/-! ## Chains of equal blocks -/

def flat (nodes : List Node) : List Cell := (nodes.map Node.ptr).flatten

/-- Every block holds exactly `B` bytes. -/
def Full (B : Nat) (nodes : List Node) : Prop := ∀ nd ∈ nodes, nd.size = B ∧ nd.ptr.length = B

theorem full_cons {B : Nat} {nd : Node} {nodes : List Node} :
    Full B (nd :: nodes) ↔ (nd.size = B ∧ nd.ptr.length = B) ∧ Full B nodes := by simp [Full]

theorem Full.append {B : Nat} {ns ms : List Node} (h : Full B ns) (h' : Full B ms) : Full B (ns ++ ms) := by
  intro nd hnd
  rcases List.mem_append.1 hnd with hnd | hnd
  · exact h nd hnd
  · exact h' nd hnd

theorem Full.take {B : Nat} {ns : List Node} (h : Full B ns) (k : Nat) : Full B (ns.take k) :=
  fun nd hnd => h nd (List.mem_of_mem_take hnd)

theorem Full.drop {B : Nat} {ns : List Node} (h : Full B ns) (k : Nat) : Full B (ns.drop k) :=
  fun nd hnd => h nd (List.mem_of_mem_drop hnd)

theorem Full.uniform {B : Nat} {ns : List Node} (h : Full B ns) : Uniform B (ns.map Node.ptr) := by
  intro b hb
  obtain ⟨nd, hnd, rfl⟩ := List.mem_map.1 hb
  exact (h nd hnd).2

theorem Full.length_flat {B : Nat} {ns : List Node} (h : Full B ns) : (flat ns).length = B * ns.length := by
  rw [flat, h.uniform.length_flatten, List.length_map]

theorem Full.flat_drop {B : Nat} {ns : List Node} (h : Full B ns) (k : Nat) :
    flat (ns.drop k) = (flat ns).drop (B * k) := by
  rw [flat, List.map_drop, h.uniform.flatten_drop]
  rfl

theorem full_new (B count : Nat) : Full B (List.replicate count (Node.new B)) := by
  intro nd hnd
  rw [List.eq_of_mem_replicate hnd]
  simp [Node.new]

@[simp] theorem flat_append (ns ms : List Node) : flat (ns ++ ms) = flat ns ++ flat ms := by simp [flat]

@[simp] theorem flat_cons (nd : Node) (ns : List Node) : flat (nd :: ns) = nd.ptr ++ flat ns := by simp [flat]

/-! ## The loops -/

theorem store_ok {nd : Node} {npos : Nat} {bytes : List UInt8} (h : npos + bytes.length ≤ nd.ptr.length) :
    nd.store npos bytes = .ok { nd with ptr := splice nd.ptr npos (bytes.map some) } := by
  rw [Node.store, if_pos h]

theorem load_ok {nd : Node} {npos n : Nat} (h : npos + n ≤ nd.ptr.length) :
    nd.load npos n = .ok (slice nd.ptr npos n) := by
  rw [Node.load, if_pos h]

/-- The number of blocks left behind by a copy that ends at `npos + n`. -/
theorem div_block_end {B npos n : Nat} (hB : 1 ≤ B) (h : npos + n ≤ B) :
    (if B = npos + n then 1 else 0) = (npos + n) / B := by
  split
  · rename_i he
    rw [← he, Nat.div_self hB]
  · rw [Nat.div_eq_of_lt (by omega)]

theorem div_block_next {B npos n : Nat} (hB : 1 ≤ B) (hn : npos ≤ B) (h : B - npos ≤ n) :
    (0 + (n - (B - npos))) / B + 1 = (npos + n) / B := by
  have e : npos + n = (0 + (n - (B - npos))) + B := by omega
  rw [e, Nat.add_div_right _ hB]

/-- `write` copies its bytes over the flat storage and leaves `m_cur` at the
block in which the copy ends. -/
theorem writeLoop_spec {B : Nat} (hB : 1 ≤ B) (nodes : List Node) (hf : Full B nodes) (npos : Nat)
    (buf : List UInt8) (hn : npos < B) (hbuf : 0 < buf.length) (hfit : npos + buf.length ≤ B * nodes.length) :
    ∃ nodes', writeLoop nodes npos buf = .ok (nodes', (npos + buf.length) / B) ∧
      nodes'.length = nodes.length ∧ Full B nodes' ∧ flat nodes' = splice (flat nodes) npos (buf.map some) := by
  induction nodes generalizing npos buf with
  | nil => simp only [List.length_nil, Nat.mul_zero] at hfit; omega
  | cons nd next ih =>
    obtain ⟨⟨rfl, hp⟩, hfn⟩ := full_cons.1 hf
    rw [writeLoop]
    -- the rest fits into this block, or fills it up and goes on in the next one
    by_cases hc : buf.length ≤ nd.size - npos
    · have hle : npos + buf.length ≤ nd.ptr.length := by omega
      refine ⟨{ nd with ptr := splice nd.ptr npos (buf.map some) } :: next, ?_, rfl, ?_, ?_⟩
      · simp only [if_pos hc, store_ok hle]
        rw [← div_block_end hB (by omega)]
        rfl
      · exact full_cons.2 ⟨⟨rfl, by rw [length_splice (by simpa using hle), hp]⟩, hfn⟩
      · rw [flat_cons, flat_cons, splice_append_left (by simpa using hle)]
    · have htake : (buf.take (nd.size - npos)).length = nd.size - npos := by
        simp only [List.length_take]; omega
      have hle : npos + (buf.take (nd.size - npos)).length = nd.ptr.length := by omega
      have hdrop : (buf.drop (nd.size - npos)).length = buf.length - (nd.size - npos) := List.length_drop
      have hfit' : 0 + (buf.drop (nd.size - npos)).length ≤ nd.size * next.length := by
        rw [List.length_cons, Nat.mul_succ] at hfit
        omega
      obtain ⟨next', hrun, hlen, hfull, hflat⟩ :=
        ih hfn 0 (buf.drop (nd.size - npos)) (by omega) (by omega) hfit'
      refine ⟨{ nd with ptr := splice nd.ptr npos ((buf.take (nd.size - npos)).map some) } :: next',
        ?_, ?_, ?_, ?_⟩
      · simp only [if_neg hc, store_ok hle.le, hrun]
        rw [hdrop, ← div_block_next (n := buf.length) hB hn.le (by omega)]
        rfl
      · rw [List.length_cons, List.length_cons, hlen]
      · exact full_cons.2 ⟨⟨rfl, by rw [length_splice (by simpa using hle.le), hp]⟩, hfull⟩
      · have hsplit :
            buf.map some = (buf.take (nd.size - npos)).map some ++ (buf.drop (nd.size - npos)).map some := by
          rw [← List.map_append, List.take_append_drop]
        rw [flat_cons, flat_cons, hflat, hsplit, splice_append_cross (by simpa using hle)]

/-- The least multiple of `B` that is at least `n`. -/
def roundUp (B n : Nat) : Nat := (n + B - 1) / B * B

/-- What a read moves `m_position` by: to the end of the block it ends in. -/
def advance (B npos size : Nat) : Nat := if size = 0 then 0 else roundUp B (npos + size) - npos

theorem advance_end {B npos size : Nat} (hn : npos < B) (hs : 0 < size) (h : npos + size ≤ B) :
    advance B npos size = B - npos := by
  have hd : (npos + size + B - 1) / B = 1 := by
    rw [show npos + size + B - 1 = (npos + size - 1) + B by omega, Nat.add_div_right _ (by omega),
      Nat.div_eq_of_lt (by omega)]
  rw [advance, if_neg (by omega), roundUp, hd, Nat.one_mul]

theorem advance_next {B npos size : Nat} (hn : npos < B) (h : B - npos < size) :
    B - npos + advance B 0 (size - (B - npos)) = advance B npos size := by
  have hd : (npos + size + B - 1) / B = (0 + (size - (B - npos)) + B - 1) / B + 1 := by
    rw [← Nat.add_div_right _ (by omega)]
    congr 1
    omega
  rw [advance, advance, if_neg (by omega), if_neg (by omega), roundUp, roundUp, hd, Nat.succ_mul]
  omega

/-- `read` copies the flat storage out; `m_cur` moves as for a write, but
`m_position` moves to a block boundary. -/
theorem readLoop_spec {B : Nat} (hB : 1 ≤ B) (nodes : List Node) (hf : Full B nodes) (npos size : Nat)
    (hn : npos < B) (hsize : 0 < size) (hfit : npos + size ≤ B * nodes.length) :
    readLoop nodes npos size = .ok (slice (flat nodes) npos size, (npos + size) / B, advance B npos size) := by
  induction nodes generalizing npos size with
  | nil => simp only [List.length_nil, Nat.mul_zero] at hfit; omega
  | cons nd next ih =>
    obtain ⟨⟨rfl, hp⟩, hfn⟩ := full_cons.1 hf
    rw [readLoop]
    by_cases hc : size ≤ nd.size - npos
    · have hle : npos + size ≤ nd.ptr.length := by omega
      simp only [if_neg (show size ≠ 0 by omega), if_pos hc, load_ok hle]
      rw [← div_block_end hB (by omega), advance_end hn hsize (by omega), flat_cons, slice_append_left hle]
      rfl
    · have hle : npos + (nd.size - npos) ≤ nd.ptr.length := by omega
      have hfit' : 0 + (size - (nd.size - npos)) ≤ nd.size * next.length := by
        rw [List.length_cons, Nat.mul_succ] at hfit
        omega
      simp only [if_neg (show size ≠ 0 by omega), if_neg hc, load_ok hle,
        ih hfn 0 (size - (nd.size - npos)) (by omega) (by omega) hfit']
      rw [flat_cons, slice_append_cross (by omega) (by omega), hp, ← advance_next hn (by omega),
        ← div_block_next (n := size) hB hn.le (by omega)]
      rfl

/-- The walk of `setPosition` ends in the block of the offset, or behind it
when the offset is a block end. -/
theorem seekLoop_spec {B : Nat} (hB : 1 ≤ B) (nodes : List Node) (hf : Full B nodes) (v : Nat)
    (hne : nodes ≠ []) (hv : v ≤ B * nodes.length) : seekLoop nodes v = .ok (v / B) := by
  induction nodes generalizing v with
  | nil => exact absurd rfl hne
  | cons nd next ih =>
    obtain ⟨⟨rfl, -⟩, hfn⟩ := full_cons.1 hf
    rw [seekLoop]
    by_cases hc : v > nd.size
    · rw [List.length_cons, Nat.mul_succ] at hv
      have hne' : next ≠ [] := by
        rintro rfl
        simp only [List.length_nil, Nat.mul_zero] at hv
        omega
      simp only [if_pos hc, ih hfn (v - nd.size) hne' (by omega)]
      have hd : (v - nd.size) / nd.size + 1 = v / nd.size := by
        rw [← Nat.add_div_right _ hB]
        congr 1
        omega
      rw [← hd]
      rfl
    · have hd := @div_block_end _ 0 v hB (by omega)
      simp only [Nat.zero_add] at hd
      rw [if_neg hc, ← hd]
      congr 1
      exact if_congr eq_comm rfl rfl

theorem writeBuffersLoop_ok {B : Nat} (nodes : List Node) (hf : Full B nodes) (i npos len : Nat)
    (hn : npos ≤ B) (hne : nodes ≠ []) (hfit : npos + len ≤ B * nodes.length) :
    ∃ iovs, writeBuffersLoop nodes i npos len = .ok iovs := by
  induction nodes generalizing i npos len with
  | nil => exact absurd rfl hne
  | cons nd next ih =>
    obtain ⟨⟨rfl, -⟩, hfn⟩ := full_cons.1 hf
    rw [writeBuffersLoop]
    by_cases hc : len ≤ nd.size - npos
    · exact ⟨[⟨i, npos, len⟩], by simp only [if_pos hc]⟩
    · rw [List.length_cons, Nat.mul_succ] at hfit
      have hne' : next ≠ [] := by
        rintro rfl
        simp only [List.length_nil, Nat.mul_zero] at hfit
        omega
      obtain ⟨iovs, hrun⟩ := ih hfn (i + 1) 0 (len - (nd.size - npos)) (by omega) hne' (by omega)
      exact ⟨⟨i, npos, nd.size - npos⟩ :: iovs, by simp only [if_neg hc, hrun]; rfl⟩

/-! ## Growing -/

theorem sizeSub_of_le {a b : Nat} (h : b ≤ a) : sizeSub a b = a - b := by rw [sizeSub, if_pos h]

theorem count_eq {B : Nat} (hB : 1 ≤ B) (n : Nat) : (n / B + if n % B > 0 then 1 else 0) = (n + B - 1) / B := by
  have hn := Nat.div_add_mod n B
  have hm := Nat.mod_lt n hB
  split
  · rename_i h
    have e : n + B - 1 = (n % B - 1) + B * (n / B + 1) := by rw [Nat.mul_succ]; omega
    rw [e, Nat.add_mul_div_left _ _ hB, Nat.div_eq_of_lt (show n % B - 1 < B by omega), Nat.zero_add]
  · have e : n + B - 1 = (B - 1) + B * (n / B) := by omega
    rw [e, Nat.add_mul_div_left _ _ hB, Nat.div_eq_of_lt (show B - 1 < B by omega), Nat.zero_add, Nat.add_zero]

theorem le_roundUp {B : Nat} (hB : 1 ≤ B) (n : Nat) : n ≤ roundUp B n := by
  have h := Nat.lt_mul_div_succ (n + B - 1) hB
  rw [Nat.mul_succ, Nat.mul_comm] at h
  unfold roundUp
  omega

/-- Growing by whole blocks from a block boundary. -/
theorem add_roundUp {B : Nat} (hB : 1 ≤ B) (k n : Nat) : B * k + roundUp B n = roundUp B (B * k + n) := by
  have e : B * k + n + B - 1 = (n + B - 1) + B * k := by omega
  unfold roundUp
  rw [e, Nat.add_mul_div_left _ _ hB, Nat.add_mul, Nat.mul_comm B k, Nat.add_comm]

theorem roundUp_mono {B m n : Nat} (h : m ≤ n) : roundUp B m ≤ roundUp B n :=
  Nat.mul_le_mul_right B (Nat.div_le_div_right (by omega))

theorem roundUp_mul {B : Nat} (hB : 1 ≤ B) (k : Nat) : roundUp B (B * k) = B * k := by
  have e : B * k + B - 1 = (B - 1) + B * k := by omega
  unfold roundUp
  rw [e, Nat.add_mul_div_left _ _ hB, Nat.div_eq_of_lt (show B - 1 < B by omega), Nat.zero_add, Nat.mul_comm]

namespace Inv

variable {ba : ByteArray}

theorem full (h : ba.Inv) : Full ba.baseSize ba.nodes := h.blocks

theorem position_le_capacity (h : ba.Inv) : ba.position ≤ ba.capacity := h.position_le.trans h.size_le

theorem length_store (h : ba.Inv) : ba.store.length = ba.capacity := by
  rw [show ba.store = flat ba.nodes from rfl, h.full.length_flat, h.capacity_eq]

/-- Below the capacity `m_cur` is the block of the position, and it exists. -/
theorem cur_block (h : ba.Inv) (hlt : ba.position < ba.capacity) :
    ba.cur = some (ba.position / ba.baseSize) ∧ ba.position / ba.baseSize < ba.nodes.length := by
  refine ⟨by rw [h.cur_eq, if_neg (by omega)], ?_⟩
  rw [Nat.div_lt_iff_lt_mul h.base_pos, Nat.mul_comm, ← h.capacity_eq]
  exact hlt

/-- A cursor moved along the chain by the copy that ends at `v` is again the
block of the position, or null at the very end. -/
theorem link_eq (h : ba.Inv) {v : Nat} (hv : v ≤ ba.capacity) :
    link ba.nodes (v / ba.baseSize) = if v = ba.capacity then none else some (v / ba.baseSize) := by
  have hB := h.base_pos
  unfold link
  by_cases he : v = ba.capacity
  · have : v / ba.baseSize = ba.nodes.length := by rw [he, h.capacity_eq, Nat.mul_div_cancel_left _ hB]
    rw [if_pos he, if_neg (by omega)]
  · rw [if_neg he, if_pos]
    rw [Nat.div_lt_iff_lt_mul hB, Nat.mul_comm, ← h.capacity_eq]
    omega

end Inv

/-- `addCapacity` makes room for `n` bytes behind the position and changes
nothing else that is visible. -/
theorem addCapacity_spec {ba : ByteArray} (h : ba.Inv) (n : Nat) :
    (ba.addCapacity n).Inv ∧ (ba.addCapacity n).baseSize = ba.baseSize ∧
      (ba.addCapacity n).position = ba.position ∧ (ba.addCapacity n).size = ba.size ∧
      (ba.addCapacity n).endian = ba.endian ∧
      (ba.addCapacity n).capacity = max ba.capacity (roundUp ba.baseSize (ba.position + n)) ∧
      ∃ fresh, (ba.addCapacity n).store = ba.store ++ fresh := by
  have hB := h.base_pos
  have hpc := h.position_le_capacity
  have hcap : ba.getCapacity = ba.capacity - ba.position := sizeSub_of_le hpc
  have hround : ba.capacity = roundUp ba.baseSize ba.capacity := by rw [h.capacity_eq, roundUp_mul hB]
  by_cases hfit : n ≤ ba.capacity - ba.position
  · have he : ba.addCapacity n = ba := by
      unfold addCapacity
      split
      · rfl
      · simp only [hcap, if_pos hfit]
    have hle : roundUp ba.baseSize (ba.position + n) ≤ ba.capacity := by
      rw [hround]
      exact roundUp_mono (by omega)
    rw [he, max_eq_left hle]
    exact ⟨h, rfl, rfl, rfl, rfl, rfl, [], by simp⟩
  · -- the branch that appends blocks
    have hcount := count_eq hB (n - (ba.capacity - ba.position))
    have hne : (n - (ba.capacity - ba.position) + ba.baseSize - 1) / ba.baseSize ≠ 0 := by
      rw [Ne, Nat.div_eq_zero_iff]
      omega
    have hgrow : ba.capacity + roundUp ba.baseSize (n - (ba.capacity - ba.position)) =
        roundUp ba.baseSize (ba.position + n) := by
      rw [h.capacity_eq, add_roundUp hB, ← h.capacity_eq]
      congr 1
      omega
    have hmax :
        max ba.capacity (roundUp ba.baseSize (ba.position + n)) = roundUp ba.baseSize (ba.position + n) :=
      max_eq_right (by omega)
    have he : ba.addCapacity n = { ba with
        nodes := ba.nodes ++ List.replicate ((n - (ba.capacity - ba.position) + ba.baseSize - 1) / ba.baseSize)
          (Node.new ba.baseSize)
        capacity := roundUp ba.baseSize (ba.position + n)
        cur := if ba.capacity - ba.position = 0 then some ba.nodes.length else ba.cur } := by
      unfold addCapacity
      simp only [hcap, if_neg (show n ≠ 0 by omega), if_neg hfit, hcount, if_neg hne, ← hgrow]
      rfl
    rw [hmax, he]
    refine ⟨?_, rfl, rfl, rfl, rfl, rfl, flat (List.replicate _ _), flat_append _ _⟩
    · constructor
      · exact hB
      · exact h.full.append (full_new _ _)
      · simp [h.root]
      · simp only [List.length_append, List.length_replicate, Nat.mul_add, ← h.capacity_eq, ← hgrow]
        rw [roundUp, Nat.mul_comm]
      · exact h.position_le
      · have := le_roundUp hB (ba.position + n)
        have := h.size_le
        simp only
        omega
      · have := le_roundUp hB (n - (ba.capacity - ba.position))
        simp only
        rw [if_neg (show ba.position ≠ roundUp ba.baseSize (ba.position + n) by omega)]
        -- `m_cur` moves to the first new block only from the end of the last one
        split
        · rw [show ba.position = ba.capacity by omega, h.capacity_eq, Nat.mul_div_cancel_left _ hB]
        · rw [h.cur_eq, if_neg (by omega)]

end Linko.ByteArray
