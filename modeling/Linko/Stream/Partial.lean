import Linko.ByteArray.Gather
import Linko.Stream.FixSize
/-!
# Transfers in parts

A stream may take or give fewer bytes than it is asked for. `readFixSize` hands
the begin of its buffer to every `read`, and `writeFixSize` to every `write`.
-/

namespace Linko

namespace Stream

open Transfer Blocks

variable {σ : Type} {s : Stream σ} {t t' : Site σ} {left left' n : UInt64} {ks : List Nat}

/-! ## Reading -/

/-- `k` bytes of the stream from place `o` on. -/
def seg (data : Nat → UInt8) (o k : Nat) : Bytes := (List.range k).map fun i => data (o + i)

theorem getElem?_seg (data : Nat → UInt8) (o k i : Nat) :
    (seg data o k)[i]? = if i < k then some (data (o + i)) else none := by
  unfold seg
  rw [List.getElem?_map]
  split
  · rename_i hi
    rw [List.getElem?_range hi]
    rfl
  · rename_i hi
    rw [List.getElem?_eq_none (by simpa using hi)]
    rfl

@[simp] theorem length_seg (data : Nat → UInt8) (o k : Nat) : (seg data o k).length = k := by simp [seg]

/-- `read` stores between one and `left` of the next bytes and returns how many. -/
def Delivers (s : Stream σ) (pos : σ → Nat) (data : Nat → UInt8) : Prop :=
  ∀ st (left : UInt64), 0 < left.toNat → ∃ k : Nat, (0 < k ∧ k ≤ left.toNat) ∧ (s.read st left).1.toInt = k ∧
    (s.read st left).2.1 = seg data (pos st) k ∧ pos (s.read st left).2.2 = pos st + k

/-- Whence the byte at place `i` of the buffer is, after pieces of these sizes
from place `o` of the stream on: the last one that is longer than `i` stored it. -/
def source : Nat → List Nat → Nat → Option Nat
  | _, [], _ => none
  | o, k :: ks, i => (source (o + k) ks i).or (if i < k then some (o + i) else none)

theorem source_cons (o k i : Nat) (ks : List Nat) :
    source o (k :: ks) i = (source (o + k) ks i).or (if i < k then some (o + i) else none) := rfl

theorem source_behind {o i : Nat} (h : ∀ k ∈ ks, k ≤ i) : source o ks i = none := by
  induction ks generalizing o with
  | nil => rfl
  | cons k ks ih =>
    have hk : ¬ i < k := Nat.not_lt.2 (h k List.mem_cons_self)
    rw [source_cons, ih fun x hx => h x (List.mem_cons_of_mem _ hx), if_neg hk]
    rfl

variable {pos : σ → Nat} {data : Nat → UInt8}

theorem Delivers.calls (h : Delivers s pos data) (hc : Calls (readInto s) left t ks left' t')
    (hroom : left.toNat ≤ t.buffer.length) :
    pos t'.stream = pos t.stream + ks.sum ∧ ∀ i : Nat,
      t'.buffer[i]? = ((source (pos t.stream) ks i).map data).or t.buffer[i]? := by
  induction hc with
  | done => simp [source]
  | @next left left' t t' k ks hk hle hval _ ih =>
    obtain ⟨k', -, hval', hbytes, hpos⟩ := h t.stream left (by omega)
    obtain rfl : k' = k := by
      have : ((k' : Int)) = k := hval'.symm.trans hval
      omega
    have hlen : 0 + (seg data (pos t.stream) k').length ≤ t.buffer.length := by
      rw [length_seg]
      omega
    have hbuffer : (readInto s t left).2.buffer = splice t.buffer 0 (seg data (pos t.stream) k') := by
      rw [← hbytes]
      rfl
    have hstream : pos (readInto s t left).2.stream = pos t.stream + k' := hpos
    rw [hbuffer, hstream] at ih
    obtain ⟨hpos', hget⟩ := ih (by rw [length_splice hlen, toNat_sub_ofNat hle]; omega)
    refine ⟨by rw [hpos', List.sum_cons]; omega, ?_⟩
    intro i
    rw [hget, getElem?_splice hlen, getElem?_seg, source_cons, length_seg]
    cases source (pos t.stream + k') ks i with
    | some j => rfl
    | none =>
      by_cases hi : i < k'
      · simp [hi]
      · simp [hi]

/-- `readFixSize` ends, returns its length, and has moved that many bytes of the
stream into the buffer, in order. -/
def Assembles (s : Stream σ) (pos : σ → Nat) (data : Nat → UInt8) (n : UInt64) (t : Site σ) : Prop :=
  ∃ fuel v t', readFixSize s n fuel t = some (v, t') ∧ v.toInt = n.toNat ∧
    pos t'.stream = pos t.stream + n.toNat ∧ t'.buffer = splice t.buffer 0 (seg data (pos t.stream) n.toNat)

/-- Each place of the range gets the byte that belongs there: the last piece that
is longer than the place has it, or it was in the buffer before and no piece is
so long. -/
def Overlaid (data : Nat → UInt8) (o : Nat) (ks : List Nat) (buffer : Bytes) (n : Nat) : Prop :=
  ∀ i < n, ((source o ks i).map data).or buffer[i]? = some (data (o + i))

theorem Delivers.buffer_iff (h : Delivers s pos data) (hc : Calls (readInto s) n t ks 0 t')
    (hroom : n.toNat ≤ t.buffer.length) :
    t'.buffer = splice t.buffer 0 (seg data (pos t.stream) n.toNat) ↔
      Overlaid data (pos t.stream) ks t.buffer n.toNat := by
  obtain ⟨-, hget⟩ := h.calls hc hroom
  have hlen : 0 + (seg data (pos t.stream) n.toNat).length ≤ t.buffer.length := by simpa using hroom
  constructor
  · intro heq i hi
    have hi' := hget i
    rw [heq, getElem?_splice hlen, getElem?_seg, length_seg] at hi'
    simpa [hi] using hi'.symm
  · intro hall
    apply List.ext_getElem?
    intro i
    rw [hget, getElem?_splice hlen, getElem?_seg, length_seg]
    by_cases hi : i < n.toNat
    · simpa [hi] using hall i hi
    · have hbehind : ∀ k ∈ ks, k ≤ i := fun k hk => Nat.le_trans (hc.le k hk) (Nat.not_lt.1 hi)
      simp [hi, source_behind hbehind]

theorem Delivers.exists_calls (h : Delivers s pos data) (n : UInt64) (t : Site σ) :
    ∃ ks t', Calls (readInto s) n t ks 0 t' := by
  apply Transfer.exists_calls (I := fun _ _ => True)
  · intro t left _ hleft
    obtain ⟨k, hk, hval, -⟩ := h t.stream left hleft
    exact ⟨k, hk, hval, trivial⟩
  · trivial

/-- `readFixSize` asks for parts until it has all. What it does is right exactly
if an `int` holds the length and the parts overlay each other with equal bytes. -/
theorem assembles_iff (h : Delivers s pos data) (hroom : n.toNat ≤ t.buffer.length) :
    (∃ ks t', Calls (readInto s) n t ks 0 t') ∧ ∀ ks t', Calls (readInto s) n t ks 0 t' →
      (Assembles s pos data n t ↔ n.toNat < 2 ^ 31 ∧ Overlaid data (pos t.stream) ks t.buffer n.toNat) := by
  refine ⟨h.exists_calls n t, ?_⟩
  intro ks t' hc
  have hpos := (h.calls hc hroom).1
  have hsum : ks.sum = n.toNat := by simpa using hc.sum_eq
  rw [← h.buffer_iff hc hroom, ← toInt_intOfSize_eq_iff]
  constructor
  · rintro ⟨fuel, v, r, hrun, hv, -, hr⟩
    obtain ⟨rfl, rfl⟩ := (fixSize_ends hc).1 ⟨fuel, hrun⟩
    exact ⟨hv, hr⟩
  · rintro ⟨hv, hr⟩
    obtain ⟨fuel, hrun⟩ := (fixSize_ends hc).2 ⟨rfl, rfl⟩
    exact ⟨fuel, _, t', hrun, hv, by rw [hpos, hsum], hr⟩

/-- A stream with the bytes 0, 1, 2, ... that transfers at most `size` of them
at a time: how many it has given, and what it has sent. -/
def pipe (size : UInt64) : Stream (Nat × Bytes) where
  read st left :=
    let k := min size left
    (intOfSize k, seg UInt8.ofNat st.1 k.toNat, st.1 + k.toNat, st.2)
  readBa st ba left :=
    let k := min size left
    match ba.write (seg UInt8.ofNat st.1 k.toNat) with
    | .ok ba => (intOfSize k, ba, st.1 + k.toNat, st.2)
    | .error _ => (-1, ba, st)
  write st bytes :=
    let k := min size.toNat bytes.length
    (Int32.ofNat k, st.1, st.2 ++ bytes.take k)
  writeBa st ba left :=
    let k := min size left
    match ba.read k.toNat with
    | .ok (cells, ba) => (intOfSize k, ba, st.1, st.2 ++ cells.map (·.getD 0))
    | .error _ => (-1, ba, st)

theorem pipe_delivers (size : UInt64) (hpos : 0 < size.toNat) (hlt : size.toNat < 2 ^ 31) :
    Delivers (pipe size) Prod.fst UInt8.ofNat := by
  intro st left hleft
  have hmin : (min size left).toNat = min size.toNat left.toNat := by
    rw [UInt64.min_def]
    split
    · rename_i hle
      exact (Nat.min_eq_left (UInt64.le_iff_toNat_le.1 hle)).symm
    · rename_i hle
      exact (Nat.min_eq_right (Nat.le_of_lt (Nat.not_le.1 fun h => hle (UInt64.le_iff_toNat_le.2 h)))).symm
  refine ⟨(min size left).toNat, by omega, ?_, rfl, rfl⟩
  exact toInt_intOfSize_eq_iff.2 (by omega)

/-- Three bytes that come at once. -/
theorem assembles_at_once : Assembles (pipe 8) Prod.fst UInt8.ofNat 3 ⟨[9, 9, 9, 9], .new 4, 0, []⟩ := by
  have hc : Calls (readInto (pipe 8)) 3 ⟨[9, 9, 9, 9], .new 4, 0, []⟩ [3] 0 ⟨[0, 1, 2, 9], .new 4, 3, []⟩ :=
    .next (by decide) (by decide) (by decide) (.done 0 _)
  have hpipe := pipe_delivers 8 (by decide) (by decide)
  refine ((assembles_iff hpipe (by decide)).2 [3] _ hc).2 ⟨by decide, ?_⟩
  unfold Overlaid
  decide

/-- Four bytes in two parts: the second part is stored over the first. -/
theorem not_assembles : ¬ ∀ (s : Stream (Nat × Bytes)) pos data n t, Delivers s pos data →
    n.toNat ≤ t.buffer.length → Assembles s pos data n t := by
  intro hall
  have hc : Calls (readInto (pipe 2)) 4 ⟨[9, 9, 9, 9], .new 4, 0, []⟩ [2, 2] 0 ⟨[2, 3, 9, 9], .new 4, 4, []⟩ :=
    .next (by decide) (by decide) (by decide) (.next (by decide) (by decide) (by decide) (.done 0 _))
  obtain ⟨fuel, v, t', hrun, -, -, hbuffer⟩ := hall (pipe 2) Prod.fst UInt8.ofNat 4 ⟨[9, 9, 9, 9], .new 4, 0, []⟩
    (pipe_delivers 2 (by decide) (by decide)) (by decide)
  obtain ⟨-, rfl⟩ := (fixSize_ends hc).1 ⟨fuel, hrun⟩
  exact absurd hbuffer (by decide)

/-! ## Writing -/

/-- `write` takes some of the first bytes it is given and returns how many, and
the peer receives them. A `read` sends nothing. -/
structure Accepts (s : Stream σ) (received : σ → Bytes) (consumed : σ → Nat) : Prop where
  write : ∀ st bytes, 0 < bytes.length → ∃ k : Nat, (0 < k ∧ k ≤ bytes.length) ∧ (s.write st bytes).1.toInt = k ∧
    received (s.write st bytes).2 = received st ++ bytes.take k ∧ consumed (s.write st bytes).2 = consumed st
  readBa : ∀ st ba left, received (s.readBa st ba left).2.2 = received st

/-- The next `n` readable bytes. -/
def readable (junk : Nat → UInt8) (ba : ByteArray) (n : Nat) : Bytes :=
  ByteArray.settle junk ba.position (slice ba.store ba.position n)

/-- `writeFixSize` ends, returns its length, and the peer has received the bytes
of the buffer. -/
def Sends (s : Stream σ) (received : σ → Bytes) (consumed : σ → Nat) (n : UInt64) (t : Site σ) : Prop :=
  ∃ fuel v t', writeFixSize s n fuel t = some (v, t') ∧ v.toInt = n.toNat ∧
    received t'.stream = received t.stream ++ t.buffer.take n.toNat ∧ consumed t'.stream = consumed t.stream

/-- The same for the bytes of the `ByteArray`, whose position moves on. -/
def SendsBa (s : Stream σ) (received : σ → Bytes) (consumed : σ → Nat) (junk : Nat → UInt8) (n : UInt64)
    (t : Site σ) : Prop :=
  ∃ fuel v t', writeFixSizeBa s n fuel t = some (v, t') ∧ v.toInt = n.toNat ∧
    received t'.stream = received t.stream ++ readable junk t.ba n.toNat ∧ consumed t'.stream = consumed t.stream ∧
    t'.ba.position = t.ba.position + n.toNat

/-- Each of the parts, from place `o` on, repeats the begin of the buffer. -/
def Restarts (buffer : Bytes) : Nat → List Nat → Prop
  | _, [] => True
  | o, k :: ks => slice buffer o k = buffer.take k ∧ Restarts buffer (o + k) ks

theorem restarts_iff {buffer : Bytes} {o : Nat} (h : o + ks.sum ≤ buffer.length) :
    ks.flatMap buffer.take = slice buffer o ks.sum ↔ Restarts buffer o ks := by
  induction ks generalizing o with
  | nil => simp [Restarts]
  | cons k ks ih =>
    rw [List.sum_cons] at h ⊢
    have hlen : (buffer.take k).length = (slice buffer o k).length := by
      rw [length_slice (by omega), List.length_take]
      omega
    unfold Restarts
    rw [← ih (by omega), List.flatMap_cons, ← slice_slice_append]
    constructor
    · intro heq
      obtain ⟨hhead, htail⟩ := List.append_inj heq hlen
      exact ⟨hhead.symm, htail⟩
    · rintro ⟨hhead, htail⟩
      rw [hhead, htail]

variable {received : σ → Bytes} {consumed : σ → Nat}

/-- Every part is taken from the begin of the buffer. -/
theorem Accepts.calls (h : Accepts s received consumed) (hc : Calls (writeFrom s) left t ks left' t')
    (hroom : left.toNat ≤ t.buffer.length) :
    received t'.stream = received t.stream ++ ks.flatMap t.buffer.take ∧ consumed t'.stream = consumed t.stream := by
  induction hc with
  | done => simp
  | @next left left' t t' k ks hk hle hval _ ih =>
    have hlen : (t.buffer.take left.toNat).length = left.toNat := List.length_take_of_le hroom
    obtain ⟨k', -, hval', hsent, hkept⟩ := h.write t.stream (t.buffer.take left.toNat) (by omega)
    obtain rfl : k' = k := by
      have : (k' : Int) = k := hval'.symm.trans hval
      omega
    have hbuffer : (writeFrom s t left).2.buffer = t.buffer := rfl
    rw [List.take_take, Nat.min_eq_left hle] at hsent
    have hsent' : received (writeFrom s t left).2.stream = received t.stream ++ t.buffer.take k' := hsent
    have hkept' : consumed (writeFrom s t left).2.stream = consumed t.stream := hkept
    rw [hbuffer, hsent', hkept'] at ih
    obtain ⟨hall, hnone⟩ := ih (by rw [toNat_sub_ofNat hle]; omega)
    exact ⟨by rw [hall, List.flatMap_cons, List.append_assoc], hnone⟩

theorem Accepts.exists_calls (h : Accepts s received consumed) (hroom : n.toNat ≤ t.buffer.length) :
    ∃ ks t', Calls (writeFrom s) n t ks 0 t' := by
  apply Transfer.exists_calls (I := fun left t => left.toNat ≤ t.buffer.length)
  · intro t left hroom hleft
    have hlen : (t.buffer.take left.toNat).length = left.toNat := List.length_take_of_le hroom
    obtain ⟨k, ⟨hk, hle⟩, hval, -⟩ := h.write t.stream (t.buffer.take left.toNat) (by omega)
    rw [hlen] at hle
    refine ⟨k, ⟨hk, hle⟩, hval, ?_⟩
    rw [toNat_sub_ofNat hle]
    exact Nat.le_trans (Nat.sub_le _ _) hroom
  · exact hroom

theorem Accepts.memory_iff (h : Accepts s received consumed) (hroom : n.toNat ≤ t.buffer.length)
    (hc : Calls (writeFrom s) n t ks 0 t') :
    Sends s received consumed n t ↔ n.toNat < 2 ^ 31 ∧ Restarts t.buffer 0 ks := by
  obtain ⟨hall, hnone⟩ := h.calls hc hroom
  have hsum : ks.sum = n.toNat := by simpa using hc.sum_eq
  have hparts : ks.flatMap t.buffer.take = t.buffer.take n.toNat ↔ Restarts t.buffer 0 ks := by
    rw [← restarts_iff (by omega), hsum]
    rfl
  rw [← hparts, ← toInt_intOfSize_eq_iff]
  constructor
  · rintro ⟨fuel, v, r, hrun, hv, hr, -⟩
    obtain ⟨rfl, rfl⟩ := (fixSize_ends hc).1 ⟨fuel, hrun⟩
    exact ⟨hv, List.append_cancel_left (hall.symm.trans hr)⟩
  · rintro ⟨hv, hr⟩
    obtain ⟨fuel, hrun⟩ := (fixSize_ends hc).2 ⟨rfl, rfl⟩
    exact ⟨fuel, _, t', hrun, hv, by rw [hall, hr], hnone⟩

/-- The other `writeFixSize` sends nothing, whatever its stream does. -/
theorem Accepts.ba_iff (h : Accepts s received consumed) (junk : Nat → UInt8) (hba : t.ba.Inv)
    (hread : n.toNat ≤ t.ba.getReadSize) : SendsBa s received consumed junk n t ↔ n = 0 := by
  have hrange : t.ba.position + n.toNat ≤ t.ba.size := by
    have := hba.position_le
    rw [ByteArray.getReadSize_eq hba] at hread
    omega
  have hlen : (readable junk t.ba n.toNat).length = n.toNat := by
    unfold readable
    rw [ByteArray.length_settle, length_slice]
    rw [hba.length_store]
    exact Nat.le_trans hrange hba.size_le
  constructor
  · rintro ⟨fuel, v, r, hrun, -, hsent, -⟩
    unfold writeFixSizeBa at hrun
    rw [fixSize_eq, Option.map_eq_some_iff] at hrun
    obtain ⟨r', hloop, hr⟩ := hrun
    obtain ⟨-, rfl⟩ := Prod.mk.inj hr
    have hquiet : received r'.stream = received t.stream :=
      loop_keeps (f := fun t : Site σ => received t.stream) (fun t left => h.readBa t.stream t.ba left) hloop
    have hnil := List.append_right_eq_self.1 (hsent.symm.trans hquiet)
    rw [hnil] at hlen
    exact UInt64.toNat_inj.1 hlen.symm
  · rintro rfl
    refine ⟨1, 0, t, rfl, rfl, ?_, rfl, rfl⟩
    rw [List.length_eq_zero_iff.1 hlen, List.append_nil]

/-- `writeFixSize` hands out parts until all is taken. The peer has the bytes of
the buffer exactly if an `int` holds their number and every part after the first
repeats the begin of the buffer. The bytes of a `ByteArray` never arrive. -/
theorem sends_iff (h : Accepts s received consumed) (hroom : n.toNat ≤ t.buffer.length) (junk : Nat → UInt8)
    (hba : t.ba.Inv) (hread : n.toNat ≤ t.ba.getReadSize) :
    ((∃ ks t', Calls (writeFrom s) n t ks 0 t') ∧ ∀ ks t', Calls (writeFrom s) n t ks 0 t' →
      (Sends s received consumed n t ↔ n.toNat < 2 ^ 31 ∧ Restarts t.buffer 0 ks)) ∧
      (SendsBa s received consumed junk n t ↔ n = 0) :=
  ⟨⟨h.exists_calls hroom, fun _ _ hc => h.memory_iff hroom hc⟩, h.ba_iff junk hba hread⟩

theorem pipe_accepts (size : UInt64) (hpos : 0 < size.toNat) (hlt : size.toNat < 2 ^ 31) :
    Accepts (pipe size) Prod.snd Prod.fst where
  write st bytes hbytes := by
    refine ⟨min size.toNat bytes.length, by omega, ?_, rfl, rfl⟩
    exact Int32.toInt_ofNat_of_lt (by omega)
  readBa st ba left := by
    unfold pipe
    dsimp only
    split <;> rfl

/-- A block with three bytes, read from its begin. -/
def threeSevens : ByteArray := ⟨4, 0, 4, 3, .big, [⟨[some 7, some 7, some 7, none], 4⟩], some 0⟩

theorem threeSevens_inv : threeSevens.Inv := ⟨by decide, by decide, by decide, by decide, by decide, by decide, by decide⟩

/-- Three equal bytes in two parts arrive from the memory, but not from a `ByteArray`. -/
theorem sends_equal : Sends (pipe 2) Prod.snd Prod.fst 3 ⟨[7, 7, 7], threeSevens, 0, []⟩ ∧
    ¬ SendsBa (pipe 2) Prod.snd Prod.fst (fun _ => 0) 3 ⟨[7, 7, 7], threeSevens, 0, []⟩ := by
  have hc : Calls (writeFrom (pipe 2)) 3 ⟨[7, 7, 7], threeSevens, 0, []⟩ [2, 1] 0 ⟨[7, 7, 7], threeSevens, 0, [7, 7, 7]⟩ :=
    .next (by decide) (by decide) (by decide) (.next (by decide) (by decide) (by decide) (.done 0 _))
  obtain ⟨⟨-, hsends⟩, hba⟩ := sends_iff (t := ⟨[7, 7, 7], threeSevens, 0, []⟩)
    (pipe_accepts 2 (by decide) (by decide)) (n := 3) (by decide) (fun _ => 0) threeSevens_inv (by decide)
  refine ⟨(hsends _ _ hc).2 ⟨by decide, ?_⟩, fun hsend => absurd (hba.1 hsend) (by decide)⟩
  unfold Restarts Restarts Restarts
  decide

/-- Three bytes in two parts: the first byte is sent in place of the last. -/
theorem not_sends : ¬ ∀ (s : Stream (Nat × Bytes)) received consumed junk n t, Accepts s received consumed →
    n.toNat ≤ t.buffer.length → t.ba.Inv → n.toNat ≤ t.ba.getReadSize →
    Sends s received consumed n t ∧ SendsBa s received consumed junk n t := by
  intro hall
  have hc : Calls (writeFrom (pipe 2)) 3 ⟨[1, 2, 3], threeSevens, 0, []⟩ [2, 1] 0 ⟨[1, 2, 3], threeSevens, 0, [1, 2, 1]⟩ :=
    .next (by decide) (by decide) (by decide) (.next (by decide) (by decide) (by decide) (.done 0 _))
  obtain ⟨fuel, v, t', hrun, -, hsent, -⟩ := (hall (pipe 2) Prod.snd Prod.fst (fun _ => 0) 3
    ⟨[1, 2, 3], threeSevens, 0, []⟩ (pipe_accepts 2 (by decide) (by decide)) (by decide) threeSevens_inv (by decide)).1
  obtain ⟨-, rfl⟩ := (fixSize_ends hc).1 ⟨fuel, hrun⟩
  exact absurd hsent (by decide)

end Stream

end Linko
