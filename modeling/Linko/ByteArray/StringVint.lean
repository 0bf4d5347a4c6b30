import Linko.ByteArray.Strings
import Mathlib.Algebra.Ring.Parity
/-!
# Strings with a variable-length length on the reader's side

`writeStringVint` stores the length in eight bytes, `readStringFVint` takes it
for a variable-length integer. Both go on regardless, so a list of strings comes
back only when it happens to repeat what stands in front of it.
-/

namespace Linko.ByteArray

open Blocks Words Base128

/-! ## Lists that come back by coincidence -/

/-- Every string repeats the bytes from the start of block `c` on, the first of
which is its length; `c` moves on by the whole blocks of the string. -/
def Echo (B : Nat) (bytes : List UInt8) : Nat → List (List UInt8) → Prop
  | _, [] => True
  | c, s :: vs => s.length < 128 ∧ bytes[B * c]? = some (UInt8.ofNat s.length) ∧
      slice bytes (B * c) s.length = s ∧ Echo B bytes (c + s.length / B) vs

/-- The strings echo their own text, and the blocks the reader skips for the
lengths and the strings add up to what was written. -/
structure Coincides (e : Endian) (B : Nat) (vs : List (List UInt8)) : Prop where
  small : 5 ≤ B ∧ B ≤ 8
  echo : Echo B (text e 8 vs) 0 vs
  balanced : span B 1 vs = (text e 8 vs).length

theorem roundUp_lt {B : Nat} (hB : 1 ≤ B) (n : Nat) : roundUp B n < n + B := by
  have := Nat.div_mul_le_self (n + B - 1) B
  unfold roundUp
  omega

theorem roundUp_one {B : Nat} (hB : 1 ≤ B) : roundUp B 1 = B := by
  rw [roundUp, Nat.add_sub_cancel_left, Nat.div_self hB, Nat.one_mul]

theorem span_cons (B w : Nat) (s : List UInt8) (vs : List (List UInt8)) :
    span B w (s :: vs) = roundUp B w + roundUp B s.length + span B w vs := by
  rw [span, span, List.map_cons, List.sum_cons]

theorem length_text_cons (e : Endian) (w : Nat) (s : List UInt8) (vs : List (List UInt8)) :
    (text e w (s :: vs)).length = w + s.length + (text e w vs).length := by
  rw [text_cons, List.length_append, List.length_append, length_header, Nat.add_assoc]

theorem span_mono {B w w' : Nat} (h : w ≤ w') (vs : List (List UInt8)) : span B w vs ≤ span B w' vs := by
  induction vs with
  | nil => exact Nat.le_refl _
  | cons s vs ih =>
    have := roundUp_mono (B := B) h
    rw [span_cons, span_cons]
    omega

/-- Blocks of up to four bytes fall behind what was written with every string. -/
theorem span_lt {B : Nat} (hB : 1 ≤ B) (h4 : B ≤ 4) (e : Endian) (vs : List (List UInt8)) :
    span B 1 vs + vs.length ≤ (text e 8 vs).length := by
  induction vs with
  | nil => exact Nat.le_refl _
  | cons s vs ih =>
    have := roundUp_lt hB s.length
    rw [span_cons, length_text_cons, roundUp_one hB, List.length_cons]
    omega

/-- Blocks of nine bytes and more run ahead of it. -/
theorem lt_span {B : Nat} (h9 : 9 ≤ B) (e : Endian) (vs : List (List UInt8)) :
    (text e 8 vs).length + vs.length ≤ span B 1 vs := by
  have hB : 1 ≤ B := by omega
  induction vs with
  | nil => exact Nat.le_refl _
  | cons s vs ih =>
    have := le_roundUp hB s.length
    rw [span_cons, length_text_cons, roundUp_one hB, List.length_cons]
    omega

theorem small_of_balanced {B : Nat} (hB : 1 ≤ B) {e : Endian} {vs : List (List UInt8)} (hne : vs ≠ [])
    (h : span B 1 vs = (text e 8 vs).length) : 5 ≤ B ∧ B ≤ 8 := by
  have hpos := List.length_pos_iff.2 hne
  constructor
  · by_contra hlt
    have := span_lt hB (by omega) e vs
    omega
  · by_contra hgt
    have := lt_span (show 9 ≤ B by omega) e vs
    omega

/-! ## One length -/

/-- A byte with the high bit, read ten times, is no length with that low byte
that a string can have. -/
theorem repeated_byte (b : UInt8) (hb : 128 ≤ b)
    (hlow : (UInt64.ofNat (value (List.replicate 10 b))).toNat % 256 = b.toNat) :
    2 ^ 63 ≤ (UInt64.ofNat (value (List.replicate 10 b))).toNat := by
  have hlt := b.toNat_lt
  have hge : 128 ≤ b.toNat := UInt8.le_iff_toNat_le.1 hb
  obtain ⟨k, hk⟩ : ∃ k, b.toNat % 128 = k := ⟨_, rfl⟩
  have hv : value (List.replicate 10 b) = 9295997013522923649 * k := by
    have := value_replicate b 10
    rw [hk] at this
    omega
  rw [UInt64.toNat_ofNat', hv] at hlow ⊢
  rcases Nat.even_or_odd' k with ⟨m, rfl | rfl⟩
  · -- an even group leaves the high bit of the low byte clear
    have hsplit : 9295997013522923649 * (2 * m) = 2 ^ 64 * m + 145249953336295682 * m := by omega
    have hfit : 145249953336295682 * m < 2 ^ 64 := by omega
    have hlast : 145249953336295682 * m = 256 * (567382630219905 * m) + 2 * m := by omega
    have hsmall : 2 * m < 256 := by omega
    rw [hsplit, Nat.mul_add_mod, Nat.mod_eq_of_lt hfit, hlast, Nat.mul_add_mod, Nat.mod_eq_of_lt hsmall] at hlow
    omega
  · -- an odd one sets the top bit of the word
    have hsplit : 9295997013522923649 * (2 * m + 1) =
        2 ^ 64 * m + (145249953336295682 * m + 9295997013522923649) := by omega
    have hfit : 145249953336295682 * m + 9295997013522923649 < 2 ^ 64 := by omega
    rw [hsplit, Nat.mul_add_mod, Nat.mod_eq_of_lt hfit]
    omega

section

variable {ba : ByteArray} {c : Nat}

/-- In blocks of two bytes and more: one byte, or the same one ten times. -/
theorem Aligned.readUint64_cases (h : Aligned ba c) (host : Endian) (hB : 2 ≤ ba.baseSize) {v : UInt64}
    {ba₁ : ByteArray} (hr : readUint64 host ba = .ok (some v, ba₁)) :
    Aligned ba₁ c ∧ ∃ b, ba.store[ba.baseSize * c]? = some (some b) ∧
      (b < 128 ∧ v.toNat = b.toNat ∧ ba₁ = ba.behind c 1 ∨
        128 ≤ b ∧ v = UInt64.ofNat (value (List.replicate 10 b))) := by
  obtain ⟨bs, ht, hf, rfl⟩ := decodeUint64_iff.1 hr
  obtain ⟨hall, hcur⟩ := h.toCursor.feeds_same host hB h.aligned hf
  have halign : ba₁.baseSize ∣ ba₁.position := by
    rw [h.toCursor.feeds_position host h.aligned hf, (h.toCursor.feeds_frame host hf).baseSize]
    exact Nat.dvd_add h.aligned (Nat.dvd_mul_left _ _)
  cases bs with
  | nil => exact ht.elim
  | cons b bs =>
    have hb := hall b List.mem_cons_self
    refine ⟨⟨hcur, halign⟩, b, hb, ?_⟩
    by_cases hlt : b < 128
    · left
      rw [Taken, if_pos hlt] at ht
      subst ht
      obtain ⟨ba₂, hread, rfl⟩ := hf
      obtain ⟨-, -, -, rfl⟩ := (h.toCursor.readFuint8_iff host b ba₂).1 hread
      have hlt' : b.toNat < 128 := UInt8.lt_iff_toNat_lt.1 hlt
      refine ⟨hlt, ?_, rfl⟩
      rw [value, value, UInt64.toNat_ofNat']
      omega
    · right
      have hsame : ∀ b' ∈ b :: bs, b' = b := by
        intro b' hb'
        have he := (hall b' hb').symm.trans hb
        rwa [Option.some.injEq, Option.some.injEq] at he
      have hge := UInt8.not_lt.1 hlt
      have hlen := ht.length_eq fun b' hb' => hsame b' hb' ▸ hge
      exact ⟨hge, by rw [List.eq_replicate_of_mem hsame, hlen]⟩

/-- A length of one byte, in blocks of any size. -/
theorem Aligned.readUint64_small (h : Aligned ba c) (host : Endian) {b : UInt8} (hlt : b < 128)
    (hsize : 1 ≤ ba.getReadSize) (hc : c < ba.nodes.length)
    (hb : ba.store[ba.baseSize * c]? = some (some b)) :
    readUint64 host ba = .ok (some (UInt64.ofNat b.toNat), ba.behind c 1) := by
  have hread : readFuint8 host ba = .ok (some b, ba.behind c 1) := by
    refine (h.toCursor.readFuint8_iff host b _).2 ⟨hsize, hc, ?_, rfl⟩
    rwa [Nat.mod_eq_zero_of_dvd h.aligned, Nat.add_zero]
  have hlt' : b.toNat < 128 := UInt8.lt_iff_toNat_lt.1 hlt
  refine decodeUint64_iff.2 ⟨[b], by rw [Taken, if_pos hlt], ⟨_, hread, rfl⟩, ?_⟩
  rw [value, value, Nat.mod_eq_of_lt hlt']
  rfl

end

/-! ## The bytes of the lengths -/

theorem toNat_length {n : Nat} (h : n < 2 ^ 63) : (BitVec.ofNat (8 * 8) n).toNat = n := by
  rw [BitVec.toNat_ofNat]
  omega

theorem header_small {n : Nat} (h : n < 128) (e : Endian) : ∀ b ∈ header e 8 n, b < 128 := by
  have hle : ∀ b ∈ leBytes 8 n, b < 128 := by
    intro b hb
    rw [leBytes_small (by omega)] at hb
    rcases List.mem_cons.1 hb with rfl | hb
    · rw [UInt8.lt_iff_toNat_lt, UInt8.toNat_ofNat']
      show _ < 128
      omega
    · rw [List.eq_of_mem_replicate hb]
      decide
  intro b hb
  have hx : (BitVec.ofNat (8 * 8) n).toNat = n := toNat_length (by omega)
  cases e with
  | little => exact hle b (by rwa [header, Endian.order, bytesOf, hx] at hb)
  | big => exact hle b (by rwa [header, Endian.order, bytesOf, hx, List.mem_reverse] at hb)

/-- A length whose first byte is the length itself has no other byte. -/
theorem header_of_first {n : Nat} (h : n < 128) (e : Endian) {b : UInt8} {bs : List UInt8}
    (hcons : header e 8 n = b :: bs) (hb : b.toNat = n) : bs = List.replicate 7 0 := by
  have hx : (BitVec.ofNat (8 * 8) n).toNat = n := toNat_length (by omega)
  cases e with
  | little =>
    rw [header, Endian.order, bytesOf, hx, leBytes_small (by omega)] at hcons
    exact (List.cons.inj hcons).2.symm
  | big =>
    have hcons' : bytesOf .big (BitVec.ofNat (8 * 8) n) = b :: bs := hcons
    have hfirst := (first_byte_eq_iff (by decide) .big (x := BitVec.ofNat (8 * 8) n) (by simp)).1
    simp only [hcons', List.getElem_cons_zero, hx, hb, h, true_and, reduceCtorEq, false_and, false_or,
      forall_const] at hfirst
    subst hfirst
    exact (List.cons.inj hcons).2.symm

/-- The first byte of a length, read ten times, is not that length. -/
theorem header_repeated {n : Nat} (h : n < 2 ^ 63) (e : Endian) {b : UInt8} {bs : List UInt8}
    (hcons : header e 8 n = b :: bs) (hb : 128 ≤ b) :
    (UInt64.ofNat (value (List.replicate 10 b))).toNat ≠ n := by
  intro hn
  have hx := toNat_length h
  cases e with
  | little =>
    have hcons' : bytesOf .little (BitVec.ofNat (8 * 8) n) = b :: bs := hcons
    have hlow := low_byte (x := BitVec.ofNat (8 * 8) n) (by simp)
    simp only [hcons', List.getElem_cons_zero, hx] at hlow
    have := repeated_byte b hb (by rw [hn, hlow])
    omega
  | big =>
    have hcons' : bytesOf .big (BitVec.ofNat (8 * 8) n) = b :: bs := hcons
    have htop := top_byte (x := BitVec.ofNat (8 * 8) n) (by simp)
    simp only [hcons', List.getElem_cons_zero, hx] at htop
    have hge : 128 ≤ b.toNat := UInt8.le_iff_toNat_le.1 hb
    omega

/-! ## Blocks of two bytes and more -/

/-- The store begins with these bytes. -/
def HoldsText (ba : ByteArray) (bytes : List UInt8) : Prop :=
  ∀ i, i < bytes.length → ba.store[i]? = bytes[i]?.map some

theorem HoldsText.slice {ba : ByteArray} {bytes : List UInt8} (h : HoldsText ba bytes) {o n : Nat}
    (hle : o + n ≤ bytes.length) : slice ba.store o n = (slice bytes o n).map some := by
  apply List.ext_getElem?
  intro j
  rw [getElem?_slice, List.getElem?_map, getElem?_slice]
  split
  · exact h _ (by omega)
  · rfl

theorem HoldsText.length_le {ba : ByteArray} {bytes : List UInt8} (h : HoldsText ba bytes) :
    bytes.length ≤ ba.store.length := by
  rcases Nat.eq_zero_or_pos bytes.length with h0 | hpos
  · omega
  · have hlast := h (bytes.length - 1) (by omega)
    rw [List.getElem?_eq_getElem (show bytes.length - 1 < bytes.length by omega)] at hlast
    have := (List.getElem?_eq_some_iff.1 hlast).1
    omega

theorem Rewound.holdsText {ba : ByteArray} {B : Nat} {e : Endian} {bs : List UInt8} (h : Rewound ba B e bs) :
    HoldsText ba bs := by
  intro i hi
  have hget := congrArg (·[i]?) h.bytes
  simpa only [getElem?_slice, if_pos hi, Nat.zero_add, List.getElem?_map] using hget

/-- Copying from what lies in front brings in no byte that was not there. -/
theorem low_copy {pre hd s rest : List UInt8} {o : Nat} (hhd : hd ≠ []) (ho : o ≤ pre.length)
    (hpre : ∀ b ∈ pre, b < 128) (hlow : ∀ b ∈ hd, b < 128)
    (hs : Blocks.slice (pre ++ (hd ++ (s ++ rest))) o s.length = s) : ∀ b ∈ s, b < 128 := by
  have hpos := List.length_pos_iff.2 hhd
  have hall : ∀ j (hj : j < s.length), s[j] < 128 := by
    intro j
    induction j using Nat.strongRecOn with
    | ind j ih =>
      intro hj
      have hget : s[j]? = (pre ++ (hd ++ (s ++ rest)))[o + j]? := by
        conv_lhs => rw [← hs]
        rw [getElem?_slice, if_pos hj]
      rw [List.getElem?_eq_getElem hj] at hget
      -- the byte lies in the earlier text, in the length, or in the string itself, further in front
      by_cases h₁ : o + j < pre.length
      · rw [List.getElem?_append_left h₁, List.getElem?_eq_getElem h₁, Option.some.injEq] at hget
        exact hget ▸ hpre _ (List.getElem_mem h₁)
      · rw [List.getElem?_append_right (by omega)] at hget
        by_cases h₂ : o + j - pre.length < hd.length
        · rw [List.getElem?_append_left h₂, List.getElem?_eq_getElem h₂, Option.some.injEq] at hget
          exact hget ▸ hlow _ (List.getElem_mem h₂)
        · have h₃ : o + j - pre.length - hd.length < s.length := by omega
          rw [List.getElem?_append_right (by omega), List.getElem?_append_left h₃, List.getElem?_eq_getElem h₃,
            Option.some.injEq] at hget
          exact hget ▸ ih _ (by omega) h₃
  intro b hb
  obtain ⟨j, hj, rfl⟩ := List.getElem_of_mem hb
  exact hall j hj

section

variable {ba ba' : ByteArray} {c : Nat} {e : Endian} {pre : List UInt8}

/-- One string read in blocks of two bytes and more: it repeats the bytes from
the start of its block on, and the position moves by whole blocks. -/
theorem Aligned.readVint_step (h : Aligned ba c) (host : Endian) (hB : 2 ≤ ba.baseSize) {s : List UInt8}
    {vs : List (List UInt8)} (hst : HoldsText ba (pre ++ text e 8 (s :: vs))) (hpre : ∀ b ∈ pre, b < 128)
    (hc : ba.baseSize * c ≤ pre.length) (hmax : s.length < 2 ^ 63)
    (hr : readStringFVint host ba = .ok (some s, ba')) :
    s.length < 128 ∧ (pre ++ text e 8 (s :: vs))[ba.baseSize * c]? = some (UInt8.ofNat s.length) ∧
      slice (pre ++ text e 8 (s :: vs)) (ba.baseSize * c) s.length = s ∧
      ba' = (ba.behind c 1).behind c s.length := by
  obtain ⟨len, ba₁, hlen, hbuff⟩ := readString_iff.1 hr
  obtain ⟨h₁, b, hb, hcases⟩ := h.readUint64_cases host hB hlen
  obtain ⟨-, -, hroom, hs, rfl⟩ := (h₁.readBuff_iff len.toNat s ba').1 hbuff
  have hsize : s.length = len.toNat := by
    have := congrArg List.length hs
    rwa [length_slice hroom, List.length_map, eq_comm] at this
  have htotal : (pre ++ text e 8 (s :: vs)).length = pre.length + (8 + s.length + (text e 8 vs).length) := by
    rw [List.length_append, length_text_cons]
  have hbyte : (pre ++ text e 8 (s :: vs))[ba.baseSize * c]? = some b := by
    have := hst (ba.baseSize * c) (by omega)
    rw [hb] at this
    obtain ⟨b', hb', he⟩ := Option.map_eq_some_iff.1 this.symm
    rw [hb', Option.some.inj he]
  have hlow : b < 128 := by
    by_contra hge
    obtain ⟨hge, rfl⟩ : 128 ≤ b ∧ len = UInt64.ofNat (value (List.replicate 10 b)) :=
      hcases.resolve_left fun h => hge h.1
    -- a byte of the earlier text is low, and the first byte of its own length cannot stand for it
    rcases Nat.lt_or_ge (ba.baseSize * c) pre.length with hin | hout
    · rw [List.getElem?_append_left hin, List.getElem?_eq_getElem hin, Option.some.injEq] at hbyte
      exact absurd (hbyte ▸ hpre _ (List.getElem_mem hin)) (UInt8.not_lt.2 hge)
    · obtain ⟨b', bs, hcons⟩ := List.exists_cons_of_length_pos (l := header e 8 s.length) (by simp)
      rw [List.getElem?_append_right hout, text_cons, hcons, show ba.baseSize * c - pre.length = 0 by omega,
        List.cons_append, List.getElem?_cons_zero, Option.some.injEq] at hbyte
      exact header_repeated hmax e (hbyte ▸ hcons) hge hsize.symm
  have hlt : b.toNat < 128 := UInt8.lt_iff_toNat_lt.1 hlow
  obtain ⟨-, hv, rfl⟩ := hcases.resolve_right fun h => absurd hlow (UInt8.not_lt.2 h.1)
  rw [hv] at hsize hs
  refine ⟨by omega, by rw [hbyte, hsize, UInt8.ofNat_toNat], ?_, by rw [hv, hsize]⟩
  rw [behind_store, behind_baseSize, hst.slice (by omega)] at hs
  rw [hsize]
  exact List.map_injective_iff.2 (Option.some_injective _) hs

theorem Aligned.behind_vint (h : Aligned ba c) (hB : 2 ≤ ba.baseSize) (n : Nat) :
    Aligned ((ba.behind c 1).behind c n) (c + n / ba.baseSize) ∧ Frame ba ((ba.behind c 1).behind c n) ∧
      ((ba.behind c 1).behind c n).position =
        ba.position + (roundUp ba.baseSize 1 + roundUp ba.baseSize n) := by
  have h₁ := h.behind 1
  rw [Nat.div_eq_of_lt hB, Nat.add_zero] at h₁
  refine ⟨h₁.behind n, (frame_behind ba c 1).trans (frame_behind _ c n), ?_⟩
  rw [h₁.behind_position, h.behind_position, behind_baseSize, Nat.add_assoc]

theorem Aligned.echo_of_feeds (h : Aligned ba c) (host : Endian) (hB : 2 ≤ ba.baseSize) {vs : List (List UInt8)}
    {bytes : List UInt8} (hbytes : bytes = pre ++ text e 8 vs) (hst : HoldsText ba bytes)
    (hpre : ∀ b ∈ pre, b < 128) (hc : ba.baseSize * c ≤ pre.length) (hmax : ∀ s ∈ vs, s.length < 2 ^ 63)
    (hf : Feeds (readStringFVint host) vs ba ba') :
    Echo ba.baseSize bytes c vs ∧ Frame ba ba' ∧ ba'.position = ba.position + span ba.baseSize 1 vs := by
  induction vs generalizing ba c pre with
  | nil =>
    obtain rfl : ba = ba' := hf
    exact ⟨trivial, Frame.refl ba, rfl⟩
  | cons s vs ih =>
    obtain ⟨ba₁, hread, hrest⟩ := hf
    obtain ⟨hs, hmax⟩ := List.forall_mem_cons.1 hmax
    subst hbytes
    obtain ⟨hlt, hbyte, hslice, rfl⟩ := h.readVint_step host hB hst hpre hc hs hread
    obtain ⟨h₁, hframe, hpos⟩ := h.behind_vint hB s.length
    have hcopy := hslice
    rw [text_cons] at hcopy
    have hlow := low_copy (List.length_pos_iff.1 (by simp)) hc hpre (header_small hlt e) hcopy
    have hnext := Nat.mul_div_le s.length ba.baseSize
    have hassoc : pre ++ text e 8 (s :: vs) = pre ++ (header e 8 s.length ++ s) ++ text e 8 vs := by
      rw [text_cons]
      simp only [List.append_assoc]
    have hpre' : ∀ b ∈ pre ++ (header e 8 s.length ++ s), b < 128 := by
      intro b hb
      rcases List.mem_append.1 hb with hb | hb
      · exact hpre b hb
      · rcases List.mem_append.1 hb with hb | hb
        · exact header_small hlt e b hb
        · exact hlow b hb
    have hc' : ba.baseSize * (c + s.length / ba.baseSize) ≤ (pre ++ (header e 8 s.length ++ s)).length := by
      rw [Nat.mul_add, List.length_append, List.length_append, length_header]
      omega
    obtain ⟨hecho, hframe', hpos'⟩ := ih h₁ hB hassoc hst hpre' hc' hmax hrest
    refine ⟨⟨hlt, hbyte, hslice, hecho⟩, hframe.trans hframe', ?_⟩
    rw [hpos', hpos, hframe.baseSize, span_cons, Nat.add_assoc]

theorem add_le_of_slice {l s : List UInt8} {o : Nat} (ho : o < l.length) (h : slice l o s.length = s) :
    o + s.length ≤ l.length := by
  have := congrArg List.length h
  simp only [slice, List.length_take, List.length_drop] at this
  omega

theorem Aligned.feeds_of_echo (h : Aligned ba c) (host : Endian) (hB : 2 ≤ ba.baseSize) {vs : List (List UInt8)}
    {bytes : List UInt8} (hst : HoldsText ba bytes) (hsize : ba.position + span ba.baseSize 1 vs ≤ ba.size)
    (hecho : Echo ba.baseSize bytes c vs) :
    ∃ ba', Feeds (readStringFVint host) vs ba ba' ∧ Frame ba ba' ∧
      ba'.position = ba.position + span ba.baseSize 1 vs := by
  induction vs generalizing ba c with
  | nil => exact ⟨ba, rfl, Frame.refl ba, rfl⟩
  | cons s vs ih =>
    obtain ⟨hlt, hbyte, hslice, hecho⟩ := hecho
    have hone := roundUp_one h.base_pos
    have hround := le_roundUp h.base_pos s.length
    have hstore := length_store_of_full h.full
    have hle := hst.length_le
    rw [span_cons, hone] at hsize
    obtain ⟨hin, -⟩ := List.getElem?_eq_some_iff.1 hbyte
    have hfit := add_le_of_slice hin hslice
    have hc : c < ba.nodes.length := by
      have : ba.baseSize * c < ba.baseSize * ba.nodes.length := by omega
      exact Nat.lt_of_mul_lt_mul_left this
    have hn : (UInt8.ofNat s.length).toNat = s.length := by
      rw [UInt8.toNat_ofNat']
      omega
    obtain ⟨h₁, hframe, hpos⟩ := h.behind_vint hB s.length
    have hheld := h.behind 1
    rw [Nat.div_eq_of_lt hB, Nat.add_zero] at hheld
    have hlen : readUint64 host ba = .ok (some (UInt64.ofNat (UInt8.ofNat s.length).toNat), ba.behind c 1) := by
      refine h.readUint64_small host ?_ ?_ hc ?_
      · exact UInt8.lt_iff_toNat_lt.2 (by rw [hn]; exact hlt)
      · rw [getReadSize, sizeSub_of_le (by omega)]
        omega
      · rw [hst _ hin, hbyte]
        rfl
    have hbuff : readBuff (ba.behind c 1) (UInt64.ofNat (UInt8.ofNat s.length).toNat).toNat =
        .ok (some s, (ba.behind c 1).behind c s.length) := by
      have hn' : (UInt64.ofNat (UInt8.ofNat s.length).toNat).toNat = s.length := by
        rw [UInt64.toNat_ofNat', hn]
        omega
      rw [hn']
      refine (hheld.readBuff_iff _ s _).2 ⟨?_, hc, ?_, ?_, rfl⟩
      · rw [getReadSize, behind_size, h.behind_position, hone, sizeSub_of_le (by omega)]
        omega
      · rw [behind_baseSize, behind_store]
        omega
      · rw [behind_baseSize, behind_store, hst.slice hfit, hslice]
    obtain ⟨ba', hf, hframe', hpos'⟩ :=
      ih h₁ hB hst (by rw [hpos, hone, hframe.baseSize, hframe.size]; omega) hecho
    refine ⟨ba', ⟨_, readString_iff.2 ⟨_, _, hlen, hbuff⟩, hf⟩, hframe.trans hframe', ?_⟩
    rw [hpos', hpos, hframe.baseSize, span_cons, Nat.add_assoc]

end

/-! ## Blocks of one byte -/

/-- The eighth byte of a little-endian length is its top one. -/
theorem header_top {n : Nat} (h : n < 2 ^ 63) {b : UInt8} (hb : (header .little 8 n)[7]? = some b) :
    b < 128 := by
  have hx := leValue_bytesOf_little (BitVec.ofNat (8 * 8) n)
  rw [toNat_length h] at hx
  obtain ⟨hlt, hget⟩ := List.getElem?_eq_some_iff.1 hb
  have hsplit : bytesOf .little (BitVec.ofNat (8 * 8) n) = (header .little 8 n).take 7 ++ [b] := by
    have hdrop : (header .little 8 n).drop 7 = [b] := by
      rw [List.drop_eq_getElem_cons hlt, hget, List.drop_of_length_le (by simp)]
    rw [← hdrop, List.take_append_drop]
    rfl
  have htake : ((header .little 8 n).take 7).length = 7 := by simp
  rw [hsplit, leValue_append, htake, leValue, leValue] at hx
  rw [UInt8.lt_iff_toNat_lt]
  show b.toNat < 128
  omega

/-- The bytes of a length of two bytes and more, read in order, are not that
length. -/
theorem header_not_varint {n : Nat} (h : n < 2 ^ 63) {e : Endian} {b : UInt8} {hs bs : List UInt8}
    (hcons : header e 8 n = b :: hs) (hb : 128 ≤ b) (ht : Taken 10 (b :: bs))
    (hagree : ∀ i, i < (b :: bs).length → i < 8 → (b :: bs)[i]? = (b :: hs)[i]?) :
    (UInt64.ofNat (value (b :: bs))).toNat ≠ n := by
  intro hn
  have hx := toNat_length h
  cases e with
  | big =>
    have hcons' : bytesOf .big (BitVec.ofNat (8 * 8) n) = b :: hs := hcons
    have htop := top_byte (x := BitVec.ofNat (8 * 8) n) (by simp)
    simp only [hcons', List.getElem_cons_zero, hx] at htop
    have hge : 128 ≤ b.toNat := UInt8.le_iff_toNat_le.1 hb
    omega
  | little =>
    have hcons' : bytesOf .little (BitVec.ofNat (8 * 8) n) = b :: hs := hcons
    have hlen : (b :: hs).length = 8 := by rw [← hcons, length_header]
    rcases Nat.lt_or_ge 8 (b :: bs).length with h9 | h8
    · -- the top byte of the length would have the high bit
      have hseven := hagree 7 (by omega) (by decide)
      rw [List.getElem?_eq_getElem (show 7 < (b :: bs).length by omega), ← hcons] at hseven
      exact absurd (header_top h hseven.symm) (UInt8.not_lt.2 (ht.high 7 (by omega)))
    · -- what is read begins the length
      have hpre : b :: bs <+: bytesOf .little (BitVec.ofNat (8 * 8) n) := by
        rw [hcons', List.prefix_iff_getElem?]
        intro i hi
        rw [← hagree i hi (by omega), List.getElem?_eq_getElem hi]
      have hlt := value_lt_of_start hb hpre
      have hfit := value_lt (b :: bs)
      have hpow : 128 ^ (b :: bs).length ≤ 128 ^ 8 := Nat.pow_le_pow_right (by decide) h8
      rw [UInt64.toNat_ofNat', Nat.mod_eq_of_lt (by omega)] at hn
      omega

/-- In blocks of one byte the length is one byte too, and what is left of its
eight bytes are zeros. -/
theorem one_byte_length {e : Endian} {z : Nat} {s : List UInt8} {vs : List (List UInt8)} {bs : List UInt8}
    (hmax : s.length < 2 ^ 63) (ht : Taken 10 bs)
    (hagree : ∀ i, i < bs.length → i < (List.replicate z 0 ++ text e 8 (s :: vs)).length →
      bs[i]? = (List.replicate z 0 ++ text e 8 (s :: vs))[i]?)
    (hlen : (UInt64.ofNat (value bs)).toNat = s.length) :
    ∃ b k, bs = [b] ∧
      List.replicate z 0 ++ text e 8 (s :: vs) = b :: (List.replicate (k + 1) 0 ++ (s ++ text e 8 vs)) := by
  cases bs with
  | nil => exact ht.elim
  | cons b bs =>
    have hb := hagree 0 (by simp) (by rw [List.length_append, length_text_cons]; omega)
    rw [List.getElem?_cons_zero] at hb
    -- a first byte without the high bit is the whole length
    have hone : b < 128 → bs = [] ∧ s.length = b.toNat := by
      intro hlt
      have hlt' : b.toNat < 128 := UInt8.lt_iff_toNat_lt.1 hlt
      rw [Taken, if_pos hlt] at ht
      refine ⟨ht, ?_⟩
      rw [ht, value, value, UInt64.toNat_ofNat'] at hlen
      omega
    cases z with
    | succ z =>
      obtain rfl : b = 0 := by simpa [List.replicate_succ] using hb
      obtain ⟨rfl, hs⟩ := hone (by decide)
      obtain rfl := List.length_eq_zero_iff.1 hs
      have hzero : header e 8 0 = List.replicate 8 0 := by cases e <;> rfl
      refine ⟨0, z + 7, rfl, ?_⟩
      rw [text_cons, List.length_nil, hzero, List.replicate_succ, List.cons_append, ← List.append_assoc,
        List.replicate_append_replicate]
    | zero =>
      rw [List.replicate_zero, List.nil_append] at *
      obtain ⟨b', hs, hcons⟩ := List.exists_cons_of_length_pos (l := header e 8 s.length) (by simp)
      rw [text_cons, hcons, List.cons_append, List.getElem?_cons_zero, Option.some.injEq] at hb
      subst hb
      by_cases hlt : b < 128
      · obtain ⟨rfl, hsize⟩ := hone hlt
        have hlt' : b.toNat < 128 := UInt8.lt_iff_toNat_lt.1 hlt
        refine ⟨b, 6, rfl, ?_⟩
        rw [text_cons, hcons, header_of_first (by omega) e hcons hsize.symm, List.cons_append]
      · have hag : ∀ i, i < (b :: bs).length → i < 8 → (b :: bs)[i]? = (b :: hs)[i]? := by
          intro i hi hi'
          rw [hagree i hi (by rw [length_text_cons]; omega), text_cons, hcons,
            List.getElem?_append_left (by rw [← hcons, length_header]; exact hi')]
        exact absurd hlen (header_not_varint hmax hcons (UInt8.not_lt.1 hlt) ht hag)

/-- A string that repeats what comes after some zeros, itself first. -/
theorem zeros_of_take {s rest : List UInt8} {k : Nat}
    (h : s = (List.replicate (k + 1) 0 ++ (s ++ rest)).take s.length) : s = List.replicate s.length 0 := by
  have hall : ∀ j (hj : j < s.length), s[j] = 0 := by
    intro j
    induction j using Nat.strongRecOn with
    | ind j ih =>
      intro hj
      have hget : s[j]? = (List.replicate (k + 1) 0 ++ (s ++ rest))[j]? := by
        conv_lhs => rw [h]
        rw [List.getElem?_take, if_pos hj]
      rw [List.getElem?_eq_getElem hj] at hget
      by_cases hk : j < k + 1
      · rw [List.getElem?_append_left (by simpa using hk), List.getElem?_replicate, if_pos hk] at hget
        exact Option.some.inj hget
      · rw [List.getElem?_append_right (by simpa using hk), List.length_replicate,
          List.getElem?_append_left (by omega), List.getElem?_eq_getElem
            (show j - (k + 1) < s.length by omega)] at hget
        exact (Option.some.inj hget).trans (ih _ (by omega) (by omega))
  apply List.eq_replicate_of_mem
  intro b hb
  obtain ⟨j, hj, rfl⟩ := List.getElem_of_mem hb
  exact hall j hj

theorem roundUp_blocks_one (n : Nat) : roundUp 1 n = n := by
  rw [roundUp, Nat.div_one, Nat.mul_one, Nat.add_sub_cancel]

section

variable {ba ba' : ByteArray} {c z : Nat} {e : Endian}

/-- The zeros in front of a string that is itself taken from them. -/
theorem zeros_shift {s rest : List UInt8} {k : Nat}
    (h : s = (List.replicate (k + 1) 0 ++ (s ++ rest)).take s.length) :
    List.replicate (k + 1) 0 ++ (s ++ rest) = List.replicate s.length 0 ++
      (List.replicate (k + 1) 0 ++ rest) := by
  rw [← List.append_assoc, ← List.append_assoc]
  congr 1
  conv_lhs => rw [zeros_of_take h]
  rw [List.replicate_append_replicate, List.replicate_append_replicate, Nat.add_comm]

/-- One string: the reader stands in front of zeros and the rest of the text
again. -/
theorem Aligned.vint_one_step (h : Aligned ba c) (host : Endian) (hB : ba.baseSize = 1) {s : List UInt8}
    {vs : List (List UInt8)}
    (hst : ∀ i, i < (List.replicate z 0 ++ text e 8 (s :: vs)).length →
      ba.store[c + i]? = (List.replicate z 0 ++ text e 8 (s :: vs))[i]?.map some)
    (hs : s.length < 2 ^ 63) (hread : readStringFVint host ba = .ok (some s, ba')) :
    ∃ c' k, Aligned ba' c' ∧ Frame ba ba' ∧ ba'.position = ba.position + 1 + s.length ∧
      ∀ i, i < (List.replicate k 0 ++ text e 8 vs).length →
        ba'.store[c' + i]? = (List.replicate k 0 ++ text e 8 vs)[i]?.map some := by
  obtain ⟨len, ba₂, hlen, hbuff⟩ := readString_iff.1 hread
  obtain ⟨bs, ht, hf, rfl⟩ := decodeUint64_iff.1 hlen
  obtain ⟨hslice, hcur⟩ := h.toCursor.feeds_one host hB hf
  have hframe := h.toCursor.feeds_frame host hf
  have hpos := h.toCursor.feeds_position host h.aligned hf
  have h₂ : Aligned ba₂ (c + bs.length) := ⟨hcur, by rw [hframe.baseSize, hB]; exact Nat.one_dvd _⟩
  obtain ⟨-, -, hroom, hbytes, rfl⟩ := (h₂.readBuff_iff _ s ba').1 hbuff
  have hsize : (UInt64.ofNat (value bs)).toNat = s.length := by
    have := congrArg List.length hbytes
    rwa [length_slice hroom, List.length_map] at this
  have hagree : ∀ i, i < bs.length → i < (List.replicate z 0 ++ text e 8 (s :: vs)).length →
      bs[i]? = (List.replicate z 0 ++ text e 8 (s :: vs))[i]? := by
    intro i hi hi'
    have hget := congrArg (·[i]?) hslice
    simp only [getElem?_slice, if_pos hi, hst i hi', List.getElem?_map] at hget
    exact (Option.map_injective (Option.some_injective _) hget).symm
  obtain ⟨b, k, rfl, hstream⟩ := one_byte_length hs ht hagree hsize
  rw [hstream] at hst
  have hbehind : ∀ j, j < (List.replicate (k + 1) 0 ++ (s ++ text e 8 vs)).length →
      ba.store[c + 1 + j]? = (List.replicate (k + 1) 0 ++ (s ++ text e 8 vs))[j]?.map some := by
    intro j hj
    have := hst (j + 1) (by rw [List.length_cons]; omega)
    rwa [List.getElem?_cons_succ, show c + (j + 1) = c + 1 + j by omega] at this
  -- the string itself is taken from the zeros
  have htake : s = (List.replicate (k + 1) 0 ++ (s ++ text e 8 vs)).take s.length := by
    apply List.ext_getElem?
    intro j
    rw [List.getElem?_take]
    split
    · rename_i hj
      have hget := congrArg (·[j]?) hbytes
      simp only [getElem?_slice, hsize, if_pos hj, hframe.store, hframe.baseSize, hB, Nat.one_mul,
        List.length_singleton, List.getElem?_map] at hget
      rw [hbehind j (by rw [List.length_append, List.length_append]; omega)] at hget
      exact (Option.map_injective (Option.some_injective _) hget).symm
    · exact List.getElem?_eq_none (by omega)
  rw [zeros_shift htake] at hbehind
  refine ⟨_, k + 1, h₂.behind _, hframe.trans (frame_behind ba₂ _ _), ?_, ?_⟩
  · rw [h₂.behind_position, hpos, hframe.baseSize, hB, hsize, roundUp_blocks_one, List.length_singleton,
      Nat.one_mul]
  · intro i hi
    have := hbehind (s.length + i) (by rw [List.length_append, List.length_replicate]; omega)
    rw [List.getElem?_append_right (by simp), List.length_replicate, Nat.add_sub_cancel_left] at this
    rwa [behind_store, hframe.store, hframe.baseSize, hB, Nat.div_one, hsize, List.length_singleton,
      Nat.add_assoc]

/-- Behind some zeros, a list of strings moves the position by one byte for
each length: too little for the eight that were stored. -/
theorem Aligned.feeds_vint_one (h : Aligned ba c) (host : Endian) (hB : ba.baseSize = 1)
    {vs : List (List UInt8)}
    (hst : ∀ i, i < (List.replicate z 0 ++ text e 8 vs).length →
      ba.store[c + i]? = (List.replicate z 0 ++ text e 8 vs)[i]?.map some)
    (hmax : ∀ s ∈ vs, s.length < 2 ^ 63) (hf : Feeds (readStringFVint host) vs ba ba') :
    Frame ba ba' ∧ ba'.position = ba.position + span 1 1 vs := by
  induction vs generalizing ba c z with
  | nil =>
    obtain rfl : ba = ba' := hf
    exact ⟨Frame.refl ba, rfl⟩
  | cons s vs ih =>
    obtain ⟨ba₁, hread, hrest⟩ := hf
    obtain ⟨hs, hmax⟩ := List.forall_mem_cons.1 hmax
    obtain ⟨c', k, h₁, hframe, hpos, hst'⟩ := h.vint_one_step host hB hst hs hread
    obtain ⟨hlast, hend⟩ := ih h₁ (by rw [hframe.baseSize, hB]) hst' hmax hrest
    refine ⟨hframe.trans hlast, ?_⟩
    rw [hend, hpos, span_cons]
    simp only [roundUp_blocks_one]
    omega

end

/-! ## The round trip of all four pairs -/

/-- `writeStringVint` and `readStringFVint`. -/
theorem vint_readBack (host : Endian) {B : Nat} (hB : 1 ≤ B) (little : Bool) (vs : List (List UInt8)) :
    (vs = [] ∨ Coincides (if little then .little else .big) B vs →
      StringsReadBack (writeStringVint host) (readStringFVint host) little B vs) ∧
    (span B 1 vs < 2 ^ 64 → (∀ s ∈ vs, s.length < 2 ^ 63) →
      StringsReadBack (writeStringVint host) (readStringFVint host) little B vs →
      vs = [] ∨ Coincides (if little then .little else .big) B vs) := by
  obtain ⟨ba₀, hr, hiff⟩ := stringsReadBack_iff (writeStringVint_eq host) (readStringFVint host) hB little vs
  rw [hiff]
  have hal := hr.aligned
  have hst := hr.holdsText
  constructor
  · rintro (rfl | hco)
    · refine ⟨ba₀, rfl, ?_⟩
      rw [getReadSize_eq hr.inv, hr.size]
      exact Nat.zero_sub _
    · have hsize : ba₀.position + span ba₀.baseSize 1 vs = ba₀.size := by
        rw [hr.position, hr.base, hr.size, hco.balanced, Nat.zero_add]
      obtain ⟨ba', hf, hframe, hpos⟩ := hal.feeds_of_echo host (by rw [hr.base]; have := hco.small; omega) hst
        hsize.le (hr.base.symm ▸ hco.echo)
      refine ⟨ba', hf, ?_⟩
      rw [getReadSize, hframe.size, hpos, hsize, sizeSub_of_le (Nat.le_refl _), Nat.sub_self]
  · rintro hspan hmax ⟨ba', hf, hend⟩
    by_cases hne : vs = []
    · exact .inl hne
    -- the position ends at the size: the blocks skipped are the bytes written
    have hbalanced : Frame ba₀ ba' → ba'.position = ba₀.position + span B 1 vs →
        span B 1 vs = (text (if little then .little else .big) 8 vs).length := by
      intro hframe hpos
      rw [hr.position, Nat.zero_add] at hpos
      rw [← hpos, position_of_readSize (by rwa [hpos]) hend, hframe.size, hr.size]
    rcases Nat.lt_or_ge B 2 with h1 | h2
    · obtain rfl : B = 1 := by omega
      have hst' : ∀ i, i < (List.replicate 0 0 ++ text (if little then .little else .big) 8 vs).length →
          ba₀.store[0 + i]? =
            (List.replicate 0 0 ++ text (if little then .little else .big) 8 vs)[i]?.map some := by
        simpa [HoldsText] using hst
      obtain ⟨hframe, hpos⟩ := hal.feeds_vint_one host hr.base hst' hmax hf
      have := small_of_balanced hB hne (hbalanced hframe hpos)
      omega
    · obtain ⟨hecho, hframe, hpos⟩ :=
        hal.echo_of_feeds host (by rwa [hr.base]) (List.nil_append _).symm hst (by simp)
          (by simp) hmax hf
      rw [hr.base] at hecho hpos
      have hsum := hbalanced hframe hpos
      exact .inr ⟨small_of_balanced hB hne hsum, hecho, hsum⟩

/-- The pairs with a fixed-width length on both sides bring the strings back
when the block size divides the width and every length, the lengths fit into
their width, and the last string is not empty; the pair with a variable-length
reader only when the strings repeat the text in front of them. -/
theorem strings_readBack_iff (host : Endian) {B : Nat} (hB : 1 ≤ B) (little : Bool) (vs : List (List UInt8)) :
    ((vs = [] ∨ Fits 2 B vs → StringsReadBack (writeStringF16 host) (readStringF16 host) little B vs) ∧
      (vs = [] ∨ Fits 4 B vs → StringsReadBack (writeStringF32 host) (readStringF32 host) little B vs) ∧
      (vs = [] ∨ Fits 8 B vs → StringsReadBack (writeStringF64 host) (readStringF64 host) little B vs) ∧
      (vs = [] ∨ Coincides (if little then .little else .big) B vs →
        StringsReadBack (writeStringVint host) (readStringFVint host) little B vs)) ∧
    (span B 8 vs < 2 ^ 64 → (∀ s ∈ vs, s.length < 2 ^ 63) →
      (StringsReadBack (writeStringF16 host) (readStringF16 host) little B vs → vs = [] ∨ Fits 2 B vs) ∧
      (StringsReadBack (writeStringF32 host) (readStringF32 host) little B vs → vs = [] ∨ Fits 4 B vs) ∧
      (StringsReadBack (writeStringF64 host) (readStringF64 host) little B vs → vs = [] ∨ Fits 8 B vs) ∧
      (StringsReadBack (writeStringVint host) (readStringFVint host) little B vs →
        vs = [] ∨ Coincides (if little then .little else .big) B vs)) := by
  have h16 := headed_readBack (by decide) (writeStringF16_eq host) (readStringF16_eq host) hB little vs
  have h32 := headed_readBack (by decide) (writeStringF32_eq host) (readStringF32_eq host) hB little vs
  have h64 := headed_readBack (by decide) (writeStringF64_eq host) (readStringF64_eq host) hB little vs
  have hvint := vint_readBack host hB little vs
  refine ⟨⟨h16.1, h32.1, h64.1, hvint.1⟩, fun hspan hmax => ⟨h16.2 ?_, h32.2 ?_, h64.2 hspan, hvint.2 ?_ hmax⟩⟩
  · exact (span_mono (by decide) vs).trans_lt hspan
  · exact (span_mono (by decide) vs).trans_lt hspan
  · exact (span_mono (by decide) vs).trans_lt hspan

/-- One string of one block, and one whose length does not fill its block. -/
theorem strings_readBack_iff_block :
    StringsReadBack (writeStringF16 .little) (readStringF16 .little) true 2 [[7, 9]] ∧
      ¬ StringsReadBack (writeStringF16 .little) (readStringF16 .little) true 3 [[7]] := by
  refine ⟨(strings_readBack_iff .little (by decide) true [[7, 9]]).1.1 (.inr ⟨by decide, by decide, by decide⟩),
    fun h => ?_⟩
  rcases ((strings_readBack_iff .little (by decide) true [[7]]).2 (by decide) (by decide)).1 h with h | h
  · cases h
  · exact absurd h.width (by decide)

/-- The string `A` in blocks of one byte: the first byte of its length is zero,
and the empty string comes back. -/
theorem not_stringsReadBack :
    ¬ StringsReadBack (writeStringVint .little) (readStringFVint .little) false 1 [[65]] := by
  rintro ⟨ba, ba₀, ba', hw, hset, ⟨ba₁, hread, -⟩, -⟩
  have hrun : [[65]].foldlM (writeStringVint .little) ((new 1).setIsLittleEndian false) =
      .ok ⟨1, 9, 9, 9, .big, [0, 0, 0, 0, 0, 0, 0, 1, 65].map fun b => ⟨[some b], 1⟩, none⟩ := by rfl
  obtain rfl := Except.ok.inj (hrun.symm.trans hw)
  obtain rfl := Except.ok.inj hset
  have hempty : readStringFVint .little
      ⟨1, 0, 9, 9, .big, [0, 0, 0, 0, 0, 0, 0, 1, 65].map fun b => ⟨[some b], 1⟩, some 0⟩ =
      .ok (some [], ⟨1, 1, 9, 9, .big, [0, 0, 0, 0, 0, 0, 0, 1, 65].map fun b => ⟨[some b], 1⟩,
        some 1⟩) := by rfl
  have hs := (Prod.mk.inj (Except.ok.inj (hempty.symm.trans hread))).1
  cases hs

end Linko.ByteArray
