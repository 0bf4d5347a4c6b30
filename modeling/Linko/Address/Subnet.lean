import Mathlib.Algebra.GroupWithZero.Nat
import Linko.Address.Model
import Linko.Lib.NetBits
/-!
# Networks, broadcast addresses and masks

`CreateMask` and `CountBytes` of `address.cc` and the functions of the two address
classes that compute with a prefix length.
-/

namespace Linko

open Words NetBits

/-- `~(1 << (sizeof(T) * 8 - bits)) - 1`, an `int`. A shift by its width or more
is undefined, which is `none`. -/
def maskInt (size : UInt64) (bits : UInt32) : Option (BitVec 32) :=
  let amount := size * 8 - bits.toUInt64
  if amount < 32 then some (~~~(1#32 <<< amount.toNat) - 1#32) else none

/-- `CreateMask<uint32_t>` -/
def createMask32 (bits : UInt32) : Option UInt32 := (maskInt 4 bits).map UInt32.ofBitVec

/-- `CreateMask<uint8_t>` -/
def createMask8 (bits : UInt32) : Option UInt8 := (maskInt 1 bits).map fun v => UInt8.ofBitVec (v.setWidth 8)

def countBytes (value : Nat) : Nat := if value = 0 then 0 else countBytes (value &&& (value - 1)) + 1
termination_by value
decreasing_by
  have hle : value &&& (value - 1) ≤ value - 1 := Nat.and_le_right
  omega

namespace IPv4Address

variable (host : Order) (a : IPv4Address) (prefixLen : UInt32)

def broadcastAddress : Option (Option IPv4Address) :=
  if prefixLen > 32 then some none
  else (createMask32 prefixLen).map fun mask =>
    some ⟨{ a.addr with
      addr := a.addr.addr ||| ~~~ UInt32.ofBitVec (byteswapOnLittleEndian host (w := 4) mask.toBitVec) }⟩

def networdAddress : Option (Option IPv4Address) :=
  if prefixLen > 32 then some none
  else (createMask32 prefixLen).map fun mask =>
    some ⟨{ a.addr with
      addr := a.addr.addr &&& UInt32.ofBitVec (byteswapOnLittleEndian host (w := 4) mask.toBitVec) }⟩

def subnetMask : Option IPv4Address :=
  (createMask32 prefixLen).map fun mask =>
    ⟨{ family := afInet, port := 0, addr := UInt32.ofBitVec (byteswapOnLittleEndian host (w := 4) mask.toBitVec) }⟩

end IPv4Address

namespace IPv6Address

/-- The loop that sets the bytes from `i` up to `stop`. Outside the array it is undefined. -/
def fill (b : UInt8) (v : Vector UInt8 16) (i stop : Nat) : Option (Vector UInt8 16) :=
  (List.range' i (stop - i)).foldlM (fun v j => if h : j < 16 then some (v.set j b) else none) v

variable (a : IPv6Address) (prefixLen : UInt32)

def broadcastAddress : Option IPv6Address :=
  let i := prefixLen.toNat / 8
  if h : i < 16 then do
    let mask ← createMask8 (prefixLen % 8)
    let addr ← fill 0xff (a.addr.addr.set i (a.addr.addr[i] ||| ~~~mask)) (i + 1) 16
    some ⟨{ a.addr with addr }⟩
  else none

def networdAddress : Option IPv6Address :=
  let i := prefixLen.toNat / 8
  if h : i < 16 then do
    let mask ← createMask8 (prefixLen % 8)
    let addr ← fill 0x00 (a.addr.addr.set i (a.addr.addr[i] &&& mask)) (i + 1) 16
    some ⟨{ a.addr with addr }⟩
  else none

def subnetMask : Option IPv6Address :=
  let i := prefixLen.toNat / 8
  if h : i < 16 then do
    let mask ← createMask8 (prefixLen % 8)
    let addr ← fill 0xff ((Vector.replicate 16 0).set i mask) 0 i
    some ⟨{ family := afInet6, port := 0, addr }⟩
  else none

end IPv6Address

/-! ## The masks -/

/-- The expression sets every bit but two. -/
theorem getLsbD_mask {k i : Nat} (h0 : k ≠ 0) (hk : k < 32) (hi : i < 32) :
    (~~~(1#32 <<< k) - 1#32).getLsbD i = !(decide (k = i) || decide (i = 0)) := by
  have hand : BitVec.twoPow 32 k &&& 1#32 = 0#32 := by
    rw [BitVec.twoPow_and, BitVec.getLsbD_one]
    simp [h0]
  rw [← BitVec.not_add_one, ← BitVec.twoPow_eq, BitVec.add_eq_or_of_and_eq_zero _ _ hand, BitVec.getLsbD_not,
    BitVec.getLsbD_or, BitVec.getLsbD_twoPow, BitVec.getLsbD_one]
  simp [hi, hk]

/-- With a prefix of the whole width only one bit is missing. -/
theorem getLsbD_mask_zero {i : Nat} (hi : i < 32) : (~~~(1#32 <<< 0) - 1#32).getLsbD i = !decide (1 = i) := by
  have hall : ~~~(1#32 <<< 0) - 1#32 = ~~~BitVec.twoPow 32 1 := rfl
  rw [hall, BitVec.getLsbD_not, BitVec.getLsbD_twoPow]
  simp [hi]

theorem maskInt_eq {size : UInt64} {bits : UInt32} (hle : bits.toNat ≤ (size * 8).toNat)
    (hlt : (size * 8).toNat - bits.toNat < 32) :
    maskInt size bits = some (~~~(1#32 <<< ((size * 8).toNat - bits.toNat)) - 1#32) := by
  have hamount : (size * 8 - bits.toUInt64).toNat = (size * 8).toNat - bits.toNat := by
    rw [UInt64.toNat_sub_of_le _ _ (by rw [UInt64.le_iff_toNat_le]; simpa using hle), UInt32.toNat_toUInt64]
  rw [maskInt, if_pos (by rw [UInt64.lt_iff_toNat_lt, hamount]; exact hlt), hamount]

/-- The bits of the four byte mask in network order. -/
def maskBit32 (p i : Nat) : Bool := if p = 32 then i ≠ 30 else i ≠ 31 ∧ i + 1 ≠ p

theorem createMask32_zero : createMask32 0 = none := by decide

theorem createMask32_eq {p : UInt32} (hp : p ≤ 32) (h0 : p ≠ 0) :
    ∃ m, createMask32 p = some m ∧ ∀ i < 32, m.toBitVec.getLsbD (31 - i) = maskBit32 p.toNat i := by
  have hle : p.toNat ≤ 32 := UInt32.le_iff_toNat_le.1 hp
  have hpos : p.toNat ≠ 0 := fun h => h0 (UInt32.toNat_inj.1 h)
  have hint : maskInt 4 p = some (~~~(1#32 <<< (32 - p.toNat)) - 1#32) := maskInt_eq hle (by change 32 - _ < 32; omega)
  refine ⟨_, by rw [createMask32, hint, Option.map_some], fun i hi => ?_⟩
  rw [maskBit32]
  by_cases hfull : p.toNat = 32
  · rw [if_pos hfull, hfull, Nat.sub_self, getLsbD_mask_zero (by omega), Bool.eq_iff_iff]
    simp
    omega
  · rw [if_neg hfull, getLsbD_mask (by omega) (by omega) (by omega), Bool.eq_iff_iff]
    simp
    omega

/-- The bits of the one byte mask. -/
theorem createMask8_eq {b : UInt32} (hb : b.toNat < 8) :
    ∃ m, createMask8 b = some m ∧ ∀ i < 8, m.toBitVec.getMsbD i = !(decide (i = 7) || decide (i + 1 = b.toNat)) := by
  have hint : maskInt 1 b = some (~~~(1#32 <<< (8 - b.toNat)) - 1#32) :=
    maskInt_eq (by change _ ≤ 8; omega) (by change 8 - _ < 32; omega)
  refine ⟨_, by rw [createMask8, hint, Option.map_some], fun i hi => ?_⟩
  have hbits : (UInt8.ofBitVec ((~~~(1#32 <<< (8 - b.toNat)) - 1#32).setWidth 8)).toBitVec =
      (~~~(1#32 <<< (8 - b.toNat)) - 1#32).setWidth 8 := rfl
  rw [hbits, BitVec.getMsbD_eq_getLsbD, BitVec.getLsbD_setWidth, getLsbD_mask (by omega) (by omega) (by omega),
    Bool.eq_iff_iff]
  simp
  omega

/-- The loop counts the bits that are set. -/
theorem countBytes_eq {w n : Nat} (h : n < 2 ^ w) : countBytes n = ones w n := by
  induction n using Nat.strongRecOn with
  | ind n ih =>
    rw [countBytes]
    by_cases h0 : n = 0
    · rw [if_pos h0, h0, ones_zero]
    · have hle : n &&& (n - 1) ≤ n - 1 := Nat.and_le_right
      rw [if_neg h0, ih _ (by omega) (by omega), ones_clear (by omega) h]

/-! ## IPv4 -/

namespace IPv4Address

variable (host : Order) (a : IPv4Address) {p : UInt32}

/-- Bit `i` of the address, from the first byte on. -/
def bit (host : Order) (a : IPv4Address) (i : Nat) : Bool :=
  bitAt (bytesOf host (w := 4) a.addr.addr.toBitVec) i

/-- The swapped mask in memory. -/
theorem bitAt_mask {m : UInt32} (hm : ∀ i < 32, m.toBitVec.getLsbD (31 - i) = maskBit32 p.toNat i) {i : Nat}
    (hi : i < 32) :
    bitAt (bytesOf host (byteswapOnLittleEndian host (w := 4) m.toBitVec)) i = maskBit32 p.toNat i := by
  rw [bytesOf_byteswapOnLittleEndian, bitAt_bytesOf .big _ hi, ← hm i hi]
  rfl

theorem networdAddress_eq (hp : p ≤ 32) (h0 : p ≠ 0) :
    ∃ b, a.networdAddress host p = some (some b) ∧
      ∀ i < 32, b.bit host i = (a.bit host i && maskBit32 p.toNat i) := by
  obtain ⟨m, hm, hbits⟩ := createMask32_eq hp h0
  have hres : a.networdAddress host p = some (some ⟨{ a.addr with
      addr := a.addr.addr &&& UInt32.ofBitVec (byteswapOnLittleEndian host (w := 4) m.toBitVec) }⟩) := by
    rw [networdAddress, if_neg (UInt32.not_lt.2 hp), hm, Option.map_some]
  refine ⟨_, hres, fun i hi => ?_⟩
  rw [← bitAt_mask host hbits hi]
  exact bitAt_and (w := 4) host a.addr.addr.toBitVec (byteswapOnLittleEndian host (w := 4) m.toBitVec) hi

theorem broadcastAddress_eq (hp : p ≤ 32) (h0 : p ≠ 0) :
    ∃ b, a.broadcastAddress host p = some (some b) ∧
      ∀ i < 32, b.bit host i = (a.bit host i || !maskBit32 p.toNat i) := by
  obtain ⟨m, hm, hbits⟩ := createMask32_eq hp h0
  have hres : a.broadcastAddress host p = some (some ⟨{ a.addr with
      addr := a.addr.addr ||| ~~~UInt32.ofBitVec (byteswapOnLittleEndian host (w := 4) m.toBitVec) }⟩) := by
    rw [broadcastAddress, if_neg (UInt32.not_lt.2 hp), hm, Option.map_some]
  refine ⟨_, hres, fun i hi => ?_⟩
  rw [← bitAt_mask host hbits hi, ← bitAt_not (w := 4) host _ hi]
  exact bitAt_or (w := 4) host a.addr.addr.toBitVec (~~~byteswapOnLittleEndian host (w := 4) m.toBitVec) hi

theorem subnetMask_eq (hp : p ≤ 32) (h0 : p ≠ 0) :
    ∃ b, subnetMask host p = some b ∧ ∀ i < 32, b.bit host i = maskBit32 p.toNat i := by
  obtain ⟨m, hm, hbits⟩ := createMask32_eq hp h0
  have hres : subnetMask host p =
      some ⟨⟨afInet, 0, UInt32.ofBitVec (byteswapOnLittleEndian host (w := 4) m.toBitVec)⟩⟩ := by
    rw [subnetMask, hm, Option.map_some]
  exact ⟨_, hres, fun i hi => bitAt_mask host hbits hi⟩

/-- Where the mask has a wrong bit. -/
theorem maskBit32_ne_iff {p i : Nat} (hp : p ≤ 32) (hi : i < 32) :
    maskBit32 p i ≠ decide (i < p) ↔ min (p - 1) 30 ≤ i ∧ i < 31 := by
  rw [maskBit32, ne_eq, Bool.eq_iff_iff]
  split <;> simp <;> omega

def NetworkRight (host : Order) (a : IPv4Address) (p : UInt32) : Prop :=
  ∃ b, a.networdAddress host p = some (some b) ∧ IsNetwork 32 p.toNat (a.bit host) (b.bit host)

def BroadcastRight (host : Order) (a : IPv4Address) (p : UInt32) : Prop :=
  ∃ b, a.broadcastAddress host p = some (some b) ∧ IsBroadcast 32 p.toNat (a.bit host) (b.bit host)

def MaskRight (host : Order) (p : UInt32) : Prop :=
  ∃ b, subnetMask host p = some b ∧ IsMask 32 p.toNat (b.bit host)

def CountRight (host : Order) (p : UInt32) : Prop :=
  ∃ b, subnetMask host p = some b ∧ countBytes b.addr.addr.toNat = p.toNat

/-- What the four have to do with a prefix. They have a result only where every
shift is defined. -/
def Subnet (host : Order) (a : IPv4Address) (p : UInt32) : Prop :=
  a.NetworkRight host p ∧ a.BroadcastRight host p ∧ MaskRight host p ∧ CountRight host p

theorem networdAddress_zero : a.networdAddress host 0 = none := by
  rw [networdAddress, createMask32_zero]
  rfl

theorem broadcastAddress_zero : a.broadcastAddress host 0 = none := by
  rw [broadcastAddress, createMask32_zero]
  rfl

theorem subnetMask_zero : subnetMask host 0 = none := by
  rw [subnetMask, createMask32_zero]
  rfl

theorem networkRight_iff (hp : p ≤ 32) :
    a.NetworkRight host p ↔ p ≠ 0 ∧ ∀ i, min (p.toNat - 1) 30 ≤ i → i < 31 → a.bit host i = false := by
  by_cases h0 : p = 0
  · subst h0
    simp [NetworkRight, networdAddress_zero]
  have hple : p.toNat ≤ 32 := UInt32.le_iff_toNat_le.1 hp
  obtain ⟨b, hb, hbits⟩ := networdAddress_eq host a hp h0
  have hright : a.NetworkRight host p ↔ IsNetwork 32 p.toNat (a.bit host) (b.bit host) := by
    simp [NetworkRight, hb]
  rw [hright, isNetwork_iff_range (by decide) (fun i => maskBit32_ne_iff hple) hbits, and_iff_right h0]

theorem broadcastRight_iff (hp : p ≤ 32) :
    a.BroadcastRight host p ↔ p ≠ 0 ∧ ∀ i, min (p.toNat - 1) 30 ≤ i → i < 31 → a.bit host i = true := by
  by_cases h0 : p = 0
  · subst h0
    simp [BroadcastRight, broadcastAddress_zero]
  have hple : p.toNat ≤ 32 := UInt32.le_iff_toNat_le.1 hp
  obtain ⟨b, hb, hbits⟩ := broadcastAddress_eq host a hp h0
  have hright : a.BroadcastRight host p ↔ IsBroadcast 32 p.toNat (a.bit host) (b.bit host) := by
    simp [BroadcastRight, hb]
  rw [hright, isBroadcast_iff_range (by decide) (fun i => maskBit32_ne_iff hple) hbits, and_iff_right h0]

/-- Bit 30 or the one in front of it is always wrong. -/
theorem not_maskRight (hp : p ≤ 32) : ¬ MaskRight host p := by
  rintro ⟨b, hb, hmask⟩
  by_cases h0 : p = 0
  · subst h0
    rw [subnetMask_zero] at hb
    cases hb
  have hple : p.toNat ≤ 32 := UInt32.le_iff_toNat_le.1 hp
  obtain ⟨b', hb', hbits⟩ := subnetMask_eq host hp h0
  obtain rfl := Option.some.inj (hb.symm.trans hb')
  have hbad := (maskBit32_ne_iff hple (i := 30) (by decide)).2 ⟨Nat.min_le_right _ _, by decide⟩
  exact hbad ((hbits 30 (by decide)).symm.trans (hmask 30 (by decide)))

/-- The number of bits in the mask, whatever the prefix. -/
theorem ones_subnetMask : ∀ host ∈ [Order.little, .big], ∀ k < 33, k ≠ 0 →
    ((subnetMask host (UInt32.ofNat k)).map fun b => ones 32 b.addr.addr.toNat) =
      some (if k = 32 then 31 else 30) := by
  decide +kernel

theorem countRight_iff (hp : p ≤ 32) : CountRight host p ↔ p = 30 := by
  by_cases h0 : p = 0
  · subst h0
    simp [CountRight, subnetMask_zero]
  have hple : p.toNat ≤ 32 := UInt32.le_iff_toNat_le.1 hp
  have hpos : p.toNat ≠ 0 := fun h => h0 (UInt32.toNat_inj.1 h)
  have hones := ones_subnetMask host (by cases host <;> simp) p.toNat (by omega) hpos
  rw [UInt32.ofNat_toNat, Option.map_eq_some_iff] at hones
  obtain ⟨b, hb, hones⟩ := hones
  have hright : CountRight host p ↔ countBytes b.addr.addr.toNat = p.toNat := by
    simp [CountRight, hb]
  rw [hright, countBytes_eq (w := 32) b.addr.addr.toNat_lt, hones, ← UInt32.toNat_inj]
  change _ ↔ p.toNat = 30
  split <;> omega

end IPv4Address

/-! ## IPv6 -/

namespace IPv6Address

variable {a : IPv6Address} {p : UInt32}

def bit (a : IPv6Address) (i : Nat) : Bool := bitAt a.addr.addr.toList i

theorem bitAt_toList (v : Vector UInt8 16) {i : Nat} (hi : i / 8 < 16) :
    bitAt v.toList i = (v[i / 8]).toBitVec.getMsbD (i % 8) := by
  rw [bitAt, List.getD_eq_getElem?_getD]
  simp [hi]

theorem getMsbD_ff {k : Nat} (hk : k < 8) : (0xff : UInt8).toBitVec.getMsbD k = true := by
  have hall : (0xff : UInt8).toBitVec = BitVec.allOnes 8 := rfl
  rw [hall, BitVec.getMsbD_allOnes]
  simp [hk]

/-- Inside the array the loop sets the bytes of its range and no others. -/
theorem fill_eq (b : UInt8) (v : Vector UInt8 16) {i stop : Nat} (h : stop ≤ 16) :
    ∃ u, fill b v i stop = some u ∧ ∀ (j : Nat) (hj : j < 16), u[j] = if i ≤ j ∧ j < stop then b else v[j] := by
  rw [fill]
  generalize hn : stop - i = n
  induction n generalizing v i with
  | zero => exact ⟨v, rfl, fun j hj => by rw [if_neg (by omega)]⟩
  | succ n ih =>
    have hi : i < 16 := by omega
    obtain ⟨u, hu, hget⟩ := ih (v.set i b) (i := i + 1) (by omega)
    refine ⟨u, ?_, fun j hj => ?_⟩
    · rw [List.range'_succ, List.foldlM_cons, dif_pos hi]
      exact hu
    · rw [hget j hj, Vector.getElem_set]
      grind

/-- The bits of the sixteen bytes of the mask: those up to the byte with the end of
the prefix, but two of that byte. -/
def maskBit (p i : Nat) : Bool := i / 8 ≤ p / 8 ∧ i ≠ 8 * (p / 8) + 7 ∧ (p % 8 = 0 ∨ i + 1 ≠ p)

theorem maskBit_before {i : Nat} (h : i / 8 < p.toNat / 8) : maskBit p.toNat i = true := by
  rw [maskBit, decide_eq_true_eq]
  omega

theorem maskBit_behind {i : Nat} (h : p.toNat / 8 < i / 8) : maskBit p.toNat i = false := by
  rw [maskBit, decide_eq_false_iff_not]
  omega

theorem exists_mask (p : UInt32) : ∃ m, createMask8 (p % 8) = some m ∧
    ∀ i, i / 8 = p.toNat / 8 → m.toBitVec.getMsbD (i % 8) = maskBit p.toNat i := by
  have hmod : (p % 8).toNat = p.toNat % 8 := UInt32.toNat_mod p 8
  obtain ⟨m, hm, hbits⟩ := createMask8_eq (b := p % 8) (by rw [hmod]; exact Nat.mod_lt _ (by decide))
  refine ⟨m, hm, fun i hi => ?_⟩
  rw [hbits _ (Nat.mod_lt _ (by decide)), hmod, maskBit, Bool.eq_iff_iff]
  simp
  omega

theorem byteIndex_lt (hp : p < 128) : p.toNat / 8 < 16 := by
  have hlt : p.toNat < 128 := UInt32.lt_iff_toNat_lt.1 hp
  omega

theorem networdAddress_eq (hp : p < 128) :
    ∃ b, a.networdAddress p = some b ∧ ∀ i < 128, b.bit i = (a.bit i && maskBit p.toNat i) := by
  have hq := byteIndex_lt hp
  obtain ⟨m, hm, hbits⟩ := exists_mask p
  obtain ⟨u, hu, hget⟩ := fill_eq 0x00
    (a.addr.addr.set (p.toNat / 8) (a.addr.addr[p.toNat / 8] &&& m)) (i := p.toNat / 8 + 1) (Nat.le_refl 16)
  refine ⟨⟨{ a.addr with addr := u }⟩, ?_, fun i hi => ?_⟩
  · rw [networdAddress, dif_pos hq, hm]
    simp only [Option.bind_eq_bind, Option.bind_some, hu]
  · have hi8 : i / 8 < 16 := by omega
    rw [bit, bit, bitAt_toList u hi8, bitAt_toList _ hi8, hget _ hi8, Vector.getElem_set]
    rcases Nat.lt_trichotomy (i / 8) (p.toNat / 8) with h | h | h
    · rw [if_neg (by omega), if_neg (by omega), maskBit_before h, Bool.and_true]
    · rw [if_neg (by omega), if_pos h.symm, ← hbits i h]
      simp [h]
    · rw [if_pos (by omega), maskBit_behind h, Bool.and_false]
      simp

theorem broadcastAddress_eq (hp : p < 128) :
    ∃ b, a.broadcastAddress p = some b ∧ ∀ i < 128, b.bit i = (a.bit i || !maskBit p.toNat i) := by
  have hq := byteIndex_lt hp
  obtain ⟨m, hm, hbits⟩ := exists_mask p
  obtain ⟨u, hu, hget⟩ := fill_eq 0xff
    (a.addr.addr.set (p.toNat / 8) (a.addr.addr[p.toNat / 8] ||| ~~~m)) (i := p.toNat / 8 + 1) (Nat.le_refl 16)
  refine ⟨⟨{ a.addr with addr := u }⟩, ?_, fun i hi => ?_⟩
  · rw [broadcastAddress, dif_pos hq, hm]
    simp only [Option.bind_eq_bind, Option.bind_some, hu]
  · have hi8 : i / 8 < 16 := by omega
    rw [bit, bit, bitAt_toList u hi8, bitAt_toList _ hi8, hget _ hi8, Vector.getElem_set]
    rcases Nat.lt_trichotomy (i / 8) (p.toNat / 8) with h | h | h
    · rw [if_neg (by omega), if_neg (by omega), maskBit_before h, Bool.not_true, Bool.or_false]
    · rw [if_neg (by omega), if_pos h.symm, ← hbits i h]
      have hmod : i % 8 < 8 := Nat.mod_lt i (by decide)
      simp [h, hmod]
    · rw [if_pos (by omega), maskBit_behind h, Bool.not_false, Bool.or_true,
        getMsbD_ff (Nat.mod_lt _ (by decide))]

theorem subnetMask_eq (hp : p < 128) :
    ∃ b, subnetMask p = some b ∧ ∀ i < 128, b.bit i = maskBit p.toNat i := by
  have hq := byteIndex_lt hp
  obtain ⟨m, hm, hbits⟩ := exists_mask p
  obtain ⟨u, hu, hget⟩ := fill_eq 0xff ((Vector.replicate 16 0).set (p.toNat / 8) m) (i := 0) (Nat.le_of_lt hq)
  refine ⟨⟨afInet6, 0, u⟩, ?_, fun i hi => ?_⟩
  · rw [subnetMask, dif_pos hq, hm]
    simp only [Option.bind_eq_bind, Option.bind_some, hu]
  · have hi8 : i / 8 < 16 := by omega
    rw [bit, bitAt_toList u hi8, hget _ hi8, Vector.getElem_set]
    rcases Nat.lt_trichotomy (i / 8) (p.toNat / 8) with h | h | h
    · rw [if_pos (by omega), maskBit_before h, getMsbD_ff (Nat.mod_lt _ (by decide))]
    · rw [if_neg (by omega), if_pos h.symm, ← hbits i h]
    · rw [if_neg (by omega), if_neg (by omega), maskBit_behind h]
      simp

/-- Where the mask has a wrong bit. -/
theorem maskBit_ne_iff {p i : Nat} :
    maskBit p i ≠ decide (i < p) ↔ (if p % 8 = 0 then p else p - 1) ≤ i ∧ i < 8 * (p / 8) + 7 := by
  rw [maskBit, ne_eq, Bool.eq_iff_iff]
  split <;> simp <;> omega

def NetworkRight (a : IPv6Address) (p : UInt32) : Prop :=
  ∃ b, a.networdAddress p = some b ∧ IsNetwork 128 p.toNat a.bit b.bit

def BroadcastRight (a : IPv6Address) (p : UInt32) : Prop :=
  ∃ b, a.broadcastAddress p = some b ∧ IsBroadcast 128 p.toNat a.bit b.bit

def MaskRight (p : UInt32) : Prop := ∃ b, subnetMask p = some b ∧ IsMask 128 p.toNat b.bit

/-- Summed up over the bytes. -/
def CountRight (p : UInt32) : Prop :=
  ∃ b, subnetMask p = some b ∧ (b.addr.addr.toList.map fun x => countBytes x.toNat).sum = p.toNat

/-- What the four have to do with a prefix. They have a result only where every
shift is defined and every byte is inside the address. -/
def Subnet (a : IPv6Address) (p : UInt32) : Prop :=
  a.NetworkRight p ∧ a.BroadcastRight p ∧ MaskRight p ∧ CountRight p

/-- Then the byte where the prefix ends is outside the array. -/
theorem byteIndex_outside (hp : ¬ p < 128) : ¬ p.toNat / 8 < 16 := by
  have hge : ¬ p.toNat < 128 := hp
  omega

theorem networdAddress_outside (hp : ¬ p < 128) : a.networdAddress p = none := dif_neg (byteIndex_outside hp)

theorem broadcastAddress_outside (hp : ¬ p < 128) : a.broadcastAddress p = none := dif_neg (byteIndex_outside hp)

theorem subnetMask_outside (hp : ¬ p < 128) : subnetMask p = none := dif_neg (byteIndex_outside hp)

/-- The byte where the prefix ends is inside. -/
theorem byte_le (hp : p < 128) : 8 * (p.toNat / 8) + 7 ≤ 128 := by
  have hlt : p.toNat < 128 := UInt32.lt_iff_toNat_lt.1 hp
  omega

theorem networkRight_iff : a.NetworkRight p ↔ p < 128 ∧
    ∀ i, (if p.toNat % 8 = 0 then p.toNat else p.toNat - 1) ≤ i → i < 8 * (p.toNat / 8) + 7 → a.bit i = false := by
  by_cases hout : ¬ p < 128
  · simp [NetworkRight, networdAddress_outside hout, hout]
  have hp : p < 128 := Decidable.not_not.1 hout
  obtain ⟨b, hb, hbits⟩ := networdAddress_eq (a := a) hp
  have hright : a.NetworkRight p ↔ IsNetwork 128 p.toNat a.bit b.bit := by
    simp [NetworkRight, hb]
  rw [hright, isNetwork_iff_range (byte_le hp) (fun i _ => maskBit_ne_iff) hbits, and_iff_right hp]

theorem broadcastRight_iff : a.BroadcastRight p ↔ p < 128 ∧
    ∀ i, (if p.toNat % 8 = 0 then p.toNat else p.toNat - 1) ≤ i → i < 8 * (p.toNat / 8) + 7 → a.bit i = true := by
  by_cases hout : ¬ p < 128
  · simp [BroadcastRight, broadcastAddress_outside hout, hout]
  have hp : p < 128 := Decidable.not_not.1 hout
  obtain ⟨b, hb, hbits⟩ := broadcastAddress_eq (a := a) hp
  have hright : a.BroadcastRight p ↔ IsBroadcast 128 p.toNat a.bit b.bit := by
    simp [BroadcastRight, hb]
  rw [hright, isBroadcast_iff_range (byte_le hp) (fun i _ => maskBit_ne_iff) hbits, and_iff_right hp]

/-- The last bit but one of the byte where the prefix ends is always wrong. -/
theorem not_maskRight : ¬ MaskRight p := by
  rintro ⟨b, hb, hmask⟩
  by_cases hout : ¬ p < 128
  · rw [subnetMask_outside hout] at hb
    cases hb
  have hp : p < 128 := Decidable.not_not.1 hout
  obtain ⟨b', hb', hbits⟩ := subnetMask_eq hp
  obtain rfl := Option.some.inj (hb.symm.trans hb')
  have hwrong : maskBit p.toNat (8 * (p.toNat / 8) + 6) ≠ decide (8 * (p.toNat / 8) + 6 < p.toNat) :=
    maskBit_ne_iff.2 ⟨by split <;> omega, by omega⟩
  have hi : 8 * (p.toNat / 8) + 6 < 128 := byte_le hp
  exact hwrong ((hbits _ hi).symm.trans (hmask _ hi))

/-- The number of bits in the mask, whatever the prefix. -/
theorem ones_subnetMask : ∀ k < 128,
    ((subnetMask (UInt32.ofNat k)).map fun b => (b.addr.addr.toList.map fun x => ones 8 x.toNat).sum) =
      some (8 * (k / 8) + if k % 8 = 0 then 7 else 6) := by
  decide +kernel

theorem countRight_iff : CountRight p ↔ p < 128 ∧ p % 8 = 6 := by
  by_cases hout : ¬ p < 128
  · simp [CountRight, subnetMask_outside hout, hout]
  have hp : p < 128 := Decidable.not_not.1 hout
  have hlt : p.toNat < 128 := UInt32.lt_iff_toNat_lt.1 hp
  have hmod : (p % 8).toNat = p.toNat % 8 := UInt32.toNat_mod p 8
  have hones := ones_subnetMask p.toNat hlt
  rw [UInt32.ofNat_toNat, Option.map_eq_some_iff] at hones
  obtain ⟨b, hb, hones⟩ := hones
  have hcount : (fun x : UInt8 => countBytes x.toNat) = fun x => ones 8 x.toNat := by
    funext x
    exact countBytes_eq x.toNat_lt
  have hright : CountRight p ↔ (b.addr.addr.toList.map fun x => countBytes x.toNat).sum = p.toNat := by
    simp [CountRight, hb]
  rw [hright, hcount, hones, ← UInt32.toNat_inj, hmod]
  change _ ↔ p < 128 ∧ p.toNat % 8 = 6
  constructor
  · intro h
    refine ⟨hp, ?_⟩
    split at h <;> omega
  · rintro ⟨-, h⟩
    rw [if_neg (by omega)]
    omega

end IPv6Address

/-! ## The addresses of a prefix -/

/-- The functions never do all four. Networks and broadcast addresses come out right
where the address happens to have the bits that the mask gets wrong. -/
theorem subnet_never (host : Order) :
    (∀ (a : IPv4Address) (p : UInt32), p ≤ 32 → ¬ a.Subnet host p ∧
      (a.NetworkRight host p ↔ p ≠ 0 ∧ ∀ i, min (p.toNat - 1) 30 ≤ i → i < 31 → a.bit host i = false) ∧
      (a.BroadcastRight host p ↔ p ≠ 0 ∧ ∀ i, min (p.toNat - 1) 30 ≤ i → i < 31 → a.bit host i = true) ∧
      ¬ IPv4Address.MaskRight host p ∧ (IPv4Address.CountRight host p ↔ p = 30)) ∧
    (∀ (a : IPv6Address) (p : UInt32), p ≤ 128 → ¬ a.Subnet p ∧
      (a.NetworkRight p ↔ p < 128 ∧ ∀ i, (if p.toNat % 8 = 0 then p.toNat else p.toNat - 1) ≤ i →
        i < 8 * (p.toNat / 8) + 7 → a.bit i = false) ∧
      (a.BroadcastRight p ↔ p < 128 ∧ ∀ i, (if p.toNat % 8 = 0 then p.toNat else p.toNat - 1) ≤ i →
        i < 8 * (p.toNat / 8) + 7 → a.bit i = true) ∧
      ¬ IPv6Address.MaskRight p ∧ (IPv6Address.CountRight p ↔ p < 128 ∧ p % 8 = 6)) := by
  constructor
  · intro a p hp
    have hmask : ¬ IPv4Address.MaskRight host p := IPv4Address.not_maskRight host hp
    exact ⟨fun h => hmask h.2.2.1, IPv4Address.networkRight_iff host a hp, IPv4Address.broadcastRight_iff host a hp, hmask,
      IPv4Address.countRight_iff host hp⟩
  · intro a p _
    have hmask : ¬ IPv6Address.MaskRight p := IPv6Address.not_maskRight
    exact ⟨fun h => hmask h.2.2.1, IPv6Address.networkRight_iff, IPv6Address.broadcastRight_iff, hmask,
      IPv6Address.countRight_iff⟩

/-- 192.168.1.10 on a little-endian machine. -/
def lanAddress : IPv4Address := ⟨⟨afInet, 0, 0x0A01A8C0⟩⟩

/-- The address of IPv6 with all bits zero. -/
def anyAddress : IPv6Address := ⟨⟨afInet6, 0, Vector.replicate 16 0⟩⟩

theorem subnet_never_lan : ¬ lanAddress.Subnet .little 24 ∧ ¬ anyAddress.Subnet 64 :=
  ⟨((subnet_never .little).1 lanAddress 24 (by decide)).1, ((subnet_never .little).2 anyAddress 64 (by decide)).1⟩

/-- With 24 bits its network is 192.168.0.10 and its mask 255.255.254.254. -/
theorem not_subnet :
    lanAddress.networdAddress .little 24 = some (some ⟨⟨afInet, 0, 0x0A00A8C0⟩⟩) ∧
      IPv4Address.subnetMask .little 24 = some ⟨⟨afInet, 0, 0xFEFEFFFF⟩⟩ ∧ ¬ lanAddress.Subnet .little 24 := by
  refine ⟨by decide, by decide, ?_⟩
  rintro ⟨-, -, hmask, -⟩
  exact IPv4Address.not_maskRight .little (by decide) hmask

end Linko
