import Mathlib.Data.Nat.Find
import Linko.Address.Model
import Linko.Lib.GroupText
/-!
# The text of an IPv6 address

`IPv6Address::insert` of `address.cc`, for a stream with the default format flags.
-/

namespace Linko.IPv6Address

open CString Words GroupText

variable (host : Order) (a : IPv6Address)

def byte (i : Nat) : UInt8 := a.addr.addr.toList.getD i 0

/-- `addr[i]`, two bytes as the machine loads them. -/
def word (i : Nat) : BitVec (8 * 2) := ofBytes host 2 [a.byte (2 * i), a.byte (2 * i + 1)]

def getPort : Nat := (byteswapOnLittleEndian host (w := 2) a.addr.port.toBitVec).toNat

/-- The body of the loop, on the stream and `used_zeros`. -/
def insertGroup (r : Bytes × Bool) (i : Nat) : Bytes × Bool :=
  if a.word host i = 0 ∧ r.2 = false then r
  else
    let r := if i ≠ 0 ∧ a.word host (i - 1) = 0 ∧ r.2 = false then (r.1 ++ ascii ":", true) else r
    let os := if i ≠ 0 then r.1 ++ ascii ":" else r.1
    (os ++ numeral 16 (byteswapOnLittleEndian host (a.word host i)).toNat, r.2)

def insert : Bytes :=
  let r := (List.range 8).foldl (a.insertGroup host) (ascii "[", false)
  let os := if r.2 = false ∧ a.word host 7 = 0 then r.1 ++ ascii "::" else r.1
  os ++ ascii "]:" ++ decimal (a.getPort host)

/-! ## The groups -/

/-- Group `i` of the address, the first byte of the two in front. -/
def group (i : Nat) : Nat := 256 * (a.byte (2 * i)).toNat + (a.byte (2 * i + 1)).toNat

def groups : List Nat := (List.range 8).map a.group

theorem group_lt (i : Nat) : a.group i < 65536 := by
  have hhi := (a.byte (2 * i)).toNat_lt
  have hlo := (a.byte (2 * i + 1)).toNat_lt
  rw [group]
  omega

theorem byteswap_word (i : Nat) : (byteswapOnLittleEndian host (a.word host i)).toNat = a.group i := by
  have hlen : [a.byte (2 * i), a.byte (2 * i + 1)].length = 2 := rfl
  have hbig : byteswapOnLittleEndian host (a.word host i) = ofBytes .big 2 [a.byte (2 * i), a.byte (2 * i + 1)] := by
    cases host with
    | little =>
      have hbytes := leBytes_leValue [a.byte (2 * i), a.byte (2 * i + 1)]
      rw [hlen] at hbytes
      rw [byteswapOnLittleEndian, word, ofBytes, swap, toNat_ofNat_leValue hlen, hbytes]
      rfl
    | big => rfl
  rw [hbig, ofBytes, toNat_ofNat_leValue (by simp)]
  simp [leValue, group, Nat.add_comm]

theorem word_eq_zero (i : Nat) : a.word host i = 0 ↔ a.group i = 0 := by
  have hzero : byteswapOnLittleEndian host (0 : BitVec (8 * 2)) = 0 := by cases host <;> decide
  constructor
  · intro h
    rw [← byteswap_word host, h, hzero]
    rfl
  · intro h
    have hswap : byteswapOnLittleEndian host (a.word host i) = 0 := BitVec.eq_of_toNat_eq (by rw [byteswap_word, h]; rfl)
    rw [← byteswapOnLittleEndian_involutive host (a.word host i), hswap, hzero]

theorem insertGroup_eq (r : Bytes × Bool) (i : Nat) :
    a.insertGroup host r i =
      if a.group i = 0 ∧ r.2 = false then r
      else
        let r := if i ≠ 0 ∧ a.group (i - 1) = 0 ∧ r.2 = false then (r.1 ++ ascii ":", true) else r
        ((if i ≠ 0 then r.1 ++ ascii ":" else r.1) ++ numeral 16 (a.group i), r.2) := by
  simp only [insertGroup, word_eq_zero, byteswap_word]

/-! ## The loop -/

variable {host a}

/-- Groups in front of the first zero are written with colons between them. -/
theorem loop_before {n : Nat} (h : ∀ j < n, a.group j ≠ 0) (os : Bytes) :
    (List.range n).foldl (a.insertGroup host) (os, false) = (os ++ join ((List.range n).map a.group), false) := by
  induction n with
  | zero => simp
  | succ n ih =>
    rw [List.range_succ, List.foldl_append, ih fun j hj => h j (by omega), List.foldl_cons, List.foldl_nil,
      insertGroup_eq, if_neg fun hz => h n (by omega) hz.1, List.map_append, List.map_singleton]
    cases n with
    | zero => simp [join_cons, more]
    | succ n =>
      have hprev : a.group n ≠ 0 := h n (by omega)
      have hne : (List.range (n + 1)).map a.group ≠ [] := by simp
      rw [join_append hne]
      simp [more, hprev, ascii]

/-- A run of zeros is passed over. -/
theorem loop_zeros {i n : Nat} (h : ∀ j, i ≤ j → j < i + n → a.group j = 0) (os : Bytes) :
    (List.range' i n).foldl (a.insertGroup host) (os, false) = (os, false) := by
  induction n generalizing i with
  | zero => rfl
  | succ n ih =>
    rw [List.range'_succ, List.foldl_cons, insertGroup_eq, if_pos ⟨h i (Nat.le_refl i) (by omega), rfl⟩]
    exact ih fun j hij hj => h j (by omega) (by omega)

/-- Behind two colons every group is written, with a colon in front. -/
theorem loop_behind {i : Nat} (hi : i ≠ 0) (n : Nat) (os : Bytes) :
    (List.range' i n).foldl (a.insertGroup host) (os, true) =
      (os ++ more ((List.range' i n).map a.group), true) := by
  induction n generalizing i os with
  | zero => simp [more]
  | succ n ih =>
    rw [List.range'_succ, List.foldl_cons, insertGroup_eq, List.map_cons, more_cons]
    simp [hi, ih (Nat.succ_ne_zero i), ascii]

/-- The first group behind a run of zeros. -/
theorem insertGroup_resume {i : Nat} (hi : i ≠ 0) (hprev : a.group (i - 1) = 0) (h : a.group i ≠ 0) (os : Bytes) :
    a.insertGroup host (os, false) i = (os ++ 58 :: 58 :: numeral 16 (a.group i), true) := by
  rw [insertGroup_eq]
  simp [hi, hprev, h, ascii]

/-! ## The text -/

/-- The places from `s` to `e` are the first ones below `n` that have `P`. -/
structure FirstRun (P : Nat → Prop) (n s e : Nat) : Prop where
  start_lt : s < e
  le : e ≤ n
  before : ∀ j < s, ¬ P j
  run : ∀ j, s ≤ j → j < e → P j
  stop : e < n → ¬ P e

theorem exists_firstRun {P : Nat → Prop} [DecidablePred P] {n : Nat} (hex : ∃ j, j < n ∧ P j) :
    ∃ s e, FirstRun P n s e := by
  have hend : ∃ e, Nat.find hex ≤ e ∧ (e = n ∨ ¬ P e) := ⟨n, Nat.le_of_lt (Nat.find_spec hex).1, .inl rfl⟩
  obtain ⟨hsn, hs⟩ := Nat.find_spec hex
  obtain ⟨hle, he⟩ := Nat.find_spec hend
  refine ⟨Nat.find hex, Nat.find hend, ?_, Nat.find_min' hend ⟨Nat.le_of_lt hsn, .inl rfl⟩, ?_, ?_, ?_⟩
  · refine Nat.lt_of_le_of_ne hle fun heq => ?_
    rw [← heq] at he
    rcases he with he | he
    · omega
    · exact he hs
  · intro j hj hP
    exact Nat.find_min hex hj ⟨by omega, hP⟩
  · intro j hj hje
    have hnot := Nat.find_min hend hje
    exact Decidable.not_not.1 fun hP => hnot ⟨hj, .inr hP⟩
  · intro hlt
    exact he.resolve_left (Nat.ne_of_lt hlt)

theorem range'_split {i m n : Nat} (him : i ≤ m) (hmn : m ≤ n) :
    List.range' i (n - i) = List.range' i (m - i) ++ List.range' m (n - m) := by
  have happ := @List.range'_append i (m - i) (n - m) 1
  have hsum : m - i + (n - m) = n - i := by omega
  rw [Nat.one_mul, Nat.add_sub_cancel' him, hsum] at happ
  exact happ.symm

/-- In front of the run, the run, and behind it. -/
theorem FirstRun.range_eq {P : Nat → Prop} {n s e : Nat} (h : FirstRun P n s e) :
    List.range n = List.range s ++ (List.range' s (e - s) ++ List.range' e (n - e)) := by
  have hsn : s ≤ n := Nat.le_trans (Nat.le_of_lt h.start_lt) h.le
  rw [List.range_eq_range', List.range_eq_range', ← range'_split (Nat.le_of_lt h.start_lt) h.le]
  exact range'_split (Nat.zero_le s) hsn

theorem insert_of_loop {os : Bytes} {used : Bool}
    (h : (List.range 8).foldl (a.insertGroup host) (ascii "[", false) = (os, used)) :
    a.insert host = (if used = false ∧ a.group 7 = 0 then os ++ ascii "::" else os) ++ ascii "]:" ++
      decimal (a.getPort host) := by
  simp only [insert, h, word_eq_zero]

/-- The text with two colons where the first zeros are. -/
def short (a : IPv6Address) (s e : Nat) : Bytes :=
  join ((List.range s).map a.group) ++ 58 :: 58 :: join ((List.range' e (8 - e)).map a.group)

theorem insert_of_run {s e : Nat} (h : FirstRun (fun j => a.group j = 0) 8 s e) :
    a.insert host = ascii "[" ++ a.short s e ++ ascii "]:" ++ decimal (a.getPort host) := by
  have hskip : (List.range 8).foldl (a.insertGroup host) (ascii "[", false) =
      (List.range' e (8 - e)).foldl (a.insertGroup host) (ascii "[" ++ join ((List.range s).map a.group), false) := by
    have hzeros : ∀ j, s ≤ j → j < s + (e - s) → a.group j = 0 := fun j hj hje => h.run j hj (by omega)
    rw [h.range_eq, List.foldl_append, loop_before h.before, List.foldl_append, loop_zeros hzeros]
  rcases Nat.eq_or_lt_of_le h.le with rfl | he
  · -- the zeros go on to the end, so the two colons are written behind the loop
    have hlast : a.group 7 = 0 := h.run 7 (Nat.le_of_lt_succ h.start_lt) (by decide)
    rw [insert_of_loop hskip, if_pos ⟨rfl, hlast⟩]
    simp [short, ascii]
  · have hrest : List.range' e (8 - e) = e :: List.range' (e + 1) (7 - e) := by
      rw [← List.range'_succ]
      congr 1
      omega
    have hs := h.start_lt
    have hprev : a.group (e - 1) = 0 := h.run (e - 1) (by omega) (by omega)
    have he0 : e ≠ 0 := by omega
    have hloop : (List.range 8).foldl (a.insertGroup host) (ascii "[", false) = (ascii "[" ++ a.short s e, true) := by
      rw [hskip, short, hrest, List.foldl_cons, insertGroup_resume he0 hprev (h.stop he),
        loop_behind (Nat.succ_ne_zero e), List.map_cons, join_cons]
      simp
    rw [insert_of_loop hloop, if_neg (by simp)]

theorem groups_of_run {s e : Nat} (h : FirstRun (fun j => a.group j = 0) 8 s e) :
    a.groups = (List.range s).map a.group ++ List.replicate (e - s) 0 ++ (List.range' e (8 - e)).map a.group := by
  have hzeros : (List.range' s (e - s)).map a.group = List.replicate (e - s) 0 := by
    refine List.eq_replicate_iff.2 ⟨by simp, ?_⟩
    intro g hg
    obtain ⟨j, hj, rfl⟩ := List.mem_map.1 hg
    rw [List.mem_range'_1] at hj
    exact h.run j hj.1 (by omega)
  rw [groups, h.range_eq, List.map_append, List.map_append, hzeros, List.append_assoc]

theorem lt_of_mem_map {l : List Nat} {g : Nat} (h : g ∈ l.map a.group) : g < 65536 := by
  obtain ⟨i, -, rfl⟩ := List.mem_map.1 h
  exact a.group_lt i

theorem expand_of_run {s e : Nat} (h : FirstRun (fun j => a.group j = 0) 8 s e) :
    expand (a.short s e) = some a.groups := by
  have hs := h.start_lt
  have he := h.le
  have hlen : ((List.range s).map a.group).length + ((List.range' e (8 - e)).map a.group).length < 8 := by
    simp
    omega
  have hzeros : 8 - (((List.range s).map a.group).length + ((List.range' e (8 - e)).map a.group).length) = e - s := by
    simp
    omega
  rw [short, expand_short (fun _ => lt_of_mem_map) (fun _ => lt_of_mem_map) hlen, hzeros, groups_of_run h]

/-- What is between the brackets. -/
theorem exists_text (host : Order) (a : IPv6Address) :
    ∃ T, a.insert host = ascii "[" ++ T ++ ascii "]:" ++ decimal (a.getPort host) ∧ expand T = some a.groups ∧
      93 ∉ T := by
  have hclean : ∀ gs, 93 ∉ join gs := by
    intro gs h
    rcases mem_join h with h | ⟨d, hd, h⟩
    · exact absurd h (by decide)
    · exact (digit_spec d hd).2.2.1 h.symm
  by_cases hex : ∃ j, j < 8 ∧ a.group j = 0
  · obtain ⟨s, e, h⟩ := exists_firstRun hex
    exact ⟨a.short s e, insert_of_run h, expand_of_run h, by simp [short, hclean]⟩
  · have hnone : ∀ j < 8, a.group j ≠ 0 := fun j hj hz => hex ⟨j, hj, hz⟩
    refine ⟨join a.groups, ?_, expand_join (fun _ => lt_of_mem_map) (by simp [groups]), hclean _⟩
    rw [insert_of_loop (loop_before hnone _), if_neg fun h => hnone 7 (by decide) h.2, groups]

/-- The groups are the bytes. -/
theorem addr_eq_of_groups {a b : IPv6Address} (h : a.groups = b.groups) : a.addr.addr = b.addr.addr := by
  have hgroup : ∀ i < 8, a.group i = b.group i := by
    intro i hi
    exact List.map_inj_left.1 h i (List.mem_range.2 hi)
  have hbyte : ∀ i < 16, a.byte i = b.byte i := by
    intro i hi
    have hpair := hgroup (i / 2) (by omega)
    have hahi := (a.byte (2 * (i / 2))).toNat_lt
    have halo := (a.byte (2 * (i / 2) + 1)).toNat_lt
    have hblo := (b.byte (2 * (i / 2) + 1)).toNat_lt
    rw [group, group] at hpair
    apply UInt8.toNat_inj.1
    rcases Nat.mod_two_eq_zero_or_one i with hmod | hmod
    · have heven : i = 2 * (i / 2) := by omega
      rw [heven]
      omega
    · have hodd : i = 2 * (i / 2) + 1 := by omega
      rw [hodd]
      omega
  apply Vector.ext
  intro i hi
  simpa [byte, hi] using hbyte i hi

theorem port_eq_of_getPort {host : Order} {a b : IPv6Address} (h : a.getPort host = b.getPort host) :
    a.addr.port = b.addr.port := by
  apply UInt16.toBitVec_inj.1
  have hswap := BitVec.eq_of_toNat_eq h
  rw [← byteswapOnLittleEndian_involutive host (w := 2) a.addr.port.toBitVec, hswap,
    byteswapOnLittleEndian_involutive]

/-- The text between the brackets expands to the groups of the address, and only the
same address and port have the same text. -/
theorem insert_faithful (host : Order) :
    (∀ a : IPv6Address, ∃ T, a.insert host = ascii "[" ++ T ++ ascii "]:" ++ decimal (a.getPort host) ∧
      expand T = some a.groups) ∧
    ∀ a b : IPv6Address, a.insert host = b.insert host ↔ a.addr.addr = b.addr.addr ∧ a.addr.port = b.addr.port := by
  refine ⟨fun a => ?_, fun a b => ⟨fun h => ?_, fun h => ?_⟩⟩
  · obtain ⟨T, hT, hexpand, -⟩ := exists_text host a
    exact ⟨T, hT, hexpand⟩
  · obtain ⟨T, hT, hexpand, hclean⟩ := exists_text host a
    obtain ⟨T', hT', hexpand', -⟩ := exists_text host b
    rw [hT, hT'] at h
    have hparts : T ++ 93 :: 58 :: decimal (a.getPort host) = T' ++ 93 :: 58 :: decimal (b.getPort host) := by
      simpa [ascii] using h
    have htail : 93 ∉ 58 :: decimal (a.getPort host) := by
      intro h93
      rcases List.mem_cons.1 h93 with h93 | h93
      · exact absurd h93 (by decide)
      · exact absurd (decimal_digit h93).2 (by decide)
    obtain ⟨rfl, -, hports⟩ := (List.append_cons_inj_of_notMem hclean htail).1 hparts
    have hgroups : a.groups = b.groups := Option.some.inj (hexpand.symm.trans hexpand')
    have hport : a.getPort host = b.getPort host :=
      numeral_injective (by decide) (by decide) (List.cons.inj hports).2
    exact ⟨addr_eq_of_groups hgroups, port_eq_of_getPort hport⟩
  · -- the family is not written
    obtain ⟨⟨familyA, portA, addrA⟩⟩ := a
    obtain ⟨⟨familyB, portB, addrB⟩⟩ := b
    obtain ⟨rfl, rfl⟩ := h
    rfl

end Linko.IPv6Address
