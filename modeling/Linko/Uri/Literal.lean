import Linko.Lib.Buckets
import Linko.Uri.Components
/-!
# IPv6 literals

What is accepted between the brackets of an `IP_literal`, against the addresses
of RFC 3986.
-/

namespace Linko.Uri

open CString Ragel Regex UriParser

/-! ## Addresses -/

/-- One to four hex digits. -/
def IsGroup (g : Bytes) : Prop := 1 ≤ g.length ∧ g.length ≤ 4 ∧ ∀ b ∈ g, xdigit.has b = true

/-- A number up to 255 with `P`. -/
def IsOctet (P : Nat → Prop) (o : Bytes) : Prop := ∃ n < 256, P n ∧ o = decimal n

def IsDotted (P : Nat → Prop) (a : Bytes) : Prop :=
  ∃ w x y z, IsOctet P w ∧ IsOctet P x ∧ IsOctet P y ∧ IsOctet P z ∧ a = w ++ 46 :: (x ++ 46 :: (y ++ 46 :: z))

/-- `:` between the parts. -/
def join (parts : List Bytes) : Bytes := List.intercalate [58] parts

/-- The last `m` groups of an address, of which two may be an IPv4 address with
octets in `P`. -/
def Back (P : Nat → Prop) (m : Nat) (b : Bytes) : Prop :=
  (∃ gs, gs.length = m ∧ (∀ g ∈ gs, IsGroup g) ∧ b = join gs) ∨
    ∃ gs a, gs.length + 2 = m ∧ (∀ g ∈ gs, IsGroup g) ∧ IsDotted P a ∧ b = join (gs ++ [a])

/-- Eight groups, or `k` groups, `::` and `m` groups where `C k m` holds. -/
def Address (P : Nat → Prop) (C : Nat → Nat → Prop) (l : Bytes) : Prop :=
  Back P 8 l ∨ ∃ gs m b, C gs.length m ∧ (∀ g ∈ gs, IsGroup g) ∧ Back P m b ∧ l = join gs ++ 58 :: 58 :: b

/-- The addresses of RFC 3986: `::` stands for at least one group. -/
def IPv6address : Bytes → Prop := Address (fun _ => True) fun k m => k + m ≤ 7

/-- No octet is between 200 and 249, and what stands in front of a `::` is
nothing or all but one of the groups that are left. -/
def Plain : Bytes → Prop := Address (fun n => n < 200 ∨ 250 ≤ n) fun k m => k = 0 ∧ m ≤ 7 ∨ k + m = 7

/-! ## The grammar of `uri.rl` -/

/-- Groups with a `:` behind each of them. -/
def heads (gs : List Bytes) : Bytes := gs.flatMap fun g => g ++ [58]

theorem join_snoc (gs : List Bytes) (x : Bytes) : join (gs ++ [x]) = heads gs ++ x := by
  induction gs with
  | nil => exact List.intercalate_singleton
  | cons g gs ih =>
    have hne : gs ++ [x] ≠ [] := by simp
    rw [join] at ih
    rw [List.cons_append, join, List.intercalate_cons_of_ne_nil hne, ih]
    simp [heads]

theorem heads_snoc (gs : List Bytes) (x : Bytes) : heads (gs ++ [x]) = heads gs ++ (x ++ [58]) := by
  simp [heads]

theorem one_has {c : Char} {d b : UInt8} (h : c.toNat = d.toNat) : (one c).has b = true ↔ b = d := by
  rw [← UInt8.toNat_inj]
  simp [ByteClass.has, one, h]
  omega

theorem mem_colon {w : Bytes} : w ∈ Grammar.colon.lang ↔ w = [58] := mem_one fun _ => one_has rfl

theorem mem_dot {w : Bytes} : w ∈ Grammar.dot.lang ↔ w = [46] := mem_one fun _ => one_has rfl

theorem mem_h16 {w : Bytes} : w ∈ Grammar.h16.lang ↔ IsGroup w := by
  constructor
  · rintro ⟨u, ⟨a, ha, rfl⟩, v, hv, rfl⟩
    rcases hv with rfl | ⟨u, ⟨b, hb, rfl⟩, v, hv, rfl⟩
    · exact ⟨by simp, by simp, by simpa using ha⟩
    rcases hv with rfl | ⟨u, ⟨c, hc, rfl⟩, v, hv, rfl⟩
    · exact ⟨by simp, by simp, by simpa using ⟨ha, hb⟩⟩
    rcases hv with rfl | ⟨d, hd, rfl⟩
    · exact ⟨by simp, by simp, by simpa using ⟨ha, hb, hc⟩⟩
    · exact ⟨by simp, by simp, by simpa using ⟨ha, hb, hc, hd⟩⟩
  · rintro ⟨hmin, hmax, hall⟩
    have htail : ∀ {r : Regex} {b : UInt8} {v : Bytes}, xdigit.has b = true → v ∈ (opt r).lang →
        b :: v ∈ (seq (cls xdigit) (opt r)).lang := fun hb hv => ⟨[_], ⟨_, hb, rfl⟩, _, hv, rfl⟩
    rcases w with _ | ⟨a, _ | ⟨b, _ | ⟨c, _ | ⟨d, _ | ⟨e, w⟩⟩⟩⟩⟩
    · simp at hmin
    · exact htail (hall a (by simp)) (.inl rfl)
    · exact htail (hall a (by simp)) (.inr (htail (hall b (by simp)) (.inl rfl)))
    · exact htail (hall a (by simp))
        (.inr (htail (hall b (by simp)) (.inr (htail (hall c (by simp)) (.inl rfl)))))
    · exact htail (hall a (by simp)) (.inr (htail (hall b (by simp)) (.inr (htail (hall c (by simp))
        (.inr ⟨d, hall d (by simp), rfl⟩)))))
    · simp only [List.length_cons] at hmax
      omega

theorem mem_times {n : Nat} {w : Bytes} : w ∈ (times n (seq Grammar.h16 Grammar.colon)).lang ↔
    ∃ gs : List Bytes, gs.length = n ∧ (∀ g ∈ gs, IsGroup g) ∧ w = heads gs := by
  rw [lang_times]
  induction n generalizing w with
  | zero =>
    constructor
    · rintro rfl
      exact ⟨[], rfl, nofun, rfl⟩
    · rintro ⟨gs, hlen, -, rfl⟩
      rw [List.length_eq_zero_iff.1 hlen]
      rfl
  | succ n ih =>
    rw [pow_succ']
    constructor
    · rintro ⟨u, ⟨g, hg, c, hc, rfl⟩, v, hv, rfl⟩
      obtain ⟨gs, hlen, hgs, rfl⟩ := ih.1 hv
      rw [mem_colon.1 hc]
      exact ⟨g :: gs, by rw [List.length_cons, hlen], List.forall_mem_cons.2 ⟨mem_h16.1 hg, hgs⟩, rfl⟩
    · rintro ⟨gs, hlen, hgs, rfl⟩
      cases gs with
      | nil => cases hlen
      | cons g gs =>
        obtain ⟨hg, hgs⟩ := List.forall_mem_cons.1 hgs
        have hrest := ih.2 ⟨gs, Nat.succ.inj hlen, hgs, rfl⟩
        exact ⟨g ++ [58], ⟨g, mem_h16.2 hg, [58], mem_colon.2 rfl, rfl⟩, heads gs, hrest, rfl⟩

/-! ## IPv4 -/

def plainOctet (n : Nat) : Prop := n < 200 ∨ 250 ≤ n

instance (n : Nat) : Decidable (plainOctet n) := inferInstanceAs (Decidable (_ ∨ _))

theorem decimal_octet : ∀ n < 256, plainOctet n → decimal n ∈ Grammar.decOctet.lang := by
  decide +kernel

/-- The value of up to three digits. -/
theorem digits_octet :
    (∀ d, digit.has d = true → [d] = decimal (d.toNat - 48)) ∧
    (∀ c, ByteClass.has [(49, 57)] c = true → ∀ d, digit.has d = true →
      [c, d] = decimal (10 * (c.toNat - 48) + (d.toNat - 48))) ∧
    (∀ c, digit.has c = true → ∀ d, digit.has d = true →
      [49, c, d] = decimal (100 + 10 * (c.toNat - 48) + (d.toNat - 48))) ∧
    ∀ d, ByteClass.has [(48, 53)] d = true → [50, 53, d] = decimal (250 + (d.toNat - 48)) := by
  decide +kernel

theorem range_has {lo hi : Nat} {b : UInt8} (h : ByteClass.has [(lo, hi)] b = true) :
    lo ≤ b.toNat ∧ b.toNat ≤ hi := by
  simp only [ByteClass.has, List.any_cons, List.any_nil, Bool.or_false, Bool.and_eq_true] at h
  exact ⟨Nat.le_of_ble_eq_true h.1, Nat.le_of_ble_eq_true h.2⟩

theorem mem_decOctet {w : Bytes} (h2 : 2 ∉ w) : w ∈ Grammar.decOctet.lang ↔ IsOctet plainOctet w := by
  obtain ⟨hone, htwo, hhundred, hlast⟩ := digits_octet
  constructor
  · rintro (⟨d, hd, rfl⟩ | ⟨u, ⟨c, hc, rfl⟩, v, ⟨d, hd, rfl⟩, rfl⟩ |
      ⟨u, ⟨b, hb, rfl⟩, v, ⟨u', ⟨c, hc, rfl⟩, v', ⟨d, hd, rfl⟩, rfl⟩, rfl⟩ |
      ⟨u, ⟨b, hb, rfl⟩, v, -, rfl⟩ | ⟨u, ⟨u', ⟨b, hb, rfl⟩, v', ⟨c, hc, rfl⟩, rfl⟩, v, ⟨d, hd, rfl⟩, rfl⟩)
    · have := range_has hd
      exact ⟨d.toNat - 48, by omega, .inl (by omega), hone d hd⟩
    · have := range_has hc
      have := range_has hd
      exact ⟨10 * (c.toNat - 48) + (d.toNat - 48), by omega, .inl (by omega), htwo c hc d hd⟩
    · obtain rfl : b = 49 := UInt8.toNat_inj.1 (Nat.le_antisymm (range_has hb).2 (range_has hb).1)
      have := range_has hc
      have := range_has hd
      exact ⟨100 + 10 * (c.toNat - 48) + (d.toNat - 48), by omega, .inl (by omega), hhundred c hc d hd⟩
    · -- the byte 2 is not a digit
      obtain rfl : b = 2 := UInt8.toNat_inj.1 (Nat.le_antisymm (range_has hb).2 (range_has hb).1)
      exact absurd List.mem_cons_self h2
    · obtain rfl : b = 50 := UInt8.toNat_inj.1 (Nat.le_antisymm (range_has hb).2 (range_has hb).1)
      obtain rfl : c = 53 := UInt8.toNat_inj.1 (Nat.le_antisymm (range_has hc).2 (range_has hc).1)
      have := range_has hd
      exact ⟨250 + (d.toNat - 48), by omega, .inr (by omega), hlast d hd⟩
  · rintro ⟨n, hn, hplain, rfl⟩
    exact decimal_octet n hn hplain

theorem mem_IPv4address {w : Bytes} (h2 : 2 ∉ w) : w ∈ Grammar.IPv4address.lang ↔ IsDotted plainOctet w := by
  constructor
  · rintro
      ⟨a, ha, u, ⟨d₁, hd₁, u₁, ⟨b, hb, v, ⟨d₂, hd₂, v₁, ⟨c, hc, x, ⟨d₃, hd₃, d, hd, rfl⟩, rfl⟩, rfl⟩,
        rfl⟩, rfl⟩, rfl⟩
    obtain rfl := mem_dot.1 hd₁
    obtain rfl := mem_dot.1 hd₂
    obtain rfl := mem_dot.1 hd₃
    simp only [List.mem_append, not_or] at h2
    obtain ⟨ha2, -, hb2, -, hc2, -, hd2⟩ := h2
    exact ⟨a, b, c, d, (mem_decOctet ha2).1 ha, (mem_decOctet hb2).1 hb, (mem_decOctet hc2).1 hc,
      (mem_decOctet hd2).1 hd, rfl⟩
  · rintro ⟨a, b, c, d, ha, hb, hc, hd, rfl⟩
    have hdot : [46] ∈ Grammar.dot.lang := mem_dot.2 rfl
    have hoctet : ∀ {o : Bytes}, IsOctet plainOctet o → o ∈ Grammar.decOctet.lang := by
      rintro o ⟨n, hn, hplain, rfl⟩
      exact decimal_octet n hn hplain
    exact ⟨a, hoctet ha, _, ⟨[46], hdot, _, ⟨b, hoctet hb, _, ⟨[46], hdot, _, ⟨c, hoctet hc, _,
      ⟨[46], hdot, d, hoctet hd, rfl⟩, rfl⟩, rfl⟩, rfl⟩, rfl⟩, rfl⟩

/-! ## The end of an address -/

/-- What the grammar has for `m` groups at the end. -/
def backRe : Nat → Regex
  | 0 => eps
  | 1 => Grammar.h16
  | 2 => Grammar.ls32
  | n + 3 => seq (times (n + 1) (seq Grammar.h16 Grammar.colon)) Grammar.ls32

theorem lang_backRe (n : Nat) :
    (backRe (n + 2)).lang = (seq (times n (seq Grammar.h16 Grammar.colon)) Grammar.ls32).lang := by
  cases n with
  | zero => exact (one_mul Grammar.ls32.lang).symm
  | succ n => rfl

theorem mem_ls32 {w : Bytes} (h2 : 2 ∉ w) : w ∈ Grammar.ls32.lang ↔
    (∃ x y, IsGroup x ∧ IsGroup y ∧ w = x ++ 58 :: y) ∨ IsDotted plainOctet w := by
  rw [Grammar.ls32, mem_alt, mem_IPv4address h2]
  refine or_congr_left ?_
  constructor
  · rintro ⟨x, hx, u, ⟨c, hc, y, hy, rfl⟩, rfl⟩
    obtain rfl := mem_colon.1 hc
    exact ⟨x, y, mem_h16.1 hx, mem_h16.1 hy, rfl⟩
  · rintro ⟨x, y, hx, hy, rfl⟩
    exact ⟨x, mem_h16.2 hx, _, ⟨[58], mem_colon.2 rfl, y, mem_h16.2 hy, rfl⟩, rfl⟩

theorem mem_backRe {m : Nat} {w : Bytes} (h2 : 2 ∉ w) : w ∈ (backRe m).lang ↔ Back plainOctet m w := by
  match m with
  | 0 =>
    constructor
    · rintro rfl
      exact .inl ⟨[], rfl, nofun, rfl⟩
    · rintro (⟨gs, hlen, -, rfl⟩ | ⟨gs, a, hlen, -⟩)
      · rw [List.length_eq_zero_iff.1 hlen]
        rfl
      · omega
  | 1 =>
    constructor
    · intro h
      exact .inl ⟨[w], rfl, by simpa using mem_h16.1 h, (join_snoc [] w).symm⟩
    · rintro (⟨gs, hlen, hgs, rfl⟩ | ⟨gs, a, hlen, -⟩)
      · obtain ⟨g, rfl⟩ := List.length_eq_one_iff.1 hlen
        rw [show join [g] = g from join_snoc [] g]
        exact mem_h16.2 (hgs g List.mem_cons_self)
      · omega
  | n + 2 =>
    rw [lang_backRe]
    constructor
    · rintro ⟨u, hu, v, hv, rfl⟩
      obtain ⟨gs, hlen, hgs, rfl⟩ := mem_times.1 hu
      rw [List.mem_append, not_or] at h2
      rcases (mem_ls32 h2.2).1 hv with ⟨x, y, hx, hy, rfl⟩ | hv
      · refine .inl ⟨gs ++ [x] ++ [y], by simp [hlen], ?_, ?_⟩
        · simpa [or_imp, forall_and] using ⟨hgs, hx, hy⟩
        · rw [join_snoc, heads_snoc]
          simp
      · exact .inr ⟨gs, v, by rw [hlen], hgs, hv, (join_snoc gs v).symm⟩
    · rintro (⟨gs, hlen, hgs, rfl⟩ | ⟨gs, a, hlen, hgs, ha, rfl⟩)
      -- the last two groups are the `ls32`
      · obtain ⟨gs, y, rfl⟩ := (List.eq_nil_or_concat' gs).resolve_left (by rintro rfl; cases hlen)
        obtain ⟨gs, x, rfl⟩ := (List.eq_nil_or_concat' gs).resolve_left (by rintro rfl; simp at hlen)
        have hsame : join (gs ++ [x] ++ [y]) = heads gs ++ (x ++ 58 :: y) := by
          rw [join_snoc, heads_snoc]
          simp
        rw [hsame] at h2 ⊢
        simp only [List.mem_append, List.mem_singleton, or_imp, forall_and, forall_eq] at hgs
        have hlen : gs.length = n := by simpa using hlen
        refine ⟨heads gs, mem_times.2 ⟨gs, hlen, hgs.1.1, rfl⟩, x ++ 58 :: y, ?_, rfl⟩
        exact (mem_ls32 fun h => h2 (List.mem_append_right _ h)).2 (.inl ⟨x, y, hgs.1.2, hgs.2, rfl⟩)
      · rw [join_snoc] at h2 ⊢
        rw [List.mem_append, not_or] at h2
        exact ⟨heads gs, mem_times.2 ⟨gs, by omega, hgs, rfl⟩, a, (mem_ls32 h2.2).2 (.inr ha), rfl⟩

/-- `::` behind no group or `n + 1` groups. -/
theorem mem_compressed {n : Nat} {r : Regex} {w : Bytes} : w ∈ (Grammar.compressed n r).lang ↔
    ∃ gs b, (gs.length = 0 ∨ gs.length = n + 1) ∧ (∀ g ∈ gs, IsGroup g) ∧ b ∈ r.lang ∧
      w = join gs ++ 58 :: 58 :: b := by
  constructor
  · rintro ⟨u, hu, v, ⟨v', ⟨c, hc, d, hd, rfl⟩, b, hb, rfl⟩, rfl⟩
    obtain rfl := mem_colon.1 hc
    obtain rfl := mem_colon.1 hd
    rcases hu with rfl | ⟨u, hu, g, hg, rfl⟩
    · exact ⟨[], b, .inl rfl, nofun, hb, rfl⟩
    · obtain ⟨gs, hlen, hgs, rfl⟩ := mem_times.1 hu
      refine ⟨gs ++ [g], b, .inr (by simp [hlen]), ?_, hb, by rw [join_snoc]; rfl⟩
      simpa [or_imp, forall_and] using ⟨hgs, mem_h16.1 hg⟩
  · rintro ⟨gs, b, hlen, hgs, hb, rfl⟩
    have hcolons : 58 :: 58 :: b ∈ (seq (seq Grammar.colon Grammar.colon) r).lang :=
      ⟨[58, 58], ⟨[58], mem_colon.2 rfl, [58], mem_colon.2 rfl, rfl⟩, b, hb, rfl⟩
    rcases hlen with hlen | hlen
    · rw [List.length_eq_zero_iff.1 hlen]
      exact ⟨[], .inl rfl, _, hcolons, rfl⟩
    · obtain ⟨gs, g, rfl⟩ := (List.eq_nil_or_concat' gs).resolve_left (by rintro rfl; cases hlen)
      simp only [List.mem_append, List.mem_singleton, or_imp, forall_and, forall_eq] at hgs
      rw [join_snoc]
      exact ⟨heads gs ++ g, .inr ⟨heads gs, mem_times.2 ⟨gs, by simpa using hlen, hgs.1, rfl⟩, g,
        mem_h16.2 hgs.2, rfl⟩, _, hcolons, rfl⟩

/-- The nine alternatives of the grammar. -/
theorem IPv6address_eq : Grammar.IPv6address =
    alt (backRe 8) (alt (seq (seq Grammar.colon Grammar.colon) (backRe 7))
      (alt (Grammar.compressed 0 (backRe 6)) (alt (Grammar.compressed 1 (backRe 5))
        (alt (Grammar.compressed 2 (backRe 4)) (alt (Grammar.compressed 3 (backRe 3))
          (alt (Grammar.compressed 4 (backRe 2)) (alt (Grammar.compressed 5 (backRe 1))
            (Grammar.compressed 6 (backRe 0))))))))) := rfl

theorem mem_IPv6address {w : Bytes} : w ∈ Grammar.IPv6address.lang ↔ w ∈ (backRe 8).lang ∨
    w ∈ (seq (seq Grammar.colon Grammar.colon) (backRe 7)).lang ∨
    ∃ m ≤ 6, w ∈ (Grammar.compressed (6 - m) (backRe m)).lang := by
  simp only [IPv6address_eq, mem_alt]
  refine or_congr_right (or_congr_right ?_)
  constructor
  · rintro (h | h | h | h | h | h | h)
    · exact ⟨6, by omega, h⟩
    · exact ⟨5, by omega, h⟩
    · exact ⟨4, by omega, h⟩
    · exact ⟨3, by omega, h⟩
    · exact ⟨2, by omega, h⟩
    · exact ⟨1, by omega, h⟩
    · exact ⟨0, by omega, h⟩
  · rintro ⟨m, hm, h⟩
    have hcases : m = 6 ∨ m = 5 ∨ m = 4 ∨ m = 3 ∨ m = 2 ∨ m = 1 ∨ m = 0 := by omega
    rcases hcases with rfl | rfl | rfl | rfl | rfl | rfl | rfl
    · exact .inl h
    · exact .inr (.inl h)
    · exact .inr (.inr (.inl h))
    · exact .inr (.inr (.inr (.inl h)))
    · exact .inr (.inr (.inr (.inr (.inl h))))
    · exact .inr (.inr (.inr (.inr (.inr (.inl h)))))
    · exact .inr (.inr (.inr (.inr (.inr (.inr h)))))

theorem mem_IPv6address_iff {l : Bytes} (h2 : 2 ∉ l) : l ∈ Grammar.IPv6address.lang ↔ Plain l := by
  rw [mem_IPv6address, mem_backRe h2]
  refine or_congr_right ?_
  constructor
  · rintro (⟨u, ⟨c, hc, d, hd, rfl⟩, b, hb, rfl⟩ | ⟨m, hm, h⟩)
    · obtain rfl := mem_colon.1 hc
      obtain rfl := mem_colon.1 hd
      have hb2 : 2 ∉ b := fun h => h2 (List.mem_append_right _ h)
      exact ⟨[], 7, b, .inl ⟨rfl, by omega⟩, nofun, (mem_backRe hb2).1 hb, rfl⟩
    · obtain ⟨gs, b, hlen, hgs, hb, rfl⟩ := mem_compressed.1 h
      have hb2 : 2 ∉ b := fun h => h2 (List.mem_append_right _ (by simp [h]))
      exact ⟨gs, m, b, by omega, hgs, (mem_backRe hb2).1 hb, rfl⟩
  · rintro ⟨gs, m, b, hC, hgs, hb, rfl⟩
    have hb2 : 2 ∉ b := fun h => h2 (List.mem_append_right _ (by simp [h]))
    -- seven groups behind the `::` are the one alternative without groups in front
    rcases Nat.lt_or_ge m 7 with hm | hm
    · refine .inr ⟨m, by omega, mem_compressed.2 ⟨gs, b, by omega, hgs, (mem_backRe hb2).2 hb, rfl⟩⟩
    · obtain rfl : m = 7 := by omega
      have hgs : gs = [] := List.length_eq_zero_iff.1 (by omega)
      subst hgs
      exact .inl ⟨[58, 58], ⟨[58], mem_colon.2 rfl, [58], mem_colon.2 rfl, rfl⟩, b, (mem_backRe hb2).2 hb, rfl⟩

/-! ## The machine -/

/-- The bytes an address is made of. -/
def literalByte : ByteClass := xdigit ++ one ':' ++ one '.'

/-- A complete address is followed by `]`, another one is not. -/
def bracket (t : Nat) (done : Bool) : Bool := decide (machine.next t 93 = if done then some ([], 512) else none)

/-! Hexadecimal digits and decimal digits that no class of an address and none
of the states `260` to `446` tells apart need not be told apart here. -/

def twin (b : UInt8) : UInt8 :=
  if b == 52 then 51
  else if 55 ≤ b && b ≤ 57 then 54
  else if 65 ≤ b && b ≤ 70 || 98 ≤ b && b ≤ 102 then 97
  else b

/-- `0`, `1`, `2`, `3`, `5`, `6`, `a`, `:` and `.` -/
def twins : List UInt8 := [48, 49, 50, 51, 53, 54, 97, 58, 46]

def literalClasses : List ByteClass :=
  [xdigit, one ':', one ']', one '.', digit, one '0', one '1', [(49, 57)], one '2', [(2, 2)], [(48, 52)], one '5',
    [(48, 53)], one 'v']

theorem twin_spec : ∀ b ∈ Machine.bytes literalByte,
    twin b ∈ twins ∧ ∀ k ∈ literalClasses, k.has (twin b) = k.has b := by
  decide +kernel

theorem mem_literalClasses : (∀ k ∈ Grammar.IPv6address.classes, k ∈ literalClasses) ∧
    ∀ r ∈ rows, Nat.ble 260 r.1 && Nat.ble r.1 446 → ∀ e ∈ r.2, e.on ∈ literalClasses := by
  decide +kernel

theorem next_twin {t : Nat} (ht : Nat.ble 260 t && Nat.ble t 446) {b : UInt8} (hb : literalByte.has b = true) :
    machine.next t b = machine.next t (twin b) := by
  refine lookup_alike (fun e he => ?_) false
  obtain ⟨es, hmem, hes⟩ := row_mem he
  exact ((twin_spec b (Machine.mem_bytes hb)).2 e.on (mem_literalClasses.2 _ hmem ht e hes)).symm

/-- The machine with its states in buckets. -/
def quick : Machine Act := ⟨lookupIn (Buckets.split 9 1 rows) false, fun _ => false⟩

theorem machine_eq : machine = quick := by
  rw [quick, lookupIn_split]
  rfl

def scans (t : Nat) (done : Bool) : Bool := bracket t done && (Nat.ble 260 t && Nat.ble t 446)

theorem agree_literal : machine.agree twins 400 260 Grammar.IPv6address scans = true := by
  unfold scans bracket
  rw [machine_eq]
  decide +kernel

variable {l : Bytes}

theorem quiet_literal (hl : ∀ b ∈ l, literalByte.has b = true) :
    machine.Dead 260 (l ++ [93]) ∧ ¬ Plain l ∨
      (∃ t, machine.quiet 260 l = some t ∧ machine.next t 93 = some ([], 512)) ∧ Plain l := by
  -- the byte 2, which `dec_octet` asks for, is not in `l`
  have h2 : 2 ∉ l := fun h => absurd (hl 2 h) (by decide)
  rw [← mem_IPv6address_iff h2]
  have hclasses : ∀ k ∈ Grammar.IPv6address.classes, ∀ b, literalByte.has b = true → k.has (twin b) = k.has b :=
    fun k hk b hb => (twin_spec b (Machine.mem_bytes hb)).2 k (mem_literalClasses.1 k hk)
  have hnext : ∀ t done, scans t done = true → ∀ b, literalByte.has b = true →
      machine.next t b = machine.next t (twin b) :=
    fun t done ht b hb => next_twin (Bool.and_eq_true_iff.1 ht).2 hb
  rcases machine.agree_map agree_literal (fun b hb => (twin_spec b (Machine.mem_bytes hb)).1) hclasses hnext hl with
    ⟨hdead, hnot⟩ | ⟨t, done, hq, hscans, hdone⟩
  · exact .inl ⟨machine.dead_left hdead [93], hnot⟩
  · have hbracket := (Bool.and_eq_true_iff.1 hscans).1
    have hnext := of_decide_eq_true hbracket
    cases done with
    | false =>
      refine .inl ⟨(machine.dead_append hq [93]).2 (machine.dead_none hnext []), fun h => ?_⟩
      exact absurd (hdone.1 h) (by decide)
    | true => exact .inr ⟨⟨t, hq, hnext⟩, hdone.2 rfl⟩

theorem resume_dead {input w rest : Bytes} {cs p : Nat} {s : Scan} (h : At input p (w ++ rest))
    (hdead : machine.Dead cs w) : resume input cs p s = .ok none := by
  obtain ⟨q, hq, heq⟩ := machine.exec_dead (act input) (machine.dead_left hdead rest) p s
  have hlen := congrArg List.length h.drop
  rw [List.length_drop] at hlen
  have hle := h.le
  have hne : q ≠ input.length := by omega
  rw [resume, h.drop, heq]
  show finish input 0 q s = _
  rw [finish, if_neg hne]
  rfl

/-- `http://[l]/` -/
def literalText (l : Bytes) : Bytes := ascii "http" ++ 58 :: 47 :: 47 :: (91 :: l ++ 93 :: [47])

/-- What `Create` makes of an address between brackets. -/
theorem create_literal (hl : ∀ b ∈ l, literalByte.has b = true) :
    Create (literalText l) = .ok none ∧ ¬ Plain l ∨
      Create (literalText l) = .ok (some ⟨ascii "http", [], 91 :: l ++ [93], [47], [], [], 0⟩) ∧ Plain l := by
  have hstart : At (literalText l) 0 (ascii "http" ++ 58 :: 47 :: 47 :: (91 :: l ++ 93 :: [47])) :=
    ⟨Nat.zero_le _, rfl⟩
  obtain ⟨q, hq, heq⟩ := resume_scheme (s := ⟨new, none⟩) (by decide) hstart
  have hopen : machine.next 511 91 = some ([.markh], 260) := by decide
  have hmark : [Act.markh].foldlM (act (literalText l) q) ⟨{ new with scheme := ascii "http" }, none⟩ =
      .ok ⟨{ new with scheme := ascii "http" }, some q⟩ := rfl
  have hin : At (literalText l) (q + 1) (l ++ 93 :: [47]) := At.next hq
  have hcreate := Eq.trans heq (resume_step hq hopen hmark)
  rcases quiet_literal hl with ⟨hdead, hnot⟩ | ⟨⟨t, hquiet, hclose⟩, hplain⟩
  -- the machine stops at the `]` at the latest
  · refine .inl ⟨Eq.trans hcreate ?_, hnot⟩
    have hsplit : At (literalText l) (q + 1) (l ++ [93] ++ [47]) := by simpa using hin
    exact resume_dead hsplit hdead
  · refine .inr ⟨Eq.trans hcreate ?_, hplain⟩
    have hhost : At (literalText l) q ((91 :: l ++ [93]) ++ [47]) := by simpa using hq
    have hslash := hhost.skip
    have hlen : q + 1 + l.length + 1 = q + (91 :: l ++ [93]).length := by simp; omega
    rw [resume_quiet hin hquiet, resume_step hin.skip hclose rfl, hlen]
    have hleaves : Leaves [.saveHost, .markh] 512 := by decide
    have hsave : [Act.saveHost, .markh].foldlM (act (literalText l) (q + (91 :: l ++ [93]).length))
        ⟨{ new with scheme := ascii "http" }, some q⟩ =
        .ok ⟨{ new with scheme := ascii "http", host := 91 :: l ++ [93] }, some
          (q + (91 :: l ++ [93]).length)⟩ :=
      fold_cons (act_saveHost (text_at _ hhost)) rfl
    have hrest : At (literalText l) (q + (91 :: l ++ [93]).length)
        ([47] ++ (queryText none ++ fragmentText none)) := hslash
    have hnone : ∀ L : Language UInt8, ∀ v ∈ (none : Option Bytes), v ∈ L :=
      fun _ v hv => absurd hv (Option.not_mem_none v)
    rw [resume_path hleaves hsave rfl (by decide) (hnone _) (hnone _) hrest]
    rfl

/-- `Create` succeeds on the addresses of the RFC, and the host is what stands
there. -/
def AsDefined (l : Bytes) : Prop :=
  ((∃ uri, Create (literalText l) = .ok (some uri)) ↔ IPv6address l) ∧
    ∀ uri, Create (literalText l) = .ok (some uri) → uri.getHost = 91 :: l ++ [93]

theorem IsOctet.mono {P Q : Nat → Prop} (h : ∀ n, P n → Q n) {o : Bytes} (ho : IsOctet P o) : IsOctet Q o := by
  obtain ⟨n, hn, hP, rfl⟩ := ho
  exact ⟨n, hn, h n hP, rfl⟩

theorem Back.mono {P Q : Nat → Prop} (h : ∀ n, P n → Q n) {m : Nat} {b : Bytes} (hb : Back P m b) :
    Back Q m b := by
  rcases hb with hb | ⟨gs, a, hlen, hgs, ⟨w, x, y, z, hw, hx, hy, hz, rfl⟩, rfl⟩
  · exact .inl hb
  · exact .inr ⟨gs, _, hlen, hgs, ⟨w, x, y, z, hw.mono h, hx.mono h, hy.mono h, hz.mono h, rfl⟩, rfl⟩

theorem Plain.address (h : Plain l) : IPv6address l := by
  rcases h with h | ⟨gs, m, b, hC, hgs, hb, rfl⟩
  · exact .inl (h.mono fun _ _ => trivial)
  · exact .inr ⟨gs, m, b, by omega, hgs, hb.mono fun _ _ => trivial, rfl⟩

/-- For every string of hex digits, `:` and `.`: `Create` does what the RFC says
unless it is an address that is not plain. -/
theorem asDefined_iff (hl : ∀ b ∈ l, literalByte.has b = true) : AsDefined l ↔ (IPv6address l → Plain l) := by
  unfold AsDefined
  rcases create_literal hl with ⟨hcreate, hnot⟩ | ⟨hcreate, hplain⟩
  · rw [hcreate]
    constructor
    · rintro ⟨h, -⟩ haddress
      obtain ⟨uri, huri⟩ := h.2 haddress
      cases huri
    · intro h
      refine ⟨⟨?_, fun haddress => absurd (h haddress) hnot⟩, fun uri huri => ?_⟩
      · rintro ⟨uri, huri⟩
        cases huri
      · cases huri
  · rw [hcreate]
    constructor
    · exact fun _ _ => hplain
    · intro _
      refine ⟨⟨fun _ => hplain.address, fun _ => ⟨_, rfl⟩⟩, fun uri huri => ?_⟩
      cases huri
      rfl

theorem asDefined_loopback : AsDefined (ascii "::1") ↔ (IPv6address (ascii "::1") → Plain (ascii "::1")) :=
  asDefined_iff (by decide +kernel)

/-- `fe80::1` is not accepted. -/
theorem not_asDefined : ¬ ∀ l : Bytes, (∀ b ∈ l, literalByte.has b = true) → AsDefined l := by
  intro h
  have hbytes : ∀ b ∈ ascii "fe80::1", literalByte.has b = true := by decide +kernel
  have haddress : IPv6address (ascii "fe80::1") := by
    refine .inr ⟨[ascii "fe80"], 1, ascii "1", by decide, ?_, .inl ⟨[ascii "1"], rfl, ?_, rfl⟩, rfl⟩
    · rintro g hg
      rw [List.mem_singleton.1 hg]
      exact ⟨by decide, by decide, by decide +kernel⟩
    · rintro g hg
      rw [List.mem_singleton.1 hg]
      exact ⟨by decide, by decide, by decide +kernel⟩
  obtain ⟨uri, huri⟩ := (h _ hbytes).1.2 haddress
  rcases create_literal hbytes with ⟨hcreate, -⟩ | ⟨-, hplain⟩
  · rw [hcreate] at huri
    cases huri
  · rw [← mem_IPv6address_iff (by decide +kernel)] at hplain
    revert hplain
    decide +kernel

end Linko.Uri
