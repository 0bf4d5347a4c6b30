import Mathlib.Data.List.GetD
import Linko.Lib.CString
/-!
# Host strings

The first half of `Address::Lookup` in `address.cc`, up to the call of `getaddrinfo`.
A `const char*` into the host is the index it points at; the byte behind the last
one is the terminating NUL.
-/

namespace Linko.Address

open CString

/-- `memchr(s.c_str() + i, c, n)` -/
def memchr (s : Bytes) (i : Nat) (c : UInt8) (n : Nat) : Option Nat :=
  (((s.drop i).take n).findIdx? (· == c)).map (i + ·)

/-- `s.substr(pos, n)` -/
def substr (s : Bytes) (pos n : Nat) : Bytes := (s.drop pos).take n

/-- The stage for `[ipv6address]:port`, on `node` and `service`. -/
def bracketStage (host : Bytes) (r : Bytes × Option Nat) : Bytes × Option Nat :=
  if host ≠ [] ∧ host.headD 0 = 91 then
    match memchr host 1 93 (host.length - 1) with
    | some endipv6 =>
      (substr host 1 (endipv6 - 1), if host.getD (endipv6 + 1) 0 = 58 then some (endipv6 + 2) else r.2)
    | none => r
  else r

/-- The stage for `ipv4address:port`. -/
def colonStage (host : Bytes) (r : Bytes × Option Nat) : Bytes × Option Nat :=
  if r.1 = [] then
    match memchr host 0 58 host.length with
    | some service =>
      if (memchr host (service + 1) 58 (host.length - service - 1)).isNone then
        (substr host 0 service, some (service + 1))
      else (r.1, some service)
    | none => (r.1, none)
  else r

def wholeStage (host : Bytes) (r : Bytes × Option Nat) : Bytes × Option Nat :=
  if r.1 = [] then (host, r.2) else r

/-- What `getaddrinfo` is given, the strings that it sees. -/
def lookupArgs (host : Bytes) : Bytes × Option Bytes :=
  let r := wholeStage host (colonStage host (bracketStage host ([], none)))
  (cstr r.1, r.2.map fun service => cstr (host.drop service))

/-- The node and the service of the forms of a host string. -/
structure Splits (host : Bytes) : Prop where
  bracketPort : ∀ a p, host = ascii "[" ++ a ++ ascii "]:" ++ p → a ≠ [] → 93 ∉ a → lookupArgs host = (a, some p)
  bracket : ∀ a, host = ascii "[" ++ a ++ ascii "]" → a ≠ [] → 93 ∉ a → lookupArgs host = (a, none)
  port : ∀ h p, host = h ++ ascii ":" ++ p → h ≠ [] → host.count 58 = 1 → host.head? ≠ some 91 →
    lookupArgs host = (h, some p)
  whole : host.head? ≠ some 91 → host.count 58 = 0 ∨ 2 ≤ host.count 58 → lookupArgs host = (host, none)

/-! ## Searching -/

theorem memchr_found {s u : Bytes} {c : UInt8} (hu : c ∉ u) (w v : Bytes) {n : Nat}
    (hs : s = w ++ (u ++ c :: v)) (hn : u.length < n) : memchr s w.length c n = some (w.length + u.length) := by
  have hwindow : (s.drop w.length).take n = u ++ c :: v.take (n - u.length - 1) := by
    obtain ⟨k, rfl⟩ : ∃ k, n = u.length + (k + 1) := ⟨n - u.length - 1, by omega⟩
    rw [hs, List.drop_left, List.take_length_add_append, List.take_succ_cons]
    congr 3
    omega
  have hfind : (u ++ c :: v.take (n - u.length - 1)).findIdx? (· == c) = some u.length := by
    rw [List.findIdx?_append]
    have hnone : u.findIdx? (· == c) = none := by
      rw [List.findIdx?_eq_none_iff]
      intro b hb
      rw [beq_eq_false_iff_ne]
      rintro rfl
      exact hu hb
    simp [hnone, List.findIdx?_cons]
  rw [memchr, hwindow, hfind]
  rfl

theorem memchr_none {s : Bytes} {i n : Nat} {c : UInt8} (h : c ∉ s.drop i) : memchr s i c n = none := by
  rw [memchr, Option.map_eq_none_iff, List.findIdx?_eq_none_iff]
  intro b hb
  rw [beq_eq_false_iff_ne]
  rintro rfl
  exact h (List.mem_of_mem_take hb)

/-! ## The stages -/

/-- Behind an opening bracket the node ends at the first closing one. -/
theorem lookupArgs_bracket {a : Bytes} (hne : a ≠ []) (ha : 93 ∉ a) (rest : Bytes) :
    lookupArgs (91 :: (a ++ 93 :: rest)) =
      (cstr a, if rest.headD 0 = 58 then some (cstr rest.tail) else none) := by
  have hfound : memchr (91 :: (a ++ 93 :: rest)) 1 93 ((91 :: (a ++ 93 :: rest)).length - 1) = some (1 + a.length) :=
    memchr_found ha [91] rest rfl (by simp)
  have hnode : substr (91 :: (a ++ 93 :: rest)) 1 (1 + a.length - 1) = a := by
    rw [substr, Nat.add_sub_cancel_left]
    simp
  have hbehind : (91 :: (a ++ 93 :: rest)).getD (1 + a.length + 1) 0 = rest.headD 0 := by
    have hindex : 1 + a.length + 1 = a.length + 1 + 1 := by omega
    rw [hindex, List.getD_cons_succ, List.getD_append_right _ _ _ _ (Nat.le_add_right _ 1), Nat.add_sub_cancel_left,
      List.getD_cons_succ]
    cases rest <;> rfl
  have hservice : (91 :: (a ++ 93 :: rest)).drop (1 + a.length + 2) = rest.tail := by
    have hindex : 1 + a.length + 2 = a.length + 2 + 1 := by omega
    rw [hindex, List.drop_succ_cons, List.drop_length_add_append]
    cases rest <;> rfl
  have hstage : bracketStage (91 :: (a ++ 93 :: rest)) ([], none) =
      (a, if rest.headD 0 = 58 then some (1 + a.length + 2) else none) := by
    rw [bracketStage, if_pos ⟨by simp, rfl⟩, hfound]
    simp only [hnode, hbehind]
  rw [lookupArgs, hstage, colonStage, if_neg hne, wholeStage, if_neg hne]
  split <;> simp [hservice]

theorem bracketStage_plain {host : Bytes} (h : host.head? ≠ some 91) (r : Bytes × Option Nat) :
    bracketStage host r = r := by
  rw [bracketStage, if_neg]
  rintro ⟨hne, hhead⟩
  cases host with
  | nil => exact hne rfl
  | cons b host => exact h (congrArg some hhead)

/-- Without a colon the host is the node. -/
theorem lookupArgs_none {host : Bytes} (h : host.head? ≠ some 91) (hcolon : 58 ∉ host) :
    lookupArgs host = (cstr host, none) := by
  have hstage : colonStage host ([], none) = ([], none) := by
    rw [colonStage, if_pos rfl, memchr_none hcolon]
  rw [lookupArgs, bracketStage_plain h, hstage]
  rfl

/-- The first colon is followed by another one or not. -/
theorem colonStage_found {h : Bytes} (hh : 58 ∉ h) (p : Bytes) :
    colonStage (h ++ 58 :: p) ([], none) = if 58 ∈ p then ([], some h.length) else (h, some (h.length + 1)) := by
  have hfirst : memchr (h ++ 58 :: p) 0 58 (h ++ 58 :: p).length = some (0 + h.length) :=
    memchr_found hh [] p rfl (by simp)
  have hbehind : (h ++ 58 :: p).drop (h.length + 1) = p := by
    rw [List.drop_length_add_append]
    rfl
  rw [colonStage, if_pos rfl, hfirst, Nat.zero_add]
  by_cases hp : 58 ∈ p
  · obtain ⟨u, v, rfl, hu⟩ := List.eq_append_cons_of_mem hp
    have hsecond := memchr_found hu (h ++ [58]) v (s := h ++ 58 :: (u ++ 58 :: v))
      (n := (h ++ 58 :: (u ++ 58 :: v)).length - h.length - 1) (by simp) (by simp)
    rw [List.length_append, List.length_singleton] at hsecond
    simp only [hsecond, Option.isNone_some, Bool.false_eq_true, if_false, if_pos hp]
  · have hnone : memchr (h ++ 58 :: p) (h.length + 1) 58 ((h ++ 58 :: p).length - h.length - 1) = none :=
      memchr_none (by rwa [hbehind])
    simp only [hnone, Option.isNone_none, if_true, if_neg hp]
    simp [substr]

/-- With one colon the node is in front of it. -/
theorem lookupArgs_one {h p : Bytes} (hplain : (h ++ 58 :: p).head? ≠ some 91) (hne : h ≠ []) (hh : 58 ∉ h)
    (hp : 58 ∉ p) : lookupArgs (h ++ 58 :: p) = (cstr h, some (cstr p)) := by
  rw [lookupArgs, bracketStage_plain hplain, colonStage_found hh, if_neg hp, wholeStage, if_neg hne]
  simp [List.drop_length_add_append]

/-- With more the host is the node, and the service still begins at the first colon. -/
theorem lookupArgs_more {h p : Bytes} (hplain : (h ++ 58 :: p).head? ≠ some 91) (hh : 58 ∉ h) (hp : 58 ∈ p) :
    lookupArgs (h ++ 58 :: p) = (cstr (h ++ 58 :: p), some (cstr (58 :: p))) := by
  rw [lookupArgs, bracketStage_plain hplain, colonStage_found hh, if_pos hp, wholeStage, if_pos rfl]
  simp

/-! ## The forms of a host string -/

theorem not_mem_of_append {x : UInt8} {u v : Bytes} (h : x ∉ u ++ v) : x ∉ u ∧ x ∉ v := by
  simpa using h

/-- The pair is right but for a host with two colons or more that has no bracket in
front. There the service is not taken back. -/
theorem splits_iff (host : Bytes) (h0 : 0 ∉ host) :
    Splits host ↔ ¬ (host.head? ≠ some 91 ∧ 2 ≤ host.count 58) := by
  constructor
  · rintro hsplits ⟨hplain, hcount⟩
    have hmem : 58 ∈ host := List.count_pos_iff.1 (by omega)
    obtain ⟨h, p, rfl, hh⟩ := List.eq_append_cons_of_mem hmem
    have hp : 58 ∈ p := by
      rw [List.count_append, List.count_eq_zero_of_not_mem hh, List.count_cons_self] at hcount
      exact List.count_pos_iff.1 (by omega)
    have hwhole := hsplits.whole hplain (.inr hcount)
    rw [lookupArgs_more hplain hh hp] at hwhole
    cases (Prod.mk.inj hwhole).2
  · intro hcond
    refine ⟨?_, ?_, ?_, ?_⟩
    · rintro a p rfl hne ha
      have hform : ascii "[" ++ a ++ ascii "]:" ++ p = 91 :: (a ++ 93 :: 58 :: p) := by simp [ascii]
      rw [hform] at h0 ⊢
      have ha0 : 0 ∉ a := by simp_all
      have hp0 : 0 ∉ p := by simp_all
      have hcolon : (58 :: p).headD 0 = 58 := rfl
      rw [lookupArgs_bracket hne ha, if_pos hcolon, cstr_eq ha0]
      exact congrArg (fun q => (a, some q)) (cstr_eq hp0)
    · rintro a rfl hne ha
      have hform : ascii "[" ++ a ++ ascii "]" = 91 :: (a ++ [93]) := by simp [ascii]
      rw [hform] at h0 ⊢
      have ha0 : 0 ∉ a := by simp_all
      rw [lookupArgs_bracket hne ha, if_neg (by decide), cstr_eq ha0]
    · rintro h p rfl hne hcount hplain
      have hform : h ++ ascii ":" ++ p = h ++ 58 :: p := by simp [ascii]
      rw [hform] at h0 hcount hplain ⊢
      obtain ⟨hh0, hp0⟩ := not_mem_of_append h0
      rw [List.count_append, List.count_cons_self] at hcount
      have hh : 58 ∉ h := List.count_eq_zero.1 (by omega)
      have hp : 58 ∉ p := List.count_eq_zero.1 (by omega)
      rw [lookupArgs_one hplain hne hh hp, cstr_eq hh0, cstr_eq fun hp0' => hp0 (List.mem_cons_of_mem 58 hp0')]
    · rintro hplain (hnone | hmore)
      · rw [lookupArgs_none hplain (List.count_eq_zero.1 hnone), cstr_eq h0]
      · exact absurd ⟨hplain, hmore⟩ hcond

theorem splits_iff_bracket : Splits (ascii "[::1]:80") :=
  (splits_iff (ascii "[::1]:80") (by decide)).2 (by decide)

/-- An address of IPv6 gets the text from its first colon on as its service. -/
theorem not_splits : lookupArgs (ascii "fe80::1") = (ascii "fe80::1", some (ascii "::1")) ∧
    ¬ Splits (ascii "fe80::1") := by
  have hargs : lookupArgs (ascii "fe80::1") = (ascii "fe80::1", some (ascii "::1")) := by decide
  refine ⟨hargs, fun h => ?_⟩
  have hwhole := h.whole (by decide) (.inr (by decide))
  rw [hargs] at hwhole
  cases (Prod.mk.inj hwhole).2

end Linko.Address
