import Linko.Lib.Ragel
import Mathlib.Computability.Language
/-!
# Regular expressions

The expressions a grammar of Ragel is written in, over classes of bytes, with
their languages and their partial derivatives: a list of expressions for what
may follow a byte.
-/

namespace Ragel

inductive Regex where
  | eps
  | cls (k : ByteClass)
  | alt (a b : Regex)
  | seq (a b : Regex)
  | star (a : Regex)
  deriving DecidableEq, Repr

namespace Regex

def lang : Regex → Language UInt8
  | eps => 1
  | cls k => {w | ∃ b, k.has b = true ∧ w = [b]}
  | alt a b => a.lang + b.lang
  | seq a b => a.lang * b.lang
  | star a => KStar.kstar a.lang

/-- `r?` -/
def opt (r : Regex) : Regex := alt eps r

/-- `r{n}` -/
def times : Nat → Regex → Regex
  | 0, _ => eps
  | 1, r => r
  | n + 2, r => seq r (times (n + 1) r)

/-- A literal. -/
def lit : List Char → Regex
  | [] => eps
  | [c] => cls (one c)
  | c :: cs => seq (cls (one c)) (lit cs)

theorem mem_cls {k : ByteClass} {w : List UInt8} : w ∈ (cls k).lang ↔ ∃ b, k.has b = true ∧ w = [b] := Iff.rfl

theorem mem_alt {a b : Regex} {w : List UInt8} : w ∈ (alt a b).lang ↔ w ∈ a.lang ∨ w ∈ b.lang := Iff.rfl

theorem mem_seq {a b : Regex} {w : List UInt8} : w ∈ (seq a b).lang ↔ ∃ u ∈ a.lang, ∃ v ∈ b.lang, u ++ v = w :=
  Iff.rfl

theorem mem_one {c : Char} {d : UInt8} (h : ∀ b, (one c).has b = true ↔ b = d) {w : List UInt8} :
    w ∈ (cls (one c)).lang ↔ w = [d] := by
  constructor
  · rintro ⟨b, hb, rfl⟩
    rw [(h b).1 hb]
  · rintro rfl
    exact ⟨d, (h d).2 rfl, rfl⟩

theorem lang_times (n : Nat) (r : Regex) : (times n r).lang = r.lang ^ n := by
  induction n with
  | zero => rfl
  | succ n ih =>
    cases n with
    | zero => exact (pow_one r.lang).symm
    | succ n =>
      rw [pow_succ', ← ih]
      rfl

theorem nil_mem_star (a : Regex) : [] ∈ (star a).lang := ⟨[], rfl, nofun⟩

theorem append_mem_star {a : Regex} {u v : List UInt8} (hu : u ∈ a.lang) (hv : v ∈ (star a).lang) :
    u ++ v ∈ (star a).lang := by
  obtain ⟨ws, rfl, hws⟩ := hv
  exact ⟨u :: ws, rfl, List.forall_mem_cons.2 ⟨hu, hws⟩⟩

theorem mem_star_cls {k : ByteClass} {w : List UInt8} (h : w ∈ (star (cls k)).lang) :
    ∀ b ∈ w, k.has b = true := by
  obtain ⟨ws, rfl, hws⟩ := h
  intro b hb
  obtain ⟨u, hu, hb⟩ := List.mem_flatten.1 hb
  obtain ⟨c, hc, rfl⟩ := hws u hu
  rw [List.mem_singleton.1 hb]
  exact hc

/-! ## Derivatives -/

def nullable : Regex → Bool
  | eps => true
  | cls _ => false
  | alt a b => a.nullable || b.nullable
  | seq a b => a.nullable && b.nullable
  | star _ => true

def andThen : Regex → Regex → Regex
  | eps, b => b
  | a, b => seq a b

/-- The expressions of what may follow the byte `b`. -/
def deriv (b : UInt8) : Regex → List Regex
  | eps => []
  | cls k => if k.has b then [eps] else []
  | alt a c => a.deriv b ++ c.deriv b
  | seq a c => (a.deriv b).map (fun r => r.andThen c) ++ if a.nullable then c.deriv b else []
  | star a => (a.deriv b).map fun r => r.andThen (star a)

theorem nil_mem_lang {r : Regex} : [] ∈ r.lang ↔ r.nullable = true := by
  induction r with
  | eps => exact ⟨fun _ => rfl, fun _ => rfl⟩
  | cls k => simp [mem_cls, nullable]
  | alt a b iha ihb => rw [mem_alt, iha, ihb, nullable, Bool.or_eq_true]
  | seq a b iha ihb =>
    rw [nullable, Bool.and_eq_true, ← iha, ← ihb, mem_seq]
    constructor
    · rintro ⟨u, hu, v, hv, h⟩
      obtain ⟨rfl, rfl⟩ := List.append_eq_nil_iff.1 h
      exact ⟨hu, hv⟩
    · rintro ⟨hu, hv⟩
      exact ⟨[], hu, [], hv, rfl⟩
  | star a _ => exact ⟨fun _ => rfl, fun _ => nil_mem_star a⟩

theorem lang_andThen (a b : Regex) : (a.andThen b).lang = (seq a b).lang := by
  cases a with
  | eps => exact (one_mul b.lang).symm
  | _ => rfl

theorem cons_mem_lang {r : Regex} {b : UInt8} {w : List UInt8} :
    b :: w ∈ r.lang ↔ ∃ r' ∈ r.deriv b, w ∈ r'.lang := by
  induction r generalizing w with
  | eps =>
    constructor
    · intro h
      cases h
    · rintro ⟨r', hr', -⟩
      cases hr'
  | cls k =>
    rw [mem_cls, deriv]
    constructor
    · rintro ⟨c, hc, h⟩
      obtain ⟨rfl, rfl⟩ := List.cons.inj h
      exact ⟨eps, by rw [if_pos hc]; exact List.mem_cons_self, rfl⟩
    · rintro ⟨r', hr', hw⟩
      by_cases hb : k.has b = true
      · rw [if_pos hb, List.mem_singleton] at hr'
        subst hr'
        cases hw
        exact ⟨b, hb, rfl⟩
      · rw [if_neg hb] at hr'
        cases hr'
  | alt a c iha ihc => simp only [mem_alt, iha, ihc, deriv, List.mem_append, or_and_right, exists_or]
  | seq a c iha ihc =>
    rw [mem_seq, deriv]
    constructor
    · rintro ⟨u, hu, v, hv, h⟩
      rcases u with _ | ⟨d, u⟩
      · obtain ⟨r', hr', hw⟩ := ihc.1 ((show v = b :: w from h) ▸ hv)
        refine ⟨r', List.mem_append_right _ ?_, hw⟩
        rw [if_pos (nil_mem_lang.1 hu)]
        exact hr'
      · obtain ⟨rfl, rfl⟩ := List.cons.inj h
        obtain ⟨r', hr', hw⟩ := iha.1 hu
        refine ⟨r'.andThen c, List.mem_append_left _ (List.mem_map_of_mem hr'), ?_⟩
        rw [lang_andThen]
        exact ⟨u, hw, v, hv, rfl⟩
    · rintro ⟨r', hr', hw⟩
      rcases List.mem_append.1 hr' with hr' | hr'
      · obtain ⟨r, hr, rfl⟩ := List.mem_map.1 hr'
        rw [lang_andThen] at hw
        obtain ⟨u, hu, v, hv, rfl⟩ := hw
        exact ⟨b :: u, iha.2 ⟨r, hr, hu⟩, v, hv, rfl⟩
      · by_cases hn : a.nullable = true
        · rw [if_pos hn] at hr'
          exact ⟨[], nil_mem_lang.2 hn, b :: w, ihc.2 ⟨r', hr', hw⟩, rfl⟩
        · rw [if_neg hn] at hr'
          cases hr'
  | star a ih =>
    rw [deriv]
    constructor
    · rintro ⟨ws, h, hws⟩
      -- the words before the one that brings `b` are empty
      induction ws with
      | nil => cases h
      | cons u ws ihw =>
        obtain ⟨hu, hrest⟩ := List.forall_mem_cons.1 hws
        rcases u with _ | ⟨d, u⟩
        · exact ihw h hrest
        · obtain ⟨rfl, rfl⟩ := List.cons.inj h
          obtain ⟨r', hr', hw⟩ := ih.1 hu
          refine ⟨r'.andThen (star a), List.mem_map_of_mem hr', ?_⟩
          rw [lang_andThen]
          exact ⟨u, hw, ws.flatten, ⟨ws, rfl, hrest⟩, rfl⟩
    · rintro ⟨r', hr', hw⟩
      obtain ⟨r, hr, rfl⟩ := List.mem_map.1 hr'
      rw [lang_andThen] at hw
      obtain ⟨u, hu, v, hv, rfl⟩ := hw
      exact append_mem_star (ih.2 ⟨r, hr, hu⟩) hv

/-! ## Classes -/

def classes : Regex → List ByteClass
  | eps => []
  | cls k => [k]
  | alt a b => a.classes ++ b.classes
  | seq a b => a.classes ++ b.classes
  | star a => a.classes

theorem mem_classes_andThen {a c : Regex} {k : ByteClass} (h : k ∈ (a.andThen c).classes) :
    k ∈ a.classes ∨ k ∈ c.classes := by
  cases a with
  | eps => exact .inr h
  | _ => exact List.mem_append.1 h

theorem mem_classes_deriv {r x : Regex} {b : UInt8} (hx : x ∈ r.deriv b) : ∀ k ∈ x.classes, k ∈ r.classes := by
  induction r generalizing x with
  | eps => cases hx
  | cls l =>
    rw [deriv] at hx
    split at hx
    · rw [List.mem_singleton] at hx
      subst hx
      nofun
    · cases hx
  | alt a c iha ihc =>
    intro k hk
    rcases List.mem_append.1 hx with hx | hx
    · exact List.mem_append_left _ (iha hx k hk)
    · exact List.mem_append_right _ (ihc hx k hk)
  | seq a c iha ihc =>
    intro k hk
    rcases List.mem_append.1 hx with hx | hx
    · obtain ⟨y, hy, rfl⟩ := List.mem_map.1 hx
      rcases mem_classes_andThen hk with hk | hk
      · exact List.mem_append_left _ (iha hy k hk)
      · exact List.mem_append_right _ hk
    · split at hx
      · exact List.mem_append_right _ (ihc hx k hk)
      · cases hx
  | star a ih =>
    intro k hk
    obtain ⟨y, hy, rfl⟩ := List.mem_map.1 hx
    rcases mem_classes_andThen hk with hk | hk
    · exact ih hy k hk
    · exact hk

theorem deriv_alike {r : Regex} {b c : UInt8} (h : ∀ k ∈ r.classes, k.has b = k.has c) : r.deriv b = r.deriv c := by
  induction r with
  | eps => rfl
  | cls k => rw [deriv, deriv, h k List.mem_cons_self]
  | alt a d iha ihd =>
    rw [deriv, deriv, iha fun k hk => h k (List.mem_append_left _ hk), ihd fun k hk => h k (List.mem_append_right _ hk)]
  | seq a d iha ihd =>
    rw [deriv, deriv, iha fun k hk => h k (List.mem_append_left _ hk), ihd fun k hk => h k (List.mem_append_right _ hk)]
  | star a ih => rw [deriv, deriv, ih h]

/-- A word may be mapped within the classes of an expression. -/
theorem mem_lang_map {f : UInt8 → UInt8} {r : Regex} {w : List UInt8}
    (h : ∀ k ∈ r.classes, ∀ b ∈ w, k.has (f b) = k.has b) : w.map f ∈ r.lang ↔ w ∈ r.lang := by
  induction w generalizing r with
  | nil => rfl
  | cons b w ih =>
    rw [List.map_cons, cons_mem_lang, cons_mem_lang, deriv_alike fun k hk => h k hk b List.mem_cons_self]
    refine exists_congr fun x => and_congr_right fun hx => ih fun k hk c hc => ?_
    exact h k (mem_classes_deriv hx k hk) c (List.mem_cons_of_mem b hc)

/-- The words of some expression of a list. -/
def langs (rs : List Regex) : Language UInt8 := {w | ∃ r ∈ rs, w ∈ r.lang}

def derivs (b : UInt8) (rs : List Regex) : List Regex := (rs.flatMap (deriv b)).foldr List.insert []

theorem mem_foldr_insert {α : Type} [DecidableEq α] {x : α} {l : List α} :
    x ∈ l.foldr List.insert [] ↔ x ∈ l := by
  induction l with
  | nil => exact Iff.rfl
  | cons y l ih => rw [List.foldr_cons, List.mem_insert_iff, ih, List.mem_cons]

theorem cons_mem_langs {rs : List Regex} {b : UInt8} {w : List UInt8} :
    b :: w ∈ langs rs ↔ w ∈ langs (derivs b rs) := by
  constructor
  · rintro ⟨r, hr, hw⟩
    obtain ⟨r', hr', hw⟩ := cons_mem_lang.1 hw
    exact ⟨r', mem_foldr_insert.2 (List.mem_flatMap.2 ⟨r, hr, hr'⟩), hw⟩
  · rintro ⟨r', hr', hw⟩
    obtain ⟨r, hr, hr'⟩ := List.mem_flatMap.1 (mem_foldr_insert.1 hr')
    exact ⟨r, hr, cons_mem_lang.2 ⟨r', hr', hw⟩⟩

theorem mem_langs_singleton {r : Regex} {w : List UInt8} : w ∈ langs [r] ↔ w ∈ r.lang := by
  constructor
  · rintro ⟨x, hx, hw⟩
    rw [List.mem_singleton.1 hx] at hw
    exact hw
  · intro hw
    exact ⟨r, List.mem_cons_self, hw⟩

theorem nil_mem_langs {rs : List Regex} : [] ∈ langs rs ↔ rs.any nullable = true := by
  rw [List.any_eq_true]
  exact ⟨fun ⟨r, hr, hw⟩ => ⟨r, hr, nil_mem_lang.1 hw⟩, fun ⟨r, hr, hw⟩ => ⟨r, hr, nil_mem_lang.2 hw⟩⟩

/-- Membership by the derivatives. -/
theorem mem_lang_iff (r : Regex) (w : List UInt8) :
    w ∈ r.lang ↔ (w.foldl (fun rs b => derivs b rs) [r]).any nullable = true := by
  have hall : ∀ rs : List Regex, w ∈ langs rs ↔ (w.foldl (fun rs b => derivs b rs) rs).any nullable = true := by
    induction w with
    | nil => exact fun rs => nil_mem_langs
    | cons b w ih => exact fun rs => cons_mem_langs.trans (ih (derivs b rs))
  rw [← hall [r], mem_langs_singleton]

instance (r : Regex) (w : List UInt8) : Decidable (w ∈ r.lang) := decidable_of_iff' _ (mem_lang_iff r w)

end Regex

end Ragel
