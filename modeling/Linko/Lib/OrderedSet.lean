import Mathlib.Data.List.Basic
import Mathlib.Data.List.Pairwise
/-!
# Sets with a comparator

A `std::set` is the list of its elements in their order. Its operations only
look at the comparator, so they find an element and keep the order as long as
the comparator orders the elements the way it did when they were inserted.
-/

namespace OrderedSet

variable {α : Type} (lt : α → α → Bool)

/-- `insert(x)`: nothing happens when an equivalent element is there. -/
def insert (x : α) : List α → List α
  | [] => [x]
  | y :: ys => if lt x y then x :: y :: ys else if lt y x then y :: insert x ys else y :: ys

/-- `find(x)`, with `none` for `end()`. -/
def find (x : α) : List α → Option α
  | [] => none
  | y :: ys => if lt y x then find x ys else if lt x y then none else some y

def Sorted (l : List α) : Prop := l.Pairwise fun a b => lt a b = true

/-- `x` is comparable to all elements. -/
def Comparable (x : α) (l : List α) : Prop := ∀ y ∈ l, lt x y = true ∨ lt y x = true

variable {lt} {x y : α} {l : List α}

theorem mem_insert (hx : Comparable lt x l) : y ∈ insert lt x l ↔ y = x ∨ y ∈ l := by
  induction l with
  | nil => simp [insert]
  | cons z l ih =>
    obtain ⟨hz, hl⟩ := List.forall_mem_cons.1 hx
    unfold insert
    split
    · simp
    · rename_i hxz
      rw [if_pos (hz.resolve_left hxz), List.mem_cons, ih hl, List.mem_cons]
      tauto

/-- An element that is there after `insert` was there or is the new one. -/
theorem mem_of_mem_insert (hy : y ∈ insert lt x l) : y = x ∨ y ∈ l := by
  induction l with
  | nil => exact .inl (List.mem_singleton.1 hy)
  | cons z l ih =>
    unfold insert at hy
    split at hy
    · exact List.mem_cons.1 hy
    · split at hy
      · rcases List.mem_cons.1 hy with rfl | hy
        · exact .inr List.mem_cons_self
        · exact (ih hy).imp_right (List.mem_cons_of_mem z)
      · exact .inr hy

theorem sorted_insert (trans : ∀ a b c, lt a b = true → lt b c = true → lt a c = true) (hl : Sorted lt l) (x : α) :
    Sorted lt (insert lt x l) := by
  induction l with
  | nil => simp [Sorted, insert]
  | cons z l ih =>
    obtain ⟨hfirst, htail⟩ := List.pairwise_cons.1 hl
    unfold insert
    split
    · rename_i hxz
      refine List.pairwise_cons.2 ⟨?_, hl⟩
      intro y hy
      rcases List.mem_cons.1 hy with rfl | hy
      · exact hxz
      · exact trans x z y hxz (hfirst y hy)
    · split
      · rename_i hzx
        refine List.pairwise_cons.2 ⟨?_, ih htail⟩
        intro y hy
        rcases mem_of_mem_insert hy with rfl | hy
        · exact hzx
        · exact hfirst y hy
      · exact hl

/-- An element above all others comes last. -/
theorem insert_last (hl : ∀ y ∈ l, lt y x = true ∧ lt x y = false) : insert lt x l = l ++ [x] := by
  induction l with
  | nil => rfl
  | cons z l ih =>
    obtain ⟨⟨hzx, hxz⟩, hrest⟩ := List.forall_mem_cons.1 hl
    rw [insert, hxz, hzx, if_neg Bool.false_ne_true, if_pos rfl, ih hrest, List.cons_append]

/-- An element is found as long as it stands in its order. -/
theorem find_of_mem (irrefl : ∀ a, lt a a = false) (hl : Sorted lt l)
    (hx : x ∈ l) : find lt x l = some x := by
  induction l with
  | nil => cases hx
  | cons z l ih =>
    obtain ⟨hfirst, htail⟩ := List.pairwise_cons.1 hl
    unfold find
    rcases List.mem_cons.1 hx with rfl | hx
    · simp [irrefl]
    · rw [if_pos (hfirst x hx)]
      exact ih htail hx

theorem find_some (h : find lt x l = some y) : y ∈ l ∧ lt y x = false ∧ lt x y = false := by
  induction l with
  | nil => cases h
  | cons z l ih =>
    unfold find at h
    split at h
    · obtain ⟨hy, hlt⟩ := ih h
      exact ⟨List.mem_cons_of_mem _ hy, hlt⟩
    · rename_i hzx
      split at h
      · cases h
      · rename_i hxz
        cases h
        exact ⟨List.mem_cons_self, Bool.eq_false_iff.2 hzx, Bool.eq_false_iff.2 hxz⟩

/-- Equivalent elements find the same. -/
theorem find_congr (hl : ∀ a, lt a x = lt a y) (hr : ∀ a, lt x a = lt y a) : find lt x l = find lt y l := by
  induction l with
  | nil => rfl
  | cons z l ih => rw [find, find, hl, hr, ih]

theorem Sorted.nodup (irrefl : ∀ a, lt a a = false) (hl : Sorted lt l) : l.Nodup := by
  refine List.Pairwise.imp ?_ hl
  intro a b hab he
  rw [he, irrefl] at hab
  cases hab

/-- The order only depends on how the comparator orders the elements. -/
theorem Sorted.congr {lt' : α → α → Bool} (hl : Sorted lt l) (h : ∀ a ∈ l, ∀ b ∈ l, lt' a b = lt a b) :
    Sorted lt' l := by
  refine List.Pairwise.imp_of_mem ?_ hl
  intro a b ha hb hab
  rw [h a ha b hb]
  exact hab

/-- The first element is less than the others. -/
theorem Sorted.head_le (hl : Sorted lt (x :: l)) (hy : y ∈ x :: l) : y = x ∨ lt x y = true := by
  rcases List.mem_cons.1 hy with rfl | hy
  · exact .inl rfl
  · exact .inr ((List.pairwise_cons.1 hl).1 y hy)

/-! ## The elements up to a bound -/

theorem takeWhile_congr {p q : α → Bool} (h : ∀ a ∈ l, p a = q a) : l.takeWhile p = l.takeWhile q := by
  induction l with
  | nil => rfl
  | cons a l ih =>
    obtain ⟨ha, hrest⟩ := List.forall_mem_cons.1 h
    rw [List.takeWhile_cons, List.takeWhile_cons, ha, ih hrest]

/-- What holds of an element holds of the elements below it. -/
def Below (lt : α → α → Bool) (l : List α) (p : α → Bool) : Prop :=
  ∀ a ∈ l, ∀ b ∈ l, lt a b = true → p b = true → p a = true

theorem Sorted.takeWhile_eq_filter (hl : Sorted lt l) {p : α → Bool} (hp : Below lt l p) :
    l.takeWhile p = l.filter p := by
  induction l with
  | nil => rfl
  | cons a l ih =>
    obtain ⟨hfirst, htail⟩ := List.pairwise_cons.1 hl
    have hrest := ih htail fun b hb c hc => hp b (List.mem_cons_of_mem a hb) c (List.mem_cons_of_mem a hc)
    rw [List.takeWhile_cons, List.filter_cons, hrest]
    split
    · rfl
    · -- the first one has it not, so none has it
      rename_i hnot
      refine (List.filter_eq_nil_iff.2 ?_).symm
      intro b hb hpb
      exact hnot (hp a List.mem_cons_self b (List.mem_cons_of_mem a hb) (hfirst b hb) hpb)

theorem Sorted.dropWhile_false (hl : Sorted lt l) {p : α → Bool} (hp : Below lt l p) :
    ∀ a ∈ l.dropWhile p, p a = false := by
  induction l with
  | nil => nofun
  | cons a l ih =>
    obtain ⟨hfirst, htail⟩ := List.pairwise_cons.1 hl
    rw [List.dropWhile_cons]
    split
    · exact ih htail fun b hb c hc => hp b (List.mem_cons_of_mem a hb) c (List.mem_cons_of_mem a hc)
    · rename_i hnot
      intro b hb
      rw [← Bool.not_eq_true]
      intro hpb
      rcases List.mem_cons.1 hb with rfl | hin
      · exact hnot hpb
      · exact hnot (hp a List.mem_cons_self b hb (hfirst b hin) hpb)

/-- The elements below a bound, and from there on those that still fit: together
the elements that fit. -/
theorem Sorted.takeWhile_then (hl : Sorted lt l) {p q r : α → Bool} (hp : Below lt l p) (hq : Below lt l q)
    (hpq : ∀ a ∈ l, p a = true → q a = true) (hqr : ∀ a ∈ l, p a = false → r a = q a) :
    l.takeWhile p ++ (l.dropWhile p).takeWhile r = l.filter q := by
  have hrest : (l.dropWhile p).takeWhile r = (l.dropWhile p).takeWhile q :=
    takeWhile_congr fun a ha => hqr a ((List.dropWhile_subset p) ha) (hl.dropWhile_false hp a ha)
  have hfirst : ∀ a ∈ l.takeWhile p, q a = true := fun a ha =>
    hpq a ((List.takeWhile_subset p) ha) (List.all_eq_true.1 List.all_takeWhile a ha)
  rw [hrest, ← List.takeWhile_append_of_pos hfirst, List.takeWhile_append_dropWhile, hl.takeWhile_eq_filter hq]

end OrderedSet
