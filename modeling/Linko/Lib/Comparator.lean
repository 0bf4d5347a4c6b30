import Linko.Lib.CString
import Linko.Lib.OrderedSet
/-!
# Comparators

The comparators of containers and of the values that contain them, and the
containers whose elements are in order.
-/

namespace OrderedSet

variable {α β : Type}

/-- What a container asks of its comparator. -/
structure Comparator (α : Type) where
  lt : α → α → Bool
  irrefl : ∀ a, lt a a = false
  trans : ∀ a b c, lt a b = true → lt b c = true → lt a c = true

namespace Comparator

/-- Equivalent values are equal. -/
def Total (c : Comparator α) : Prop := ∀ a b, c.lt a b = false → c.lt b a = false → a = b

theorem asymm (c : Comparator α) {a b : α} (h : c.lt a b = true) : c.lt b a = false := by
  by_contra hba
  have := c.trans a b a h (Bool.not_eq_false _ ▸ hba)
  rw [c.irrefl] at this
  cases this

/-- Values compared by a part of them. -/
def on (c : Comparator β) (f : α → β) : Comparator α where
  lt a b := c.lt (f a) (f b)
  irrefl a := c.irrefl (f a)
  trans a b d := c.trans (f a) (f b) (f d)

theorem Total.on {c : Comparator β} (h : c.Total) {f : α → β} (hf : ∀ a b, f a = f b → a = b) : (c.on f).Total :=
  fun a b hab hba => hf a b (h (f a) (f b) hab hba)

/-- `std::lexicographical_compare` -/
def lexLt (lt : α → α → Bool) : List α → List α → Bool
  | _, [] => false
  | [], _ :: _ => true
  | a :: as, b :: bs => lt a b || (!lt b a && lexLt lt as bs)

variable {c : Comparator α} {a b d : α}

theorem Total.lt_of_lt_of_not (h : c.Total) (hab : c.lt a b = true) (hdb : c.lt d b = false) : c.lt a d = true := by
  cases hbd : c.lt b d with
  | true => exact c.trans a b d hab hbd
  | false => exact h b d hbd hdb ▸ hab

theorem Total.lt_of_not_of_lt (h : c.Total) (hba : c.lt b a = false) (hbd : c.lt b d = true) : c.lt a d = true := by
  cases hab : c.lt a b with
  | true => exact c.trans a b d hab hbd
  | false => exact h a b hab hba ▸ hbd

theorem Total.not_lt_trans (h : c.Total) (hba : c.lt b a = false) (hdb : c.lt d b = false) : c.lt d a = false := by
  cases hda : c.lt d a with
  | false => rfl
  | true => exact (h.lt_of_lt_of_not hda hba).symm.trans hdb

theorem lexLt_trans (h : c.Total) (as bs ds : List α) (hab : lexLt c.lt as bs = true) (hbd : lexLt c.lt bs ds = true) :
    lexLt c.lt as ds = true := by
  induction as generalizing bs ds with
  | nil =>
    cases ds with
    | nil => cases bs <;> cases hbd
    | cons d ds => rfl
  | cons a as ih =>
    cases bs with
    | nil => cases hab
    | cons b bs =>
      cases ds with
      | nil => cases hbd
      | cons d ds =>
        simp only [lexLt, Bool.or_eq_true, Bool.and_eq_true, Bool.not_eq_true'] at hab hbd ⊢
        rcases hab with hab | ⟨hba, hab⟩
        · rcases hbd with hbd | ⟨hdb, -⟩
          · exact .inl (c.trans a b d hab hbd)
          · exact .inl (h.lt_of_lt_of_not hab hdb)
        · rcases hbd with hbd | ⟨hdb, hbd⟩
          · exact .inl (h.lt_of_not_of_lt hba hbd)
          · exact .inr ⟨h.not_lt_trans hba hdb, ih bs ds hab hbd⟩

theorem lexLt_irrefl (c : Comparator α) (as : List α) : lexLt c.lt as as = false := by
  induction as with
  | nil => rfl
  | cons a as ih => simp [lexLt, c.irrefl, ih]

theorem lexLt_total (h : c.Total) (as bs : List α) (hab : lexLt c.lt as bs = false) (hba : lexLt c.lt bs as = false) :
    as = bs := by
  induction as generalizing bs with
  | nil =>
    cases bs with
    | nil => rfl
    | cons b bs => cases hab
  | cons a as ih =>
    cases bs with
    | nil => cases hba
    | cons b bs =>
      simp only [lexLt, Bool.or_eq_false_iff, Bool.and_eq_false_iff, Bool.not_eq_false'] at hab hba
      obtain rfl := h a b hab.1 hba.1
      rw [c.irrefl] at hab hba
      rw [ih bs (hab.2.resolve_left Bool.false_ne_true) (hba.2.resolve_left Bool.false_ne_true)]

def lex (c : Comparator α) (h : c.Total) : Comparator (List α) := ⟨lexLt c.lt, lexLt_irrefl c, lexLt_trans h⟩

theorem total_lex (h : c.Total) : (c.lex h).Total := lexLt_total h

/-- `operator<` of pairs -/
def pairLt (c : Comparator α) (e : Comparator β) (a b : α × β) : Bool :=
  c.lt a.1 b.1 || (!c.lt b.1 a.1 && e.lt a.2 b.2)

def pair (c : Comparator α) (hc : c.Total) (e : Comparator β) : Comparator (α × β) where
  lt := pairLt c e
  irrefl a := by simp [pairLt, c.irrefl, e.irrefl]
  trans a b d hab hbd := by
    simp only [pairLt, Bool.or_eq_true, Bool.and_eq_true, Bool.not_eq_true'] at hab hbd ⊢
    rcases hab with hab | ⟨hba, hab⟩
    · rcases hbd with hbd | ⟨hdb, -⟩
      · exact .inl (c.trans _ _ _ hab hbd)
      · exact .inl (hc.lt_of_lt_of_not hab hdb)
    · rcases hbd with hbd | ⟨hdb, hbd⟩
      · exact .inl (hc.lt_of_not_of_lt hba hbd)
      · exact .inr ⟨hc.not_lt_trans hba hdb, e.trans _ _ _ hab hbd⟩

theorem total_pair (hc : c.Total) {e : Comparator β} (he : e.Total) : (c.pair hc e).Total := by
  rintro ⟨a, x⟩ ⟨b, y⟩ hab hba
  simp only [pair, pairLt, Bool.or_eq_false_iff, Bool.and_eq_false_iff, Bool.not_eq_false'] at hab hba
  obtain rfl := hc a b hab.1 hba.1
  rw [c.irrefl] at hab hba
  rw [he x y (hab.2.resolve_left Bool.false_ne_true) (hba.2.resolve_left Bool.false_ne_true)]

/-- Strings -/
def bytes : Comparator CString.Bytes where
  lt a b := decide (a < b)
  irrefl a := decide_eq_false (List.lt_irrefl a)
  trans _ _ _ hab hbd := decide_eq_true (List.lt_trans (of_decide_eq_true hab) (of_decide_eq_true hbd))

theorem total_bytes : bytes.Total := fun _ _ hab hba =>
  List.le_antisymm (List.not_lt.1 (of_decide_eq_false hba)) (List.not_lt.1 (of_decide_eq_false hab))

/-- Integers -/
def int32 : Comparator Int32 where
  lt a b := decide (a < b)
  irrefl _ := decide_eq_false Int32.lt_irrefl
  trans _ _ _ hab hbd := decide_eq_true (Int32.lt_trans (of_decide_eq_true hab) (of_decide_eq_true hbd))

theorem total_int32 : int32.Total := fun _ _ hab hba =>
  Int32.le_antisymm (Int32.not_lt.1 (of_decide_eq_false hba)) (Int32.not_lt.1 (of_decide_eq_false hab))

end Comparator

/-! ## Containers in order -/

/-- A `std::set`, or a `std::map` with a comparator that only sees the keys. -/
structure Ordered (c : Comparator α) where
  elems : List α
  sorted : Sorted c.lt elems

namespace Ordered

variable {c : Comparator α}

def empty : Ordered c := ⟨[], List.Pairwise.nil⟩

def insert (s : Ordered c) (x : α) : Ordered c := ⟨OrderedSet.insert c.lt x s.elems, sorted_insert c.trans s.sorted x⟩

/-- The elements of a list inserted one after the other. -/
def ofList (l : List α) : Ordered c := l.foldl insert empty

theorem ext_elems {s t : Ordered c} (h : s.elems = t.elems) : s = t := by
  cases s
  cases t
  cases h
  rfl

theorem mem_foldl {l : List α} {s : Ordered c} {x : α} (h : x ∈ (l.foldl insert s).elems) : x ∈ s.elems ∨ x ∈ l := by
  induction l generalizing s with
  | nil => exact .inl h
  | cons y l ih =>
    rcases ih h with h | h
    · rcases mem_of_mem_insert h with rfl | h
      · exact .inr List.mem_cons_self
      · exact .inl h
    · exact .inr (List.mem_cons_of_mem y h)

theorem mem_ofList {l : List α} {x : α} (h : x ∈ (ofList l : Ordered c).elems) : x ∈ l := by
  rcases mem_foldl h with h | h
  · cases h
  · exact h

theorem foldl_sorted {l : List α} {s : Ordered c} (h : Sorted c.lt (s.elems ++ l)) :
    (l.foldl insert s).elems = s.elems ++ l := by
  induction l generalizing s with
  | nil => rw [List.append_nil]; rfl
  | cons x l ih =>
    have hlast : (s.insert x).elems = s.elems ++ [x] := by
      refine insert_last fun y hy => ?_
      have hyx := (List.pairwise_append.1 h).2.2 y hy x List.mem_cons_self
      exact ⟨hyx, c.asymm hyx⟩
    rw [List.foldl_cons, ih (by rw [hlast, List.append_assoc]; exact h), hlast, List.append_assoc]
    rfl

/-- A list in order is read as it is. -/
theorem elems_ofList {l : List α} (h : Sorted c.lt l) : (ofList l : Ordered c).elems = l := foldl_sorted h

end Ordered

end OrderedSet
