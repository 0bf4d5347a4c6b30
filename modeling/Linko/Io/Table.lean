import Linko.Lib.Runs
/-!
# The table of the contexts

`m_fdContexts` holds a pointer for every descriptor below its size. `addEvent`
makes it larger by half when the descriptor is not below, and then takes the
pointer at the descriptor, whatever the new size is.
-/

namespace Linko.Io

open Runs

/-- An `FdContext` of the table: which `new` it comes from, and its `fd`. -/
structure Slot where
  object : Nat
  fd : Nat
  deriving DecidableEq, Repr

/-- `m_fdContexts`, and the number of contexts made so far. -/
structure Table where
  contexts : List (Option Slot)
  allocated : Nat
  deriving DecidableEq, Repr

inductive TableFault where
  | outOfBounds
  | nullDeref
  deriving DecidableEq, Repr

/-- The loop of `contextResize` from index `i` on. -/
def fillLoop : Nat → Nat → List (Option Slot) → List (Option Slot) × Nat
  | _, allocated, [] => ([], allocated)
  | i, allocated, none :: rest =>
    let (rest, n) := fillLoop (i + 1) (allocated + 1) rest
    (some ⟨allocated, i⟩ :: rest, n)
  | i, allocated, some e :: rest =>
    let (rest, n) := fillLoop (i + 1) allocated rest
    (some e :: rest, n)

def contextResize (tb : Table) (size : Nat) : Table :=
  let resized := tb.contexts.take size ++ List.replicate (size - tb.contexts.length) none
  let (contexts, allocated) := fillLoop 0 tb.allocated resized
  ⟨contexts, allocated⟩

/-- The constructor's table. -/
def Table.initial : Table := contextResize ⟨[], 0⟩ 32

/-- `m_fdContexts[fd]`, dereferenced. -/
def Table.deref (tb : Table) (fd : Nat) : Except TableFault Slot :=
  match tb.contexts[fd]? with
  | none => .error .outOfBounds
  | some none => .error .nullDeref
  | some (some e) => .ok e

/-- The table that `addEvent` leaves and the context that it locks. The factor
`1.5` is exact for all sizes below `2 ^ 52`. -/
def fdContextOf (tb : Table) (fd : Nat) : Except TableFault (Table × Slot) :=
  if tb.contexts.length > fd then do
    let fd_ctx ← tb.deref fd
    .ok (tb, fd_ctx)
  else do
    let tb := contextResize tb (tb.contexts.length * 3 / 2)
    let fd_ctx ← tb.deref fd
    .ok (tb, fd_ctx)

/-- One `addEvent`. Behind an access out of bounds there is no state. -/
def grow (tb : Table) (fd : Nat) : Option Table := (fdContextOf tb fd).toOption.map Prod.fst

/-! ## The invariant -/

/-- Every pointer is that of a context with the index as its `fd`. -/
structure Filled (tb : Table) : Prop where
  size : 32 ≤ tb.contexts.length
  entry : ∀ i, i < tb.contexts.length → ∃ e, tb.contexts[i]? = some (some e) ∧ e.fd = i

/-- The entries of the one are those of the other, at their places. -/
def Kept (tb tb' : Table) : Prop :=
  ∀ (i : Nat) (e : Slot), tb.contexts[i]? = some (some e) → tb'.contexts[i]? = some (some e)

variable {tb tb' tb₀ : Table} {fd : Nat}

theorem Kept.refl (tb : Table) : Kept tb tb := fun _ _ h => h

theorem Kept.trans (h : Kept tb₀ tb) (h' : Kept tb tb') : Kept tb₀ tb' := fun i e he => h' i e (h i e he)

theorem length_fillLoop (i allocated : Nat) (contexts : List (Option Slot)) :
    (fillLoop i allocated contexts).1.length = contexts.length := by
  induction contexts generalizing i allocated with
  | nil => rfl
  | cons c rest ih => cases c <;> simp [fillLoop, ih]

/-- The loop leaves what is there and fills the rest in. -/
theorem fillLoop_kept (i allocated : Nat) (contexts : List (Option Slot)) (j : Nat) (e : Slot)
    (h : contexts[j]? = some (some e)) : (fillLoop i allocated contexts).1[j]? = some (some e) := by
  induction contexts generalizing i allocated j with
  | nil => cases h
  | cons c rest ih =>
    cases j with
    | zero =>
      obtain rfl : c = some e := Option.some.inj h
      rfl
    | succ j => cases c <;> exact ih _ _ j h

theorem fillLoop_fresh (i allocated : Nat) (contexts : List (Option Slot)) (j : Nat)
    (h : contexts[j]? = some none) : 
    ∃ e, (fillLoop i allocated contexts).1[j]? = some (some e) ∧ e.fd = i + j := by
  induction contexts generalizing i allocated j with
  | nil => cases h
  | cons c rest ih =>
    cases j with
    | zero =>
      obtain rfl : c = none := Option.some.inj h
      exact ⟨_, rfl, rfl⟩
    | succ j =>
      obtain ⟨e, he, hfd⟩ := ih (i + 1) (match c with | none => allocated + 1 | some _ => allocated) j h
      refine ⟨e, ?_, by omega⟩
      cases c <;> exact he

section

variable {size : Nat}

theorem contextResize_length (tb : Table) (h : tb.contexts.length ≤ size) :
    (contextResize tb size).contexts.length = size := by
  show (fillLoop _ _ _).1.length = size
  rw [length_fillLoop, List.length_append, List.length_take, List.length_replicate]
  omega

theorem contextResize_kept (h : tb.contexts.length ≤ size) : Kept tb (contextResize tb size) := by
  intro i e he
  refine fillLoop_kept _ _ _ i e ?_
  obtain ⟨hlt, -⟩ := List.getElem?_eq_some_iff.1 he
  rw [List.take_of_length_le h, List.getElem?_append_left hlt]
  exact he

/-- The new places are filled, and so were the old ones. -/
theorem contextResize_entry (hf : ∀ i, i < tb.contexts.length → ∃ e, tb.contexts[i]? = some (some e) ∧ e.fd = i)
    (h : tb.contexts.length ≤ size) :
    ∀ i, i < (contextResize tb size).contexts.length →
      ∃ e, (contextResize tb size).contexts[i]? = some (some e) ∧ e.fd = i := by
  intro i hi
  rw [contextResize_length tb h] at hi
  by_cases hold : i < tb.contexts.length
  · obtain ⟨e, he, hfd⟩ := hf i hold
    exact ⟨e, contextResize_kept h i e he, hfd⟩
  · have hnone : (tb.contexts.take size ++ List.replicate (size - tb.contexts.length) none)[i]? =
        some (none : Option Slot) := by
      rw [List.take_of_length_le h, List.getElem?_append_right (by omega),
        List.getElem?_replicate_of_lt (by omega)]
    obtain ⟨e, he, hfd⟩ := fillLoop_fresh 0 tb.allocated _ i hnone
    exact ⟨e, he, by omega⟩

end

theorem filled_initial : Filled Table.initial := by
  have hlen : Table.initial.contexts.length = 32 := contextResize_length _ (by decide)
  refine ⟨by omega, contextResize_entry ?_ (by decide)⟩
  intro i hi
  cases hi

theorem Filled.grown (h : Filled tb) : Filled (contextResize tb (tb.contexts.length * 3 / 2)) := by
  have hsize := h.size
  have hle : tb.contexts.length ≤ tb.contexts.length * 3 / 2 := by omega
  have hlen := contextResize_length tb hle
  exact ⟨by omega, contextResize_entry h.entry hle⟩

theorem Filled.deref (h : Filled tb) (hfd : fd < tb.contexts.length) :
    ∃ e, tb.deref fd = .ok e ∧ tb.contexts[fd]? = some (some e) ∧ e.fd = fd := by
  obtain ⟨e, he, hefd⟩ := h.entry fd hfd
  refine ⟨e, ?_, he, hefd⟩
  unfold Table.deref
  rw [he]

/-! ## What `addEvent` finds -/

/-- `addEvent` stays inside the table, on a context of this descriptor, and
every context made since the constructor is still in its place. -/
def Covers (hist : List (Table × Nat)) (tb : Table) (fd : Nat) : Prop :=
  ∃ tb' fd_ctx, fdContextOf tb fd = .ok (tb', fd_ctx) ∧ tb'.contexts[fd]? = some (some fd_ctx) ∧
    fd_ctx.fd = fd ∧ Kept tb tb' ∧ ∀ x ∈ hist, Kept x.1 tb'

theorem fdContextOf_ok (h : Filled tb) (hfd : fd < tb.contexts.length * 3 / 2) :
    ∃ tb' fd_ctx, fdContextOf tb fd = .ok (tb', fd_ctx) ∧ tb'.contexts[fd]? = some (some fd_ctx) ∧
      fd_ctx.fd = fd ∧ Kept tb tb' ∧ Filled tb' := by
  have hsize := h.size
  unfold fdContextOf
  by_cases hin : tb.contexts.length > fd
  · obtain ⟨e, hok, he, hefd⟩ := h.deref hin
    rw [if_pos hin, hok]
    exact ⟨tb, e, rfl, he, hefd, Kept.refl tb, h⟩
  · have hle : tb.contexts.length ≤ tb.contexts.length * 3 / 2 := by omega
    have hnew : fd < (contextResize tb (tb.contexts.length * 3 / 2)).contexts.length := by
      rw [contextResize_length tb hle]
      exact hfd
    obtain ⟨e, hok, he, hefd⟩ := h.grown.deref hnew
    rw [if_neg hin]
    simp only [hok]
    exact ⟨_, e, rfl, he, hefd, contextResize_kept hle, h.grown⟩

theorem fdContextOf_far (h : Filled tb) (hfd : ¬ fd < tb.contexts.length * 3 / 2) :
    fdContextOf tb fd = .error .outOfBounds := by
  have hsize := h.size
  have hle : tb.contexts.length ≤ tb.contexts.length * 3 / 2 := by omega
  have hnone : (contextResize tb (tb.contexts.length * 3 / 2)).contexts[fd]? = none := by
    rw [List.getElem?_eq_none_iff, contextResize_length tb hle]
    omega
  unfold fdContextOf
  rw [if_neg (by omega)]
  simp only [Table.deref, hnone]
  rfl

theorem grow_filled (h : Filled tb) (hg : grow tb fd = some tb') : Filled tb' ∧ Kept tb tb' := by
  unfold grow at hg
  by_cases hfd : fd < tb.contexts.length * 3 / 2
  · obtain ⟨tb₁, e, hok, -, -, hkept, hfilled⟩ := fdContextOf_ok h hfd
    rw [hok] at hg
    obtain rfl : tb₁ = tb' := Option.some.inj hg
    exact ⟨hfilled, hkept⟩
  · rw [fdContextOf_far h hfd] at hg
    cases hg

/-! ## Runs -/

variable {hist : List (Table × Nat)}

theorem filled_of_run (h : Run grow Table.initial hist tb) : Filled tb :=
  h.always filled_initial fun _ _ _ hf hg => (grow_filled hf hg).1

/-- No step takes an entry out. -/
theorem kept_of_run (h : Run grow Table.initial hist tb) : ∀ x ∈ hist, Kept x.1 tb := by
  induction h with
  | start => nofun
  | @next hist tb tb' fd hrun hg ih =>
    have hkept := (grow_filled (filled_of_run hrun) hg).2
    intro x hx
    rcases List.mem_append.1 hx with hx | hx
    · exact (ih x hx).trans hkept
    · obtain rfl := List.mem_singleton.1 hx
      exact hkept

/-- After every run: the next `addEvent` is covered exactly when its descriptor
lies below one and a half times the size. -/
theorem covers_iff (h : Run grow Table.initial hist tb) (fd : Nat) :
    Covers hist tb fd ↔ fd < tb.contexts.length * 3 / 2 := by
  have hfilled := filled_of_run h
  constructor
  · rintro ⟨tb', e, hok, -⟩
    by_contra hfar
    rw [fdContextOf_far hfilled hfar] at hok
    cases hok
  · intro hfd
    obtain ⟨tb', e, hok, he, hefd, hkept, -⟩ := fdContextOf_ok hfilled hfd
    exact ⟨tb', e, hok, he, hefd, hkept, fun x hx => (kept_of_run h x hx).trans hkept⟩

/-- A descriptor that makes the table grow, and one behind the first growth. -/
theorem covers_iff_second : ∃ hist tb, Run grow Table.initial hist tb ∧ Covers hist tb 60 := by
  obtain ⟨hist, tb, hrun, hp⟩ : ∃ hist tb, Run grow Table.initial hist tb ∧
      decide (tb.contexts.length = 48) = true := exists_run [40] (by decide +kernel)
  refine ⟨hist, tb, hrun, (covers_iff hrun 60).2 ?_⟩
  rw [of_decide_eq_true hp]
  decide

/-- The first table has 32 entries and the next one 48. -/
theorem not_covers :
    ¬ ∀ (hist : List (Table × Nat)) (tb : Table), Run grow Table.initial hist tb → ∀ fd, Covers hist tb fd := by
  intro h
  obtain ⟨tb', e, hok, -⟩ := h [] Table.initial .start 48
  have hfar : fdContextOf Table.initial 48 = .error .outOfBounds := by decide +kernel
  rw [hfar] at hok
  cases hok

end Linko.Io
