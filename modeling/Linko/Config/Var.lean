import Linko.Lib.Runs
import Mathlib.Logic.Function.Basic
/-!
# Configuration variables

`ConfigVar<T>` of `config.h` and threads that call `setValue`. The listeners are
told under the read lock, the value is assigned under the write lock, and
nothing keeps the two sections of a call together.
-/

namespace Linko.Config

open Runs

variable {T : Type}

/-- `m_cbs` maps the key of a listener to the changes it has been told, each
with the old and the new value. -/
structure ConfigVar (T : Type) where
  val : T
  cbs : List (Nat × List (T × T))

namespace ConfigVar

def getValue (c : ConfigVar T) : T := c.val

/-- The read-locked section of `setValue`; nothing is left to do when the value
is the old one. -/
def notify [DecidableEq T] (c : ConfigVar T) (val : T) : Option (ConfigVar T) :=
  if val = c.val then none
  else some { c with cbs := c.cbs.map fun i => (i.1, i.2 ++ [(c.val, val)]) }

/-- The write-locked section of `setValue`. -/
def assign (c : ConfigVar T) (val : T) : ConfigVar T := { c with val := val }

end ConfigVar

structure System (T : Type) where
  var : ConfigVar T
  /-- The value that a thread has told the listeners and not yet assigned. -/
  pending : Nat → Option T

/-- The sections of `setValue(val)`, called by thread `t`. -/
inductive Action (T : Type) where
  | notify (t : Nat) (val : T)
  | assign (t : Nat)

def init (v₀ : T) (keys : List Nat) : System T := ⟨⟨v₀, keys.map fun k => (k, [])⟩, fun _ => none⟩

def step [DecidableEq T] (s : System T) : Action T → Option (System T)
  | .notify t val =>
    if s.pending t = none then
      match s.var.notify val with
      | none => some s
      | some var => some ⟨var, Function.update s.pending t (some val)⟩
    else none
  | .assign t => (s.pending t).map fun val => ⟨s.var.assign val, Function.update s.pending t none⟩

/-! ## Chains of changes -/

/-- Each old value is the new value before it, and the first one is `v`. -/
def Chain : T → List (T × T) → Prop
  | _, [] => True
  | v, c :: cs => c.1 = v ∧ Chain c.2 cs

/-- The last new value, `v` if there is none. -/
def lastSeen : T → List (T × T) → T
  | v, [] => v
  | _, c :: cs => lastSeen c.2 cs

theorem chain_append {v : T} {cs : List (T × T)} {c : T × T} :
    Chain v (cs ++ [c]) ↔ Chain v cs ∧ c.1 = lastSeen v cs := by
  induction cs generalizing v with
  | nil => simp [Chain, lastSeen]
  | cons d cs ih => simp only [List.cons_append, Chain, lastSeen, ih, and_assoc]

@[simp] theorem lastSeen_append (v : T) (cs : List (T × T)) (c : T × T) : lastSeen v (cs ++ [c]) = c.2 := by
  induction cs generalizing v with
  | nil => rfl
  | cons d cs ih => exact ih d.2

/-- Every listener has been told a chain of changes and, when no call is under
way, knows the value. -/
def Converges (v₀ : T) (s : System T) : Prop :=
  ∀ i ∈ s.var.cbs, Chain v₀ i.2 ∧ ((∀ t, s.pending t = none) → lastSeen v₀ i.2 = s.var.getValue)

/-- A listener is told of a change while another call stands between its two
sections. -/
def Overlaps (s : System T) : Action T → Prop
  | .notify _ val => s.var.cbs ≠ [] ∧ val ≠ s.var.getValue ∧ ∃ u, s.pending u ≠ none
  | .assign _ => False

/-! ## Calls that do not overlap -/

/-- While one call is under way the listeners know its value, which is not the
old one, and there is no other. -/
structure Told (v₀ : T) (s : System T) : Prop where
  chain : ∀ i ∈ s.var.cbs, Chain v₀ i.2
  quiet : (∀ t, s.pending t = none) → ∀ i ∈ s.var.cbs, lastSeen v₀ i.2 = s.var.val
  held : ∀ t val, s.pending t = some val →
    val ≠ s.var.val ∧ (∀ u, u ≠ t → s.pending u = none) ∧ ∀ i ∈ s.var.cbs, lastSeen v₀ i.2 = val

theorem told_init (v₀ : T) (keys : List Nat) : Told v₀ (init v₀ keys) := by
  refine ⟨?_, ?_, ?_⟩
  · intro i hi
    obtain ⟨k, -, rfl⟩ := List.mem_map.1 hi
    exact trivial
  · intro _ i hi
    obtain ⟨k, -, rfl⟩ := List.mem_map.1 hi
    rfl
  · intro t val hp
    cases hp

theorem Told.converges {v₀ : T} {s : System T} (h : Told v₀ s) : Converges v₀ s :=
  fun i hi => ⟨h.chain i hi, fun hq => h.quiet hq i hi⟩

variable [DecidableEq T]

/-! ## What a step does -/

theorem step_cases {s s' : System T} {a : Action T} (h : step s a = some s') :
    (∃ t, a = .notify t s.var.val ∧ s' = s) ∨
    (∃ t val, a = .notify t val ∧ val ≠ s.var.val ∧ s.pending t = none ∧
      s' = ⟨⟨s.var.val, s.var.cbs.map fun i => (i.1, i.2 ++ [(s.var.val, val)])⟩,
        Function.update s.pending t (some val)⟩) ∨
    ∃ t val, a = .assign t ∧ s.pending t = some val ∧
      s' = ⟨⟨val, s.var.cbs⟩, Function.update s.pending t none⟩ := by
  cases a with
  | notify t val =>
    simp only [step, ConfigVar.notify] at h
    by_cases hp : s.pending t = none
    · rw [if_pos hp] at h
      by_cases hv : val = s.var.val
      · subst hv
        rw [if_pos rfl] at h
        exact .inl ⟨t, rfl, (Option.some.inj h).symm⟩
      · rw [if_neg hv] at h
        exact .inr (.inl ⟨t, val, rfl, hv, hp, (Option.some.inj h).symm⟩)
    · rw [if_neg hp] at h
      cases h
  | assign t =>
    simp only [step, Option.map_eq_some_iff] at h
    obtain ⟨val, hp, rfl⟩ := h
    exact .inr (.inr ⟨t, val, rfl, hp, rfl⟩)

/-- The listeners stay. -/
theorem keys_kept {v₀ : T} {keys : List Nat} {hist : List (System T × Action T)} {s : System T}
    (h : Run step (init v₀ keys) hist s) : s.var.cbs.map Prod.fst = keys := by
  refine h.always (I := fun s => s.var.cbs.map Prod.fst = keys) ?_ ?_
  · simp [init, Function.comp_def]
  · intro s a s' hk ha
    rcases step_cases ha with ⟨t, -, rfl⟩ | ⟨t, val, -, -, -, rfl⟩ | ⟨t, val, -, -, rfl⟩
    · exact hk
    · simpa [Function.comp_def] using hk
    · exact hk

theorem told_step {v₀ : T} {s s' : System T} {a : Action T} (h : Told v₀ s) (hne : s.var.cbs ≠ [])
    (hover : ¬ Overlaps s a) (ha : step s a = some s') : Told v₀ s' := by
  rcases step_cases ha with ⟨t, -, rfl⟩ | ⟨t, val, rfl, hv, hp, rfl⟩ | ⟨t, val, rfl, hp, rfl⟩
  · exact h
  · -- nobody else is under way, so the listeners know the value
    have hall : ∀ u, s.pending u = none := by
      intro u
      by_contra hu
      exact hover ⟨hne, hv, u, hu⟩
    have hquiet := h.quiet hall
    refine ⟨?_, ?_, ?_⟩
    · intro i hi
      obtain ⟨j, hj, rfl⟩ := List.mem_map.1 hi
      exact chain_append.2 ⟨h.chain j hj, (hquiet j hj).symm⟩
    · intro hno
      have := hno t
      simp at this
    · intro u w hu
      rcases eq_or_ne u t with rfl | hut
      · obtain rfl : val = w := by simpa using hu
        refine ⟨hv, fun v hvu => by simp [hvu, hall v], fun i hi => ?_⟩
        obtain ⟨j, -, rfl⟩ := List.mem_map.1 hi
        exact lastSeen_append _ _ _
      · simp [hut, hall u] at hu
  · -- the only call that was under way has come to its end
    obtain ⟨-, hothers, hlast⟩ := h.held t val hp
    have hall : ∀ u, Function.update s.pending t none u = none := by
      intro u
      rcases eq_or_ne u t with rfl | hut
      · simp
      · simp [hut, hothers u hut]
    refine ⟨h.chain, fun _ => hlast, fun u w hu => ?_⟩
    exact absurd ((hall u).symm.trans hu) (by simp)

/-- An overlapping call breaks the chain of every listener. -/
theorem overlap_breaks {v₀ : T} {s s' : System T} {a : Action T} (h : Told v₀ s) (hover : Overlaps s a)
    (ha : step s a = some s') : ¬ Converges v₀ s' := by
  intro hc
  rcases step_cases ha with ⟨t, rfl, rfl⟩ | ⟨t, val, rfl, hv, -, rfl⟩ | ⟨t, val, rfl, -, -⟩
  · exact hover.2.1 rfl
  · obtain ⟨hne, -, u, hu⟩ := hover
    obtain ⟨w, hw⟩ := Option.ne_none_iff_exists'.1 hu
    obtain ⟨i, hi⟩ := List.exists_mem_of_ne_nil _ hne
    -- the listener was told of `w`, but `m_val` is still the old value
    obtain ⟨hwv, -, hlast⟩ := h.held u w hw
    have hchain := (hc _ (List.mem_map_of_mem hi)).1
    exact hwv ((hlast i hi).symm.trans (chain_append.1 hchain).2.symm)
  · exact hover

/-! ## Runs -/

variable {v₀ : T} {keys : List Nat} {hist : List (System T × Action T)} {s : System T}

theorem told_run (h : Run step (init v₀ keys) hist s) (hk : keys ≠ []) (hno : ∀ x ∈ hist, ¬ Overlaps x.1 x.2) :
    Told v₀ s := by
  induction h with
  | start => exact told_init v₀ keys
  | @next hist s s' a hr ha ih =>
    have hne : s.var.cbs ≠ [] := by
      intro he
      have := keys_kept hr
      rw [he] at this
      exact hk this.symm
    exact told_step (ih fun x hx => hno x (List.mem_append_left _ hx)) hne
      (hno (s, a) (List.mem_append_right _ List.mem_cons_self)) ha

theorem converges_of_serial (h : Run step (init v₀ keys) hist s) (hno : ∀ x ∈ hist, ¬ Overlaps x.1 x.2) :
    Converges v₀ s := by
  by_cases hk : keys = []
  · have hcbs : s.var.cbs = [] := List.map_eq_nil_iff.1 ((keys_kept h).trans hk)
    intro i hi
    rw [hcbs] at hi
    cases hi
  · exact (told_run h hk hno).converges

/-- In a run of any number of threads all listeners see a chain of changes that
ends with the value exactly when no notification falls between the two sections
of another call. -/
theorem converges_iff (h : Run step (init v₀ keys) hist s) :
    ((∀ x ∈ hist, Converges v₀ x.1) ∧ Converges v₀ s) ↔ ∀ x ∈ hist, ¬ Overlaps x.1 x.2 := by
  induction h with
  | start => exact ⟨fun _ x hx => (List.not_mem_nil hx).elim, fun _ => ⟨fun x hx => (List.not_mem_nil hx).elim,
      (told_init v₀ keys).converges⟩⟩
  | @next hist s s' a hr ha ih =>
    constructor
    · rintro ⟨hall, hc⟩
      have hbefore := ih.1 ⟨fun x hx => hall x (List.mem_append_left _ hx),
        hall (s, a) (List.mem_append_right _ List.mem_cons_self)⟩
      intro x hx
      rcases List.mem_append.1 hx with hx | hx
      · exact hbefore x hx
      · obtain rfl := List.mem_singleton.1 hx
        intro hover
        have hk : keys ≠ [] := by
          rintro rfl
          have hne : s.var.cbs ≠ [] := by
            cases a with
            | notify t val => exact hover.1
            | assign t => exact hover.elim
          exact hne (List.map_eq_nil_iff.1 (keys_kept hr))
        exact overlap_breaks (told_run hr hk hbefore) hover ha hc
    · intro hno
      obtain ⟨hall, hc⟩ := ih.2 fun x hx => hno x (List.mem_append_left _ hx)
      refine ⟨fun x hx => ?_, converges_of_serial (hr.next ha) hno⟩
      rcases List.mem_append.1 hx with hx | hx
      · exact hall x hx
      · obtain rfl := List.mem_singleton.1 hx
        exact hc

/-- Two threads set 2 and 3, one after the other. -/
theorem converges_oneByOne :
    ∃ hist s, Run step (init 1 [7]) hist s ∧ (∀ x ∈ hist, Converges 1 x.1) ∧ Converges 1 s ∧
      s.var.getValue = 3 ∧ s.var.cbs = [(7, [(1, 2), (2, 3)])] := by
  obtain ⟨hist, s, hgo⟩ : ∃ hist s,
      go step [] (init 1 [7]) [.notify 0 2, .assign 0, .notify 1 3, .assign 1] = some (hist, s) := ⟨_, _, rfl⟩
  have hrun := run_of_go .start hgo
  cases hgo
  obtain ⟨hall, hc⟩ := (converges_iff hrun).2 (by
    intro x hx
    simp only [List.nil_append, List.cons_append, List.mem_cons, List.not_mem_nil, or_false] at hx
    rcases hx with rfl | rfl | rfl | rfl
    · exact fun h => h.2.2.elim fun u hu => hu rfl
    · exact id
    · rintro ⟨-, -, u, hu⟩
      rcases eq_or_ne u 0 with rfl | h0 <;> simp [init, *] at hu
    · exact id)
  exact ⟨_, _, hrun, hall, hc, rfl, rfl⟩

/-- Thread 1 tells the listener of 3 while thread 0 has told it of 2, and then
assigns first. -/
theorem not_converges_crossed :
    ¬ ∀ (v₀ : Nat) (keys : List Nat) (hist : List (System Nat × Action Nat)) (s : System Nat),
      Run step (init v₀ keys) hist s → Converges v₀ s := by
  intro h
  obtain ⟨hist, s, hgo⟩ : ∃ hist s,
      go step [] (init 1 [7]) [.notify 0 2, .notify 1 3, .assign 1, .assign 0] = some (hist, s) := ⟨_, _, rfl⟩
  have hc := h 1 [7] hist s (run_of_go .start hgo)
  cases hgo
  exact absurd (hc (7, [(1, 2), (1, 3)]) List.mem_cons_self).1.2.1 (by decide)

end Linko.Config
