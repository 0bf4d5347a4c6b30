import Linko.Sched.Accounting
/-!
# Pinned tasks

An entry of the queue can name the thread that is to run it. The scan respects
that, but a fiber that yields to `READY` goes back into the queue without it.
An observer notes beside the run which task is pinned to which thread.
-/

namespace Linko.Sched

open Runs

variable {s s' : State} {t u x : ThreadId} {f : FiberId} {ft : FiberAndThread}
  {queue rest : List FiberAndThread}

/-! ## The observer -/

def FiberState.finished : FiberState → Bool
  | .term | .except => true
  | _ => false

/-- The thread to which the task is pinned that a fiber is in the middle of, and
that to which the task is pinned that a thread took last. -/
structure Pins where
  fiber : FiberId → Option ThreadId
  thread : ThreadId → Option ThreadId

namespace Pins

def empty : Pins := ⟨fun _ => none, fun _ => none⟩

/-- Thread `t` takes an entry. One that names no thread goes on with the task
that its fiber is in the middle of. -/
def take (p : Pins) (state : FiberId → FiberState) (t : ThreadId) (ft : FiberAndThread) : Pins :=
  match ft.fiber with
  | none => { p with thread := Function.update p.thread t ft.thread }
  | some f =>
    if (state f).finished then { p with thread := Function.update p.thread t ft.thread }
    else
      let pin := ft.thread.or (p.fiber f)
      ⟨Function.update p.fiber f pin, Function.update p.thread t pin⟩

/-- The callback that `t` took begins in a fiber. -/
def start (p : Pins) (t : ThreadId) (f : FiberId) : Pins :=
  { p with fiber := Function.update p.fiber f (p.thread t) }

/-- The task of a fiber is finished. -/
def finish (p : Pins) (f : FiberId) : Pins := { p with fiber := Function.update p.fiber f none }

end Pins

/-- The fiber in which the next step of `t` begins a callback: a new one, or one
that is reset. -/
def begins (s : State) (t : ThreadId) : Option FiberId :=
  match (s.threads t).pc with
  | .prepare _ => if (s.threads t).cbFiber = none then some s.fibers else none
  | .setInit f true => some f
  | _ => none

def observe (p : Pins) (s : State) : Action → Pins
  | .advance t =>
    match picked s (.advance t), begins s t with
    | ft :: _, _ => p.take s.state t ft
    | [], some f => p.start t f
    | [], none => p
  | .suspend t v =>
    match (s.threads t).pc with
    | .running _ f => if v.finished then p.finish f else p
    | _ => p
  | _ => p

/-- The scheduler with its observer. -/
structure Observed where
  sched : State
  pins : Pins

def Observed.init (size : Nat) : Observed := ⟨Sched.init size, .empty⟩

def Observed.step (o : Observed) (a : Action) : Option Observed :=
  (Sched.step o.sched a).map fun s => ⟨s, observe o.pins o.sched a⟩

/-- Every run can be observed. -/
theorem observed_of_run {size : Nat} {hist : List (State × Action)} (h : Run step (init size) hist s) :
    ∃ hist' pins, Run Observed.step (.init size) hist' ⟨s, pins⟩ ∧
      hist = hist'.map fun y => (y.1.sched, y.2) := by
  induction h with
  | start => exact ⟨[], .empty, .start, rfl⟩
  | @next hist s s' a _ hstep ih =>
    obtain ⟨hist', pins, hrun, rfl⟩ := ih
    have hnext : Observed.step ⟨s, pins⟩ a = some ⟨s', observe pins s a⟩ := by simp [Observed.step, hstep]
    exact ⟨_, _, hrun.next hnext, by simp⟩

/-- Each fiber that is running on a thread, other than the idle one, is there
for a task that is not pinned to another. -/
def OnThread (o : Observed) : Prop :=
  ∀ t k f x, (o.sched.threads t).pc = .running k f → k ≠ .idle → o.pins.thread t = some x → t = x

/-! ## When the pin is kept -/

/-- All entries of a fiber name a thread. -/
def named (queue : List FiberAndThread) (f : FiberId) : Bool :=
  queue.all fun e => e.fiber ≠ some f || e.thread ≠ none

/-- A step keeps the pins if it puts no entry without a thread into the queue
for a fiber that is in the middle of a pinned task, and if it begins no pinned
task in a fiber that has such an entry there already. -/
def keepsPins (p : Pins) (s : State) : Action → Bool
  | .schedule tasks => tasks.all fun e => e.fiber.all fun f => p.fiber f = none || e.thread ≠ none
  | .advance t =>
    match (s.threads t).pc with
    | .pick =>
      match scan s.state t s.queue with
      | .took ft rest => ft.thread = none || ft.fiber.all fun f => (s.state f).finished || named rest f
      | _ => true
    | .readReady _ f => s.state f ≠ .ready || p.fiber f = none
    | _ => (begins s t).all fun f => p.thread t = none || named s.queue f
  | _ => true

structure Kept (p : Pins) (queue : List FiberAndThread) : Prop where
  thread : ∀ t x, p.thread t = some x → t = x
  queue : ∀ e ∈ queue, ∀ f, e.fiber = some f → p.fiber f ≠ none → e.thread ≠ none

theorem named_iff : named queue f = true ↔ ∀ e ∈ queue, e.fiber = some f → e.thread ≠ none := by
  simp only [named, List.all_eq_true, Bool.or_eq_true, decide_eq_true_eq]
  constructor
  · intro h e he hf
    exact (h e he).resolve_left fun hne => hne hf
  · intro h e he
    by_cases hf : e.fiber = some f
    · exact .inr (h e he hf)
    · exact .inl hf

namespace Kept

variable {p : Pins}

theorem sub (h : Kept p queue) (hrest : ∀ e ∈ rest, e ∈ queue) : Kept p rest :=
  ⟨h.thread, fun e he => h.queue e (hrest e he)⟩

/-- The thread takes an entry, which names it if the task of the fiber is pinned. -/
theorem take (h : Kept p queue) (hscan : scan s.state t queue = .took ft rest)
    (hok : ft.thread ≠ none → ∀ f, ft.fiber = some f → (s.state f).finished = false → named rest f = true) :
    Kept (p.take s.state t ft) rest := by
  have hmem : ∀ e ∈ ft :: rest, e ∈ queue := fun e he => (scan_perm hscan).mem_iff.2 he
  have hthread : ∀ x, ft.thread = some x → t = x := by
    intro x hx
    rcases (scan_took hscan).2 with hnone | hsome
    · rw [hnone] at hx
      cases hx
    · exact Option.some.inj (hsome.symm.trans hx)
  have hrest := h.sub fun e he => hmem e (List.mem_cons_of_mem ft he)
  -- the pins of the threads after a step that writes that of `t`
  have hset : ∀ {pin : Option ThreadId}, (∀ x, pin = some x → t = x) → ∀ u x,
      Function.update p.thread t pin u = some x → u = x := by
    intro pin hpin u x hu
    by_cases hut : u = t
    · subst hut
      exact hpin x (by simpa using hu)
    · exact h.thread u x (by simpa [hut] using hu)
  unfold Pins.take
  split
  · exact ⟨hset hthread, hrest.queue⟩
  · rename_i f hf
    split
    · exact ⟨hset hthread, hrest.queue⟩
    · rename_i hrun
      cases hth : ft.thread with
      | none =>
        -- the entry would name a thread if the task were pinned
        have hfree : p.fiber f = none := by
          by_contra hpin
          exact h.queue ft (hmem ft List.mem_cons_self) f hf hpin hth
        refine ⟨hset fun x hx => by simp [hfree] at hx, ?_⟩
        intro e he g hg hpin
        refine hrest.queue e he g hg ?_
        by_cases hgf : g = f
        · simp [hgf, hfree] at hpin
        · simpa [hgf] using hpin
      | some y =>
        refine ⟨hset fun x hx => hthread x (by simpa [hth] using hx), ?_⟩
        intro e he g hg hpin
        by_cases hgf : g = f
        · subst hgf
          exact named_iff.1 (hok (by simp [hth]) g hf (by simpa using hrun)) e he hg
        · exact hrest.queue e he g hg (by simpa [hgf] using hpin)

theorem start (h : Kept p queue) (hok : p.thread t = none ∨ named queue f = true) :
    Kept (p.start t f) queue := by
  refine ⟨h.thread, ?_⟩
  intro e he g hg hpin
  by_cases hgf : g = f
  · subst hgf
    rcases hok with hnone | hnamed
    · simp [Pins.start, hnone] at hpin
    · exact named_iff.1 hnamed e he hg
  · exact h.queue e he g hg (by simpa [Pins.start, hgf] using hpin)

theorem finish (h : Kept p queue) : Kept (p.finish f) queue := by
  refine ⟨h.thread, ?_⟩
  intro e he g hg hpin
  by_cases hgf : g = f
  · simp [Pins.finish, hgf] at hpin
  · exact h.queue e he g hg (by simpa [Pins.finish, hgf] using hpin)

end Kept

theorem begins_cases (h : begins s t = some f) :
    (∃ c, (s.threads t).pc = .prepare c) ∨ (s.threads t).pc = .setInit f true := by
  unfold begins at h
  split at h
  · rename_i c hpc
    exact .inl ⟨c, hpc⟩
  · rename_i g hpc
    obtain rfl := Option.some.inj h
    exact .inr hpc
  · cases h

theorem kept_advance {p : Pins} (h : Kept p s.queue) (hok : keepsPins p s (.advance t) = true)
    (hadv : advance s t = some s') :
    Kept (observe p s (.advance t)) s'.queue := by
  rcases advance_queue hadv with ⟨ft, rest, hpc, hscan, hqueue⟩ | ⟨hpicked, hqueue⟩
  · have hobserve : observe p s (.advance t) = p.take s.state t ft := by simp [observe, picked, hpc, hscan]
    rw [hobserve, hqueue]
    refine h.take hscan ?_
    intro hnamed f hf hrun
    simpa [keepsPins, hpc, hscan, hnamed, hf, hrun] using hok
  · rw [hqueue]
    cases hbegins : begins s t with
    | some f =>
      have hobserve : observe p s (.advance t) = p.start t f := by simp [observe, hpicked, hbegins]
      have hnone : entered s (.advance t) = [] := by
        rcases begins_cases hbegins with ⟨c, hpc⟩ | hpc <;> simp [entered, submitted, hpc]
      rw [hobserve, hnone, List.append_nil]
      refine h.start ?_
      rcases begins_cases hbegins with ⟨c, hpc⟩ | hpc <;> simpa [keepsPins, hpc, hbegins] using hok
    | none =>
      have hobserve : observe p s (.advance t) = p := by simp [observe, hpicked, hbegins]
      rw [hobserve]
      refine ⟨h.thread, ?_⟩
      intro e he f hf hpin
      rcases List.mem_append.1 he with he | he
      · exact h.queue e he f hf hpin
      · obtain ⟨k, g, hpc, hready, rfl⟩ := entered_ready he
        obtain rfl : g = f := Option.some.inj hf
        have hfree : p.fiber g = none := by simpa [keepsPins, hpc, hready] using hok
        exact absurd hfree hpin

theorem kept_step {o o' : Observed} {a : Action} (h : Kept o.pins o.sched.queue)
    (hok : keepsPins o.pins o.sched a = true) (hs : o.step a = some o') : Kept o'.pins o'.sched.queue := by
  obtain ⟨s', hstep, rfl⟩ := Option.map_eq_some_iff.1 hs
  rcases step_cases hstep with ⟨rfl, rfl⟩ | ⟨tasks, rfl, -, rfl⟩ | ⟨t, rfl, -, hadv⟩ |
    ⟨t, v, k, f, rfl, -, hpc, rfl⟩
  · exact h
  · refine ⟨h.thread, ?_⟩
    intro e he f hf hpin
    rcases List.mem_append.1 he with he | he
    · exact h.queue e he f hf hpin
    · have hall := List.all_eq_true.1 hok e (List.mem_of_mem_filter he)
      simpa [hf, show o.pins.fiber f ≠ none from hpin] using hall
  · exact kept_advance h hok hadv
  · have hobserve : observe o.pins o.sched (.suspend t v) = if v.finished then o.pins.finish f else o.pins := by
      simp [observe, hpc]
    show Kept (observe o.pins o.sched (.suspend t v)) o.sched.queue
    rw [hobserve]
    split
    · exact h.finish
    · exact h

/-! ## Runs -/

/-- In every run that keeps the pins, every pinned task runs on its thread. -/
theorem pinned_of_keeps {size : Nat} {o : Observed} {hist : List (Observed × Action)}
    (h : Run Observed.step (.init size) hist o) (hok : ∀ y ∈ hist, keepsPins y.1.pins y.1.sched y.2 = true) :
    OnThread o := by
  have hstart : Kept (Observed.init size).pins (Observed.init size).sched.queue :=
    ⟨fun t x hx => (by cases hx), fun e he => (by cases he)⟩
  have hstep : ∀ (o : Observed) (a : Action) (o' : Observed), Kept o.pins o.sched.queue →
      keepsPins o.pins o.sched a = true → o.step a = some o' → Kept o'.pins o'.sched.queue :=
    fun o a o' hi hok hs => kept_step hi hok hs
  have hkept := h.invariant (I := fun o => Kept o.pins o.sched.queue) hstart hstep hok
  intro t k f x _ _ hx
  exact hkept.thread t x hx

/-- A fiber and a callback, both for thread 1. Each is taken there, runs, yields
and is scheduled again for thread 1. -/
def pinnedTasks : List Action :=
  [.create, .schedule [⟨some 2, none, some 1⟩, ⟨none, some 5, some 1⟩], .advance 0] ++
    List.replicate 7 (.advance 1) ++ [.suspend 1 .hold] ++ List.replicate 7 (.advance 1) ++
    [.schedule [⟨some 2, none, some 1⟩]] ++ List.replicate 7 (.advance 1)

/-- The state after it: thread 1 runs a fiber for a task that is pinned to it. -/
def runsPinned (o : Observed) : Bool :=
  decide (o.pins.thread 1 = some 1) &&
    match (o.sched.threads 1).pc with
    | .running k _ => k ≠ .idle
    | _ => false

theorem pinned_pinnedTasks :
    ∃ hist o, Run Observed.step (.init 2) hist o ∧ runsPinned o = true ∧ OnThread o := by
  obtain ⟨hist, o, hrun, hp⟩ : ∃ hist o, Run Observed.step (.init 2) hist o ∧
      (hist.all (fun y => keepsPins y.1.pins y.1.sched y.2) && runsPinned o) = true :=
    exists_run pinnedTasks (by decide +kernel)
  rw [Bool.and_eq_true, List.all_eq_true] at hp
  exact ⟨hist, o, hrun, hp.2, pinned_of_keeps hrun hp.1⟩

/-- A fiber for thread 0 yields to `READY`, and thread 1 takes it. -/
def readyYield : List Action :=
  [.create, .schedule [⟨some 2, none, some 0⟩]] ++ List.replicate 7 (.advance 0) ++ [.suspend 0 .ready] ++
    List.replicate 4 (.advance 0) ++ List.replicate 7 (.advance 1)

theorem not_pinned_readyYield : ¬ ∀ size hist o, Run Observed.step (.init size) hist o → OnThread o := by
  intro hall
  obtain ⟨hist, o, hrun, hp⟩ : ∃ hist o, Run Observed.step (.init 2) hist o ∧
      decide ((o.sched.threads 1).pc = .running .fiber 2 ∧ o.pins.thread 1 = some 0) = true :=
    exists_run readyYield (by decide +kernel)
  obtain ⟨hpc, hpin⟩ := of_decide_eq_true hp
  exact absurd (hall 2 hist o hrun 1 .fiber 2 0 hpc (by decide) hpin) (by decide)

end Linko.Sched
