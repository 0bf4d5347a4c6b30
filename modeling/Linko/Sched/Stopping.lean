import Linko.Sched.Accounting
/-!
# Termination

`stopping()` of `Scheduler` and of `IOManager`, and the idle fibers that ask it.
Timers and events are counted here, who runs adds and removes them. Each read of
a counter is one step, and so is each of the parts between which the idle fiber
of an `IOManager` has work in hand.
-/

namespace Linko.Sched

open Runs

variable {s s' : State} {t u : ThreadId} {k : Kind} {f : FiberId}

/-! ## The system -/

/-- What the idle fiber of a thread does next. -/
inductive Idle where
  /-- `getNextTimer()` -/
  | nextTimer
  /-- `m_pendingEventCount == 0` -/
  | pending
  /-- `Scheduler::stopping()` -/
  | check
  /-- `epoll_wait` -/
  | wait
  /-- `listExpiredCb(cbs)` -/
  | expire
  /-- `schedule(cbs.begin(), cbs.end())` -/
  | handOut (cbs : List CallbackId)
  /-- The loop over the events. -/
  | dispatch
  /-- An event was triggered: `--m_pendingEventCount`. -/
  | triggered
  /-- It yields. -/
  | yield
  /-- It returns. -/
  | exit
  deriving DecidableEq, Repr

structure System where
  sched : State
  autoStop : Bool
  stopping : Bool
  /-- `m_timers.size()` -/
  timers : Nat
  /-- The events in the contexts of the descriptors. -/
  registered : Nat
  pendingEventCount : Int
  idle : ThreadId → Idle
  /-- `stopping()` has returned true in an idle fiber. -/
  stopped : Bool

/-- Where an idle fiber asks whether to stop. A plain `Scheduler` looks at the
queue only. -/
def Idle.ask (io : Bool) : Idle := if io then .nextTimer else .check

/-- After `start()`. -/
def System.init (io : Bool) (size : Nat) : System where
  sched := Sched.init size
  autoStop := false
  stopping := false
  timers := 0
  registered := 0
  pendingEventCount := 0
  idle _ := .ask io
  stopped := false

/-- What somebody does who is not an idle fiber: tasks to schedule, and the
timers and the events that there are then. -/
structure Work where
  tasks : List FiberAndThread
  timers : Nat
  registered : Nat
  deriving DecidableEq, Repr

inductive IdleMove where
  | next
  /-- `listExpiredCb` returns callbacks and leaves timers, those that recur among them. -/
  | expire (cbs : List CallbackId) (timers : Nat)
  /-- An event came for a task. -/
  | trigger (task : FiberAndThread)
  deriving DecidableEq, Repr

inductive Move where
  | create
  /-- `m_autoStop = true` and `m_stopping = true` in `stop()` -/
  | autoStop
  | stop
  /-- A thread that is not in the pool. -/
  | outside (work : Work)
  /-- A step of `run`. -/
  | advance (t : ThreadId)
  /-- The fiber or the callback that `t` runs. -/
  | work (t : ThreadId) (work : Work)
  | suspend (t : ThreadId) (v : FiberState)
  /-- The idle fiber of `t`. -/
  | idle (t : ThreadId) (move : IdleMove)
  deriving DecidableEq, Repr

/-- Thread `t` runs a fiber or a callback, and not its idle fiber. -/
def works (s : State) (t : ThreadId) : Bool :=
  match (s.threads t).pc with
  | .running k _ => k ≠ .idle
  | _ => false

def rests (s : State) (t : ThreadId) : Bool :=
  match (s.threads t).pc with
  | .running k _ => k = .idle
  | _ => false

namespace System

def goto (o : System) (t : ThreadId) (i : Idle) : System := { o with idle := Function.update o.idle t i }

/-- A step of the scheduler. -/
def move (o : System) (a : Action) : Option System := (Sched.step o.sched a).map fun s => { o with sched := s }

/-- The outcome of `Scheduler::stopping`. -/
def quits (o : System) : Bool :=
  o.autoStop && o.stopping && o.sched.queue.isEmpty && o.sched.activeThreadCount = 0

/-- There are no timers and events without an `IOManager`. -/
def work (io : Bool) (o : System) (w : Work) : Option System :=
  if io = false ∧ (w.timers ≠ 0 ∨ w.registered ≠ 0) then none
  else
    { o with
      timers := w.timers
      registered := w.registered
      pendingEventCount := o.pendingEventCount + w.registered - o.registered }.move (.schedule w.tasks)

/-- The idle fiber of `t`. -/
def idleStep (io : Bool) (o : System) (t : ThreadId) (m : IdleMove) : Option System :=
  match o.idle t, m with
  | .nextTimer, .next => some (o.goto t (if o.timers = 0 then .pending else .wait))
  | .pending, .next => some (o.goto t (if o.pendingEventCount = 0 then .check else .wait))
  | .check, .next =>
    if o.quits then some ({ o with stopped := true }.goto t .exit)
    else some (o.goto t (if io then .wait else .yield))
  | .wait, .next => some (o.goto t .expire)
  | .expire, .expire cbs timers =>
    if cbs.length ≤ o.timers ∧ timers ≤ o.timers ∧ o.timers ≤ timers + cbs.length then
      some ({ o with timers := timers }.goto t (.handOut cbs))
    else none
  | .handOut cbs, .next => (o.goto t .dispatch).move (.schedule (cbs.map fun c => ⟨none, some c, none⟩))
  | .dispatch, .trigger task =>
    if o.registered = 0 then none
    else ({ o with registered := o.registered - 1 }.goto t .triggered).move
      (.schedule [{ task with thread := none }])
  | .triggered, .next => some ({ o with pendingEventCount := o.pendingEventCount - 1 }.goto t .dispatch)
  | .dispatch, .next => some (o.goto t .yield)
  | .yield, .next => (o.goto t (.ask io)).move (.suspend t .hold)
  | .exit, .next => o.move (.suspend t .term)
  | _, _ => none

/-- After `m_stopping` is set nobody outside of the pool schedules anything. -/
def step (io : Bool) (o : System) (m : Move) : Option System :=
  if o.sched.aborted then none
  else
    match m with
    | .create => o.move .create
    | .autoStop => some { o with autoStop := true }
    | .stop => if o.autoStop then some { o with stopping := true } else none
    | .outside w => if o.stopping then none else o.work io w
    | .advance t => o.move (.advance t)
    | .work t w => if t < o.sched.size ∧ works o.sched t then o.work io w else none
    | .suspend t v => if t < o.sched.size ∧ works o.sched t then o.move (.suspend t v) else none
    | .idle t m => if t < o.sched.size ∧ rests o.sched t then o.idleStep io t m else none

end System

/-- No fiber and no callback runs, none that yielded to `READY` is on its way
back into the queue, and no expired callback. -/
structure Silent (o : System) : Prop where
  runs : ∀ t k f, t < o.sched.size → (o.sched.threads t).pc = .running k f → k = .idle
  ready : ∀ t k f, t < o.sched.size → (o.sched.threads t).pc = .readReady k f → o.sched.state f ≠ .ready
  expired : ∀ t cbs, t < o.sched.size → o.idle t = .handOut cbs → cbs = []

/-! ## When the check is sound -/

/-- Nothing is on its way back into the queue, and the timers and the events,
which were looked at before, are still none. -/
def System.settled (o : System) : Bool :=
  ((List.range o.sched.size).all fun u =>
    (match (o.sched.threads u).pc with
      | .readReady _ f => o.sched.state f ≠ .ready
      | _ => true) &&
    (match o.idle u with
      | .handOut cbs => cbs.isEmpty
      | _ => true)) && o.timers = 0 && o.pendingEventCount = 0

/-- `Scheduler::stopping` returns true only when all is settled. -/
def System.settles (o : System) : Move → Bool
  | .idle t .next => o.idle t ≠ .check || !o.quits || o.settled
  | _ => true

theorem settled_iff {o : System} : o.settled = true ↔
    (∀ u k f, u < o.sched.size → (o.sched.threads u).pc = .readReady k f → o.sched.state f ≠ .ready) ∧
      (∀ u cbs, u < o.sched.size → o.idle u = .handOut cbs → cbs = []) ∧ o.timers = 0 ∧
      o.pendingEventCount = 0 := by
  simp only [System.settled, Bool.and_eq_true, List.all_eq_true, List.mem_range, decide_eq_true_eq]
  constructor
  · rintro ⟨⟨hall, htimers⟩, hpending⟩
    refine ⟨?_, ?_, htimers, hpending⟩
    · intro u k f hu hpc
      have hready := (hall u hu).1
      rw [hpc] at hready
      exact of_decide_eq_true hready
    · intro u cbs hu hidle
      have hnone := (hall u hu).2
      rw [hidle] at hnone
      exact List.isEmpty_iff.1 hnone
  · rintro ⟨hready, hexpired, htimers, hpending⟩
    refine ⟨⟨?_, htimers⟩, hpending⟩
    intro u hu
    constructor
    · split
      · rename_i k f hpc
        exact decide_eq_true (hready u k f hu hpc)
      · rfl
    · split
      · rename_i cbs hidle
        exact List.isEmpty_iff.2 (hexpired u cbs hu hidle)
      · rfl

/-! ## A scheduler at rest -/

/-- The queue is empty, no thread has an entry of it, and none is about to
schedule a fiber. -/
structure Resting (s : State) : Prop where
  queue : s.queue = []
  active : ∀ t, t < s.size → (s.threads t).pc.active = false
  ready : ∀ t k f, t < s.size → (s.threads t).pc = .readReady k f → s.state f ≠ .ready

/-- No step of `run` makes a fiber `READY`. -/
theorem advance_ready (h : advance s t = some s') (hf : s'.state f = .ready) : s.state f = .ready := by
  have hwrite : ∀ g v, v ≠ FiberState.ready → Function.update s.state g v f = .ready → s.state f = .ready := by
    intro g v hv hg
    by_cases hfg : f = g
    · subst hfg
      exact absurd (by simpa using hg) hv
    · simpa [hfg] using hg
  cases hpc : (s.threads t).pc with
  | running k f | exited => simp [advance, hpc] at h
  | setExec k g =>
    simp only [advance, hpc, Option.some.injEq] at h
    subst h
    exact hwrite g .exec (by decide) hf
  | setInit g again =>
    simp only [advance, hpc, Option.some.injEq] at h
    subst h
    exact hwrite g .init (by decide) hf
  | setHold k g =>
    simp only [advance, hpc, Option.some.injEq] at h
    subst h
    exact hwrite g .hold (by decide) hf
  | prepare c =>
    simp only [advance, hpc] at h
    split at h <;> cases h
    · exact hf
    · exact hwrite s.fibers .init (by decide) hf
  | back k g =>
    cases k <;> simp only [advance, hpc, Option.some.injEq] at h <;> subst h <;> exact hf
  | pick | taken | reset | swapIn | readReady =>
    simp only [advance, hpc] at h
    split at h <;> cases h <;> exact hf
  | _ =>
    simp only [advance, hpc, Option.some.injEq] at h
    subst h
    exact hf

/-- A thread asks whether a fiber is `READY` only when it comes back from it. -/
theorem advance_readReady (h : advance s t = some s') (hpc : (s'.threads t).pc = .readReady k f) :
    (s.threads t).pc.active = true := by
  cases hq : (s.threads t).pc with
  | back k g =>
    cases k
    · rfl
    · rfl
    · simp only [advance, hq, Option.some.injEq] at h
      subst h
      simp at hpc
  | running | exited => simp [advance, hq] at h
  | pick | taken | reset | swapIn | readReady | prepare =>
    simp only [advance, hq] at h
    split at h <;> cases h <;> simp_all [Pc.active]
  | setInit g again =>
    simp only [advance, hq, Option.some.injEq] at h
    subst h
    cases again <;> simp at hpc
  | noTask =>
    simp only [advance, hq, Option.some.injEq] at h
    subst h
    simp only [State.goto_threads, Function.update_self] at hpc
    split at hpc <;> cases hpc
  | readFirst j g | readSecond j g =>
    simp only [advance, hq, Option.some.injEq] at h
    subst h
    simp only [State.goto_threads, Function.update_self] at hpc
    split at hpc
    · rcases finished_cases j g with hj | hj <;> rw [hj] at hpc <;> cases hpc
    · cases hpc
  | _ =>
    simp only [advance, hq, Option.some.injEq] at h
    subst h
    simp_all [Pc.active]

theorem Resting.advance (h : Resting s) (ht : t < s.size) (hadv : Sched.advance s t = some s') :
    Resting s' := by
  have heffect := advance_effect hadv
  have hidle := h.active t ht
  have hqueue : s'.queue = [] := by
    rcases advance_queue hadv with ⟨ft, rest, -, hscan, -⟩ | ⟨-, hqueue⟩
    · rw [h.queue] at hscan
      cases hscan
    · rw [hqueue, h.queue, List.nil_append, List.eq_nil_iff_forall_not_mem]
      intro e he
      obtain ⟨k, f, hpc, hready, -⟩ := entered_ready he
      exact h.ready t k f ht hpc hready
  have hactive : (s'.threads t).pc.active = false := by
    cases heffect with
    | abort => exact hidle
    | take hpc hscan =>
      rw [h.queue] at hscan
      cases hscan
    | jump hpc ha _ _ => simp [ha, ← hpc, hidle]
    | construct hpc _ => simp [hpc, Pc.active] at hidle
    | endActive _ _ ha _ _ => simp [ha]
    | release | requeue | beginIdle | endIdle => simp [Pc.active]
  refine ⟨hqueue, ?_, ?_⟩
  · intro u hu
    rw [heffect.size] at hu
    by_cases hut : u = t
    · rw [hut]
      exact hactive
    · rw [heffect.others hut]
      exact h.active u hu
  · intro u k f hu hpc hready
    rw [heffect.size] at hu
    by_cases hut : u = t
    · subst hut
      rw [advance_readReady hadv hpc] at hidle
      cases hidle
    · rw [heffect.others hut] at hpc
      exact h.ready u k f hu hpc (advance_ready hadv hready)

/-- A scheduler at rest stays so while nobody schedules anything and no fiber
yields to `READY`. -/
theorem Resting.step {a : Action} (h : Resting s) (hs : Sched.step s a = some s')
    (htasks : ∀ tasks, a = .schedule tasks → tasks = [])
    (hready : ∀ u v, a = .suspend u v → v ≠ .ready) : Resting s' := by
  rcases step_cases hs with ⟨rfl, rfl⟩ | ⟨tasks, rfl, -, rfl⟩ | ⟨u, rfl, hu, hadv⟩ |
    ⟨u, v, j, g, rfl, hu, hpc, rfl⟩
  · refine ⟨h.queue, h.active, ?_⟩
    intro t k f ht hpc hf
    by_cases hfg : f = s.fibers
    · simp [hfg] at hf
    · exact h.ready t k f ht hpc (by simpa [hfg] using hf)
  · rw [htasks tasks rfl]
    exact ⟨by simpa using h.queue, h.active, h.ready⟩
  · exact h.advance hu hadv
  · have hidle := h.active u hu
    refine ⟨h.queue, ?_, ?_⟩
    · intro t ht
      by_cases htu : t = u
      · subst htu
        rw [hpc] at hidle
        simp only [State.goto_threads, Function.update_self]
        exact hidle
      · simpa [htu] using h.active t ht
    · intro t k f ht hpc' hf
      by_cases htu : t = u
      · simp [htu] at hpc'
      · by_cases hfg : f = g
        · exact hready u v rfl (by simpa [hfg] using hf)
        · exact h.ready t k f ht (by simpa [htu] using hpc') (by simpa [hfg] using hf)

/-! ## The invariant -/

variable {io : Bool} {o o' : System} {m : Move}

/-- The threads that have triggered an event and not yet counted it. -/
def System.triggering (o : System) : Nat := (List.range o.sched.size).countP fun u => o.idle u = .triggered

theorem System.triggering_goto (o : System) (ht : t < o.sched.size) (i : Idle) :
    ((o.goto t i).triggering : Int) + (decide (o.idle t = .triggered)).toInt =
      o.triggering + (decide (i = .triggered)).toInt := by
  have hchange := @countP_change (fun u => decide (Function.update o.idle t i u = .triggered))
    (fun u => decide (o.idle u = .triggered)) t o.sched.size ht fun u hu => by simp [hu]
  rw [Function.update_self] at hchange
  exact hchange

/-- After `stopping()` has returned true. -/
structure Quiet (o : System) : Prop where
  stopping : o.stopping = true
  resting : Resting o.sched
  timers : o.timers = 0
  registered : o.registered = 0
  expired : ∀ t cbs, t < o.sched.size → o.idle t = .handOut cbs → cbs = []

structure Sound (o : System) : Prop where
  counted : Counted o.sched
  /-- An event is counted until its task is in the queue. -/
  pending : o.pendingEventCount = o.registered + o.triggering
  quiet : o.stopped = true → Quiet o

theorem sound_init (io : Bool) (size : Nat) : Sound (.init io size) := by
  refine ⟨counted_init size, ?_, fun hs => by cases hs⟩
  have hnone : (System.init io size).triggering = 0 := by
    refine List.countP_eq_zero.2 ?_
    intro u _
    cases io <;> simp [System.init, Idle.ask]
  rw [hnone]
  rfl

theorem Quiet.silent (h : Quiet o) : Silent o := by
  refine ⟨?_, h.resting.ready, h.expired⟩
  intro t k f ht hpc
  have hidle := h.resting.active t ht
  rw [hpc] at hidle
  simpa [Pc.active] using hidle

theorem step_size {a : Action} (h : step s a = some s') : s'.size = s.size := by
  rcases step_cases h with ⟨-, rfl⟩ | ⟨tasks, -, -, rfl⟩ | ⟨u, -, -, hadv⟩ | ⟨u, v, j, g, -, -, -, rfl⟩
  · rfl
  · rfl
  · exact (advance_effect hadv).size
  · rfl

theorem move_cases {a : Action} (h : o.move a = some o') :
    ∃ s', step o.sched a = some s' ∧ o' = { o with sched := s' } := by
  obtain ⟨s', hstep, rfl⟩ := Option.map_eq_some_iff.1 h
  exact ⟨s', hstep, rfl⟩

namespace Sound

/-- A step of the scheduler. Nothing is scheduled once `stopping()` has returned
true. -/
theorem move {a : Action} (h : Sound o) (hmove : o.move a = some o')
    (htasks : o.stopped = true → ∀ tasks, a = .schedule tasks → tasks = [])
    (hready : o.stopped = true → ∀ u v, a = .suspend u v → v ≠ .ready) : Sound o' := by
  obtain ⟨s', hstep, rfl⟩ := move_cases hmove
  have hsize := step_size hstep
  refine ⟨counted_step h.counted hstep, ?_, ?_⟩
  · show o.pendingEventCount = o.registered + ((List.range s'.size).countP fun u => o.idle u = .triggered : Nat)
    rw [hsize]
    exact h.pending
  · intro hs
    have hq := h.quiet hs
    refine ⟨hq.stopping, hq.resting.step hstep (htasks hs) (hready hs), hq.timers, hq.registered, ?_⟩
    intro t cbs ht
    exact hq.expired t cbs (by rwa [← hsize])

/-- The idle fiber of `t` goes on. It may take timers and events, and an event
that it takes is counted until the next step. -/
theorem turn (h : Sound o) (ht : t < o.sched.size) (i : Idle) (timers registered : Nat) (pending : Int)
    (hcount : pending - registered + (decide (o.idle t = .triggered)).toInt =
      o.pendingEventCount - o.registered + (decide (i = .triggered)).toInt)
    (hquiet : o.stopped = true → timers = 0 ∧ registered = 0 ∧ ∀ cbs, i = .handOut cbs → cbs = []) :
    Sound ({ o with timers := timers, registered := registered, pendingEventCount := pending }.goto t i) := by
  have hpending := h.pending
  refine ⟨h.counted, ?_, ?_⟩
  · have hchange := o.triggering_goto ht i
    show pending = registered + ((o.goto t i).triggering : Int)
    omega
  · intro hs
    have hq := h.quiet hs
    obtain ⟨htimers, hregistered, hcbs⟩ := hquiet hs
    refine ⟨hq.stopping, hq.resting, htimers, hregistered, ?_⟩
    intro u cbs hu hidle
    by_cases hut : u = t
    · subst hut
      exact hcbs cbs (by simpa [System.goto] using hidle)
    · exact hq.expired u cbs hu (by simpa [System.goto, hut] using hidle)

theorem goto (h : Sound o) (ht : t < o.sched.size) {i : Idle} (hold : o.idle t ≠ .triggered)
    (hnew : i ≠ .triggered)
    (hcbs : ∀ cbs, i ≠ .handOut cbs) : Sound (o.goto t i) := by
  refine h.turn ht i o.timers o.registered o.pendingEventCount (by simp [hold, hnew]) ?_
  intro hs
  exact ⟨(h.quiet hs).timers, (h.quiet hs).registered, fun cbs hi => absurd hi (hcbs cbs)⟩

/-- `stopping()` returns true. -/
theorem quit (h : Sound o) (ht : t < o.sched.size) (hold : o.idle t = .check) (hquits : o.quits = true)
    (hsettled : o.settled = true) : Sound ({ o with stopped := true }.goto t .exit) := by
  obtain ⟨hready, hexpired, htimers, hpending⟩ := settled_iff.1 hsettled
  simp only [System.quits, Bool.and_eq_true, List.isEmpty_iff, decide_eq_true_eq] at hquits
  obtain ⟨⟨⟨-, hstopping⟩, hqueue⟩, hactive⟩ := hquits
  have hcount := h.pending
  have hnone : count Pc.active o.sched = 0 := by
    have hcounted := h.counted.active
    omega
  have hregistered : o.registered = 0 := by omega
  have hquiet : Quiet { o with stopped := true } := by
    refine ⟨hstopping, ⟨hqueue, ?_, hready⟩, htimers, hregistered, hexpired⟩
    intro u hu
    have hu' := List.countP_eq_zero.1 hnone u (List.mem_range.2 hu)
    simpa using hu'
  have hsound : Sound { o with stopped := true } := ⟨h.counted, h.pending, fun _ => hquiet⟩
  exact hsound.goto ht (by simp [hold]) (by decide) (fun cbs hi => by cases hi)

/-- Work of a thread that does not know of the end. -/
theorem work {w : Work} (h : Sound o) (hw : o.work io w = some o') (hnot : o.stopped = false) : Sound o' := by
  unfold System.work at hw
  split at hw
  · cases hw
  · have hnever : ¬ o.stopped = true := by simp [hnot]
    have hpending := h.pending
    have hsound : Sound { o with
        timers := w.timers
        registered := w.registered
        pendingEventCount := o.pendingEventCount + w.registered - o.registered } := by
      refine ⟨h.counted, ?_, fun hs => absurd hs hnever⟩
      show o.pendingEventCount + w.registered - o.registered = w.registered + (o.triggering : Int)
      omega
    exact hsound.move hw (fun hs => absurd hs hnever) (fun hs => absurd hs hnever)

/-- A thread that works is not at rest. -/
theorem not_stopped (h : Sound o) (ht : t < o.sched.size) (hworks : works o.sched t = true) :
    o.stopped = false := by
  cases hs : o.stopped with
  | false => rfl
  | true =>
    have hidle := (h.quiet hs).resting.active t ht
    unfold works at hworks
    split at hworks
    · rename_i k f hpc
      rw [hpc] at hidle
      simp [Pc.active, of_decide_eq_true hworks] at hidle
    · cases hworks

/-- Without timers `listExpiredCb` returns nothing. -/
theorem expire {cbs : List CallbackId} {timers : Nat} (h : Sound o) (ht : t < o.sched.size)
    (hidle : o.idle t = .expire)
    (hcbs : cbs.length ≤ o.timers) (htimers : timers ≤ o.timers) :
    Sound ({ o with timers := timers }.goto t (.handOut cbs)) := by
  refine h.turn ht (.handOut cbs) timers o.registered o.pendingEventCount (by simp [hidle]) ?_
  intro hs
  have hnone := (h.quiet hs).timers
  refine ⟨by omega, (h.quiet hs).registered, ?_⟩
  intro cbs' hi
  obtain rfl := Idle.handOut.inj hi
  exact List.length_eq_zero_iff.1 (by omega)

theorem handOut {cbs : List CallbackId} (h : Sound o) (ht : t < o.sched.size) (hidle : o.idle t = .handOut cbs)
    (hm : (o.goto t .dispatch).move (.schedule (cbs.map fun c => ⟨none, some c, none⟩)) = some o') :
    Sound o' := by
  have hgoto : Sound (o.goto t .dispatch) := h.goto ht (by simp [hidle]) (by decide) (fun cbs hi => by cases hi)
  refine hgoto.move hm ?_ (fun _ u v ha => by cases ha)
  intro hs tasks ha
  obtain rfl := (h.quiet hs).expired t cbs ht hidle
  exact (Action.schedule.inj ha).symm

/-- Without events none is triggered. -/
theorem trigger {task : FiberAndThread} (h : Sound o) (ht : t < o.sched.size) (hidle : o.idle t = .dispatch)
    (hsome : o.registered ≠ 0)
    (hm : ({ o with registered := o.registered - 1 }.goto t .triggered).move (.schedule [task]) =
      some o') : Sound o' := by
  have hturn : Sound ({ o with registered := o.registered - 1 }.goto t .triggered) := by
    refine h.turn ht .triggered o.timers (o.registered - 1) o.pendingEventCount ?_ ?_
    · rw [hidle]
      simp
      omega
    · intro hs
      exact absurd (h.quiet hs).registered hsome
  refine hturn.move hm ?_ (fun _ u v ha => by cases ha)
  intro hs
  exact absurd (h.quiet hs).registered hsome

theorem idleStep {m : IdleMove} (h : Sound o) (ht : t < o.sched.size) (hsettles : o.settles (.idle t m) = true)
    (hm : o.idleStep io t m = some o') : Sound o' := by
  unfold System.idleStep at hm
  split at hm
  -- `nextTimer`
  · rename_i hidle
    obtain rfl := Option.some.inj hm
    refine h.goto ht (by simp [hidle]) ?_ ?_ <;> split <;> simp
  -- `pending`
  · rename_i hidle
    obtain rfl := Option.some.inj hm
    refine h.goto ht (by simp [hidle]) ?_ ?_ <;> split <;> simp
  -- `check`
  · rename_i hidle
    split at hm
    · rename_i hquits
      obtain rfl := Option.some.inj hm
      exact h.quit ht hidle hquits (by simpa [System.settles, hidle, hquits] using hsettles)
    · obtain rfl := Option.some.inj hm
      refine h.goto ht (by simp [hidle]) ?_ ?_ <;> split <;> simp
  -- `wait`
  · rename_i hidle
    obtain rfl := Option.some.inj hm
    exact h.goto ht (by simp [hidle]) (by decide) (fun cbs hi => by cases hi)
  -- `expire`
  · rename_i cbs timers hidle
    split at hm
    · rename_i htaken
      obtain rfl := Option.some.inj hm
      exact h.expire ht hidle htaken.1 htaken.2.1
    · cases hm
  -- `handOut`
  · rename_i cbs hidle
    exact h.handOut ht hidle hm
  -- `dispatch`, an event
  · rename_i task hidle
    split at hm
    · cases hm
    · rename_i hsome
      exact h.trigger ht hidle hsome hm
  -- `triggered`
  · rename_i hidle
    obtain rfl := Option.some.inj hm
    refine h.turn ht .dispatch o.timers o.registered (o.pendingEventCount - 1) ?_ ?_
    · rw [hidle]
      simp
      omega
    · intro hs
      exact ⟨(h.quiet hs).timers, (h.quiet hs).registered, fun cbs hi => by cases hi⟩
  -- `dispatch`, no event is left
  · rename_i hidle
    obtain rfl := Option.some.inj hm
    exact h.goto ht (by simp [hidle]) (by decide) (fun cbs hi => by cases hi)
  -- `yield`
  · rename_i hidle
    have hgoto : Sound (o.goto t (.ask io)) := by
      refine h.goto ht (by simp [hidle]) ?_ ?_ <;> cases io <;> simp [Idle.ask]
    refine hgoto.move hm (fun _ tasks ha => by cases ha) ?_
    rintro _ u v ha rfl
    cases ha
  -- `exit`
  · refine h.move hm (fun _ tasks ha => by cases ha) ?_
    rintro _ u v ha rfl
    cases ha
  · cases hm

theorem step (h : Sound o) (hsettles : o.settles m = true) (hm : o.step io m = some o') : Sound o' := by
  unfold System.step at hm
  split at hm
  · cases hm
  · cases m with
    | create => exact h.move hm (fun _ tasks ha => by cases ha) (fun _ u v ha => by cases ha)
    | autoStop =>
      obtain rfl := Option.some.inj hm
      refine ⟨h.counted, h.pending, fun hs => ?_⟩
      have hq := h.quiet hs
      exact ⟨hq.stopping, hq.resting, hq.timers, hq.registered, hq.expired⟩
    | stop =>
      dsimp only at hm
      split at hm
      · obtain rfl := Option.some.inj hm
        refine ⟨h.counted, h.pending, fun hs => ?_⟩
        have hq := h.quiet hs
        exact ⟨rfl, hq.resting, hq.timers, hq.registered, hq.expired⟩
      · cases hm
    | outside w =>
      dsimp only at hm
      split at hm
      · cases hm
      · rename_i hopen
        refine h.work hm ?_
        by_contra hs
        exact hopen (h.quiet (by simpa using hs)).stopping
    | advance t => exact h.move hm (fun _ tasks ha => by cases ha) (fun _ u v ha => by cases ha)
    | work t w =>
      dsimp only at hm
      split at hm
      · rename_i hw
        exact h.work hm (h.not_stopped hw.1 hw.2)
      · cases hm
    | suspend t v =>
      dsimp only at hm
      split at hm
      · rename_i hw
        have hnever : ¬ o.stopped = true := by simp [h.not_stopped hw.1 hw.2]
        exact h.move hm (fun hs => absurd hs hnever) (fun hs => absurd hs hnever)
      · cases hm
    | idle t m =>
      dsimp only at hm
      split at hm
      · rename_i hi
        exact h.idleStep hi.1 hsettles hm
      · cases hm

end Sound

/-! ## Runs -/

/-- Steps of one thread. -/
def advances (t : ThreadId) (n : Nat) : List Move := List.replicate n (.advance t)

def idles (t : ThreadId) (n : Nat) : List Move := List.replicate n (.idle t .next)

/-- A fiber yields to `READY`, runs again and terminates, and the only thread
asks whether to stop. -/
def settledStop : List Move :=
  [.create, .outside ⟨[⟨some 1, none, none⟩], 0, 0⟩, .autoStop, .stop] ++ advances 0 7 ++ [.suspend 0 .ready] ++
    advances 0 11 ++ [.suspend 0 .term] ++ advances 0 12 ++ idles 0 3

/-- A fiber has yielded to `READY` and is not yet in the queue again. -/
def readyStop : List Move :=
  [.create, .outside ⟨[⟨some 2, none, none⟩], 0, 0⟩, .autoStop, .stop] ++ advances 0 7 ++ advances 1 7 ++
    [.suspend 0 .ready] ++ advances 0 3 ++ idles 1 1 ++ advances 0 8

/-- A callback has expired and is not yet in the queue. -/
def expiredStop : List Move :=
  [.outside ⟨[], 1, 0⟩, .autoStop, .stop] ++ advances 0 7 ++ idles 0 2 ++
    [.idle 0 (.expire [5] 0)] ++ advances 1 7 ++
    idles 1 3 ++ idles 0 3 ++ advances 0 13

/-- A fiber adds a timer after another thread has seen that there is none. -/
def timerStop : List Move :=
  [.create, .outside ⟨[⟨some 2, none, none⟩], 0, 0⟩, .autoStop, .stop] ++ advances 0 7 ++
    advances 1 7 ++ idles 1 1 ++
    [.work 0 ⟨[], 1, 0⟩, .suspend 0 .term] ++ advances 0 3 ++ idles 1 2 ++ advances 0 9 ++ idles 0 2 ++
    [.idle 0 (.expire [5] 0)] ++ idles 0 3 ++ advances 0 13

/-- After `stopping()` has returned true, thread 0 runs a fiber or a callback. -/
def runsLate (o : System) : Bool :=
  o.stopped && decide (0 < o.sched.size) &&
    match (o.sched.threads 0).pc with
    | .running k _ => k ≠ .idle
    | _ => false

theorem runsLate_not_silent (h : runsLate o = true) : o.stopped = true ∧ ¬ Silent o := by
  simp only [runsLate, Bool.and_eq_true, decide_eq_true_eq] at h
  obtain ⟨⟨hs, hsize⟩, hlate⟩ := h
  refine ⟨hs, ?_⟩
  intro hsilent
  split at hlate
  · rename_i k f hpc
    exact of_decide_eq_true hlate (hsilent.runs 0 k f hsize hpc)
  · cases hlate

/-- A run of these moves ends with `stopping()` having returned true and
something still running. -/
def Unsound (io : Bool) (moves : List Move) : Prop :=
  ∃ hist o, Run (System.step io) (.init io 2) hist o ∧ (hist.map fun y => y.2) = moves ∧
    o.stopped = true ∧ ¬ Silent o

theorem unsound_of_go {moves : List Move} (h : ((go (System.step io) [] (.init io 2) moves).any fun r =>
    decide ((r.1.map fun y => y.2) = moves) && runsLate r.2) = true) : Unsound io moves := by
  obtain ⟨hist, o, hrun, hp⟩ := @exists_run _ _ (System.step io) (.init io 2) moves
    (fun hist o => decide ((hist.map fun y => y.2) = moves) && runsLate o) h
  obtain ⟨hmoves, hlate⟩ := Bool.and_eq_true_iff.1 hp
  exact ⟨hist, o, hrun, of_decide_eq_true hmoves, runsLate_not_silent hlate⟩

end Linko.Sched
