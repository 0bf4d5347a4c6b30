import Mathlib.Logic.Function.Basic
import Mathlib.Tactic.Simps.Basic
import Linko.Lib.Runs
/-!
# The scheduler

`Scheduler::run` on any number of threads, with the parts of `Fiber` it uses.
A step is one queue critical section, one read or write of an `m_state` or of
a counter, or one half of a context switch; between two steps of a thread any
other may step. Each thread is at one place of the code, its `Pc`. What a
fiber does while it runs is left open, but for how it gives up the thread.
`tickle` and the virtual `idle` change nothing here and are left out.
-/

namespace Linko.Sched

/-- Thread ids. The `-1` of an entry that any thread may take is `none`. -/
abbrev ThreadId := Nat

abbrev FiberId := Nat

abbrev CallbackId := Nat

/-- `Fiber::State` -/
inductive FiberState where
  | init
  | hold
  | exec
  | term
  | ready
  | except
  deriving DecidableEq, Repr

/-- An entry of `m_fibers`. -/
structure FiberAndThread where
  fiber : Option FiberId
  cb : Option CallbackId
  thread : Option ThreadId
  deriving DecidableEq, Repr

/-- `ft.fiber || ft.cb` -/
def FiberAndThread.nonNull (e : FiberAndThread) : Bool := e.fiber.isSome || e.cb.isSome

/-- The three places where `run` switches to a fiber: one from the queue, the
one it runs callbacks in, and its idle fiber. -/
inductive Kind where
  | fiber
  | cb
  | idle
  deriving DecidableEq, Repr

/-- Which final state is looked at first behind a switch, and which then. -/
def Kind.first : Kind → FiberState
  | .cb => .except
  | _ => .term

def Kind.second : Kind → FiberState
  | .cb => .term
  | _ => .except

/-- Where a thread is: the next step it takes. -/
inductive Pc where
  /-- The critical section that takes an entry out of the queue. -/
  | pick
  /-- `ft.fiber->getState() != Fiber::TERM` -/
  | taken (ft : FiberAndThread)
  /-- `ft.fiber->getState() != Fiber::EXCEPT` -/
  | notTerm (ft : FiberAndThread) (f : FiberId)
  /-- `--m_activeThreadCount`, with nothing to run. -/
  | giveUp
  /-- `cb_fiber->reset(ft.cb)` or `cb_fiber.reset(new Fiber(ft.cb))` -/
  | prepare (c : CallbackId)
  /-- The assertion in `reset`, for the callback just taken or for a null one. -/
  | reset (f : FiberId) (again : Bool)
  /-- `m_state = INIT` in `reset` -/
  | setInit (f : FiberId) (again : Bool)
  /-- `idle_fiber->getState() == Fiber::TERM` -/
  | noTask
  /-- `++m_idleThreadCount` -/
  | countIdle
  /-- `LINKO_ASSERT(m_state != EXEC)` in `swapIn` -/
  | swapIn (k : Kind) (f : FiberId)
  /-- `m_state = EXEC` -/
  | setExec (k : Kind) (f : FiberId)
  /-- The first half of the switch: the context of the main fiber is saved. -/
  | save (k : Kind) (f : FiberId)
  /-- The second half: the context of `f` is entered. -/
  | enter (k : Kind) (f : FiberId)
  /-- On the stack of `f`. -/
  | running (k : Kind) (f : FiberId)
  /-- In `swapOut`, still on the stack of `f`: its context is saved. -/
  | leave (k : Kind) (f : FiberId)
  /-- The context of the main fiber is entered. -/
  | resume (k : Kind) (f : FiberId)
  /-- `--m_activeThreadCount` or `--m_idleThreadCount` -/
  | back (k : Kind) (f : FiberId)
  /-- `getState() == Fiber::READY`, and then `schedule` -/
  | readReady (k : Kind) (f : FiberId)
  | readFirst (k : Kind) (f : FiberId)
  | readSecond (k : Kind) (f : FiberId)
  /-- `m_state = Fiber::HOLD` -/
  | setHold (k : Kind) (f : FiberId)
  | exited
  deriving DecidableEq, Repr

structure Thread where
  pc : Pc
  /-- `cb_fiber`, a null pointer at first. -/
  cbFiber : Option FiberId

/-- The counters are integers: a `size_t` that underflows would be negative. -/
structure State where
  /-- The number of threads in `run`, with the ids `0 .. size - 1`. -/
  size : Nat
  threads : ThreadId → Thread
  /-- The number of fibers constructed so far. The first ones are the idle
  fibers of the threads, each under the id of its thread. -/
  fibers : Nat
  state : FiberId → FiberState
  /-- `m_fibers` -/
  queue : List FiberAndThread
  activeThreadCount : Int
  idleThreadCount : Int
  /-- An assertion has failed. -/
  aborted : Bool

def init (size : Nat) : State where
  size := size
  threads _ := ⟨.pick, none⟩
  fibers := size
  state _ := .init
  queue := []
  activeThreadCount := 0
  idleThreadCount := 0
  aborted := false

namespace State

variable (s : State)

@[simps] def goto (t : ThreadId) (pc : Pc) : State :=
  { s with threads := Function.update s.threads t ⟨pc, (s.threads t).cbFiber⟩ }

@[simps] def setCbFiber (t : ThreadId) (f : Option FiberId) : State :=
  { s with threads := Function.update s.threads t ⟨(s.threads t).pc, f⟩ }

@[simps] def write (f : FiberId) (v : FiberState) : State := { s with state := Function.update s.state f v }

@[simps] def abort : State := { s with aborted := true }

/-- `scheduleNoLock` for each of the tasks. -/
@[simps] def schedule (tasks : List FiberAndThread) : State :=
  { s with queue := s.queue ++ tasks.filter FiberAndThread.nonNull }

end State

/-! ## Taking an entry -/

/-- How the scan of the queue ends. -/
inductive Scan where
  | nothing
  | failed
  | took (ft : FiberAndThread) (rest : List FiberAndThread)
  deriving DecidableEq, Repr

/-- Past an entry that is left in the queue. -/
def Scan.behind (e : FiberAndThread) : Scan → Scan
  | .took ft rest => .took ft (e :: rest)
  | r => r

def scan (state : FiberId → FiberState) (t : ThreadId) : List FiberAndThread → Scan
  | [] => .nothing
  | e :: es =>
    if e.thread ≠ none ∧ e.thread ≠ some t then (scan state t es).behind e
    else if e.nonNull = false then .failed
    else if e.fiber.any (fun f => state f = .exec) then (scan state t es).behind e
    else .took e es

theorem Scan.behind_took {r : Scan} {e ft : FiberAndThread} {rest : List FiberAndThread}
    (h : r.behind e = .took ft rest) :
    ∃ rest', r = .took ft rest' ∧ rest = e :: rest' := by
  cases r with
  | took ft' rest' =>
    rw [Scan.behind, Scan.took.injEq] at h
    obtain ⟨rfl, rfl⟩ := h
    exact ⟨rest', rfl, rfl⟩
  | nothing => cases h
  | failed => cases h

/-- What a scan takes is an entry that does not name another thread, and the
others stay. -/
theorem scan_took {state : FiberId → FiberState} {t : ThreadId} {es rest : List FiberAndThread}
    {ft : FiberAndThread}
    (h : scan state t es = .took ft rest) : es.Perm (ft :: rest) ∧ (ft.thread = none ∨ ft.thread = some t) := by
  induction es generalizing rest with
  | nil => cases h
  | cons e es ih =>
    -- an entry that is passed over stays in the queue
    have hbehind : (scan state t es).behind e = .took ft rest →
        (e :: es).Perm (ft :: rest) ∧ (ft.thread = none ∨ ft.thread = some t) := by
      intro hb
      obtain ⟨rest', hs, rfl⟩ := Scan.behind_took hb
      obtain ⟨hperm, hthread⟩ := ih hs
      exact ⟨(hperm.cons e).trans (List.Perm.swap _ _ _), hthread⟩
    rw [scan] at h
    split at h
    · exact hbehind h
    · rename_i hpin
      split at h
      · cases h
      · split at h
        · exact hbehind h
        · rw [Scan.took.injEq] at h
          obtain ⟨rfl, rfl⟩ := h
          refine ⟨List.Perm.refl _, ?_⟩
          by_contra hnot
          exact hpin (not_or.1 hnot)

theorem scan_perm {state : FiberId → FiberState} {t : ThreadId} {es rest : List FiberAndThread}
    {ft : FiberAndThread}
    (h : scan state t es = .took ft rest) : es.Perm (ft :: rest) := (scan_took h).1

/-- An entry that `t` may take. -/
def Eligible (state : FiberId → FiberState) (t : ThreadId) (e : FiberAndThread) : Prop :=
  (e.thread = none ∨ e.thread = some t) ∧ ∀ f, e.fiber = some f → state f ≠ .exec

/-- In a queue without null entries a scan takes the first entry that may be
taken and leaves the others in their order. -/
theorem scan_cases {state : FiberId → FiberState} {t : ThreadId} {es : List FiberAndThread}
    (h : ∀ e ∈ es, e.nonNull = true) :
    (scan state t es = .nothing ∧ ∀ e ∈ es, ¬ Eligible state t e) ∨
      ∃ pre e post, es = pre ++ e :: post ∧ (∀ d ∈ pre, ¬ Eligible state t d) ∧ Eligible state t e ∧
        scan state t es = .took e (pre ++ post) := by
  induction es with
  | nil => exact .inl ⟨rfl, nofun⟩
  | cons d es ih =>
    have hnull := h d List.mem_cons_self
    -- an entry that stays in the queue
    have hskip (hd : ¬ Eligible state t d) (hs : scan state t (d :: es) = (scan state t es).behind d) :
        (scan state t (d :: es) = .nothing ∧ ∀ e ∈ d :: es, ¬ Eligible state t e) ∨
          ∃ pre e post, d :: es = pre ++ e :: post ∧ (∀ d ∈ pre, ¬ Eligible state t d) ∧ Eligible state t e ∧
            scan state t (d :: es) = .took e (pre ++ post) := by
      rcases ih fun e he => h e (List.mem_cons_of_mem d he) with ⟨hn, hall⟩ |
        ⟨pre, e, post, rfl, hpre, he, htook⟩
      · exact .inl ⟨by rw [hs, hn]; rfl, List.forall_mem_cons.2 ⟨hd, hall⟩⟩
      · exact .inr ⟨d :: pre, e, post, rfl, List.forall_mem_cons.2 ⟨hd, hpre⟩, he, by rw [hs, htook]; rfl⟩
    -- the two reasons to pass over an entry: its thread, and a fiber that runs elsewhere
    by_cases hpin : d.thread ≠ none ∧ d.thread ≠ some t
    · refine hskip (fun he => ?_) (by rw [scan, if_pos hpin])
      rcases he.1 with h0 | h1
      · exact hpin.1 h0
      · exact hpin.2 h1
    · have hthread : d.thread = none ∨ d.thread = some t := by
        by_contra hc
        exact hpin (not_or.1 hc)
      by_cases hexec : d.fiber.any (fun f => state f = .exec)
      · refine hskip (fun he => ?_) (by rw [scan, if_neg hpin, if_neg (by rw [hnull]; decide), if_pos hexec])
        cases hf : d.fiber with
        | none =>
          rw [hf] at hexec
          cases hexec
        | some f =>
          rw [hf] at hexec
          exact he.2 f hf (of_decide_eq_true hexec)
      · refine .inr ⟨[], d, es, rfl, nofun, ⟨hthread, fun f hf hx => hexec ?_⟩, ?_⟩
        · rw [hf]
          exact decide_eq_true hx
        · rw [scan, if_neg hpin, if_neg (by rw [hnull]; decide), if_neg hexec]
          rfl

/-! ## Steps -/

/-- Behind `ft.fiber`, when there is none or it has finished. -/
def FiberAndThread.otherwise (e : FiberAndThread) : Pc :=
  match e.cb with
  | some c => .prepare c
  | none => .giveUp

/-- Behind a switch, when the fiber has finished. -/
def Kind.finished (k : Kind) (f : FiberId) : Pc :=
  match k with
  | .cb => .reset f false
  | _ => .pick

/-- `cb_fiber.reset()` in the branch for callbacks. -/
@[simps] def State.release (s : State) (k : Kind) (t : ThreadId) : State :=
  { s with
    threads := Function.update s.threads t ⟨(s.threads t).pc, if k = .cb then none else (s.threads t).cbFiber⟩ }

/-- The next step of thread `t`. It is up to the fiber when `t` runs one. -/
def advance (s : State) (t : ThreadId) : Option State :=
  match (s.threads t).pc with
  | .pick =>
    match scan s.state t s.queue with
    | .nothing => some (s.goto t .noTask)
    | .failed => some s.abort
    | .took ft rest =>
      some ({ s with queue := rest, activeThreadCount := s.activeThreadCount + 1 }.goto t (.taken ft))
  | .taken ft =>
    match ft.fiber with
    | some f => some (s.goto t (if s.state f = .term then ft.otherwise else .notTerm ft f))
    | none => some (s.goto t ft.otherwise)
  | .notTerm ft f => some (s.goto t (if s.state f = .except then ft.otherwise else .swapIn .fiber f))
  | .giveUp => some ({ s with activeThreadCount := s.activeThreadCount - 1 }.goto t .pick)
  | .prepare _ =>
    match (s.threads t).cbFiber with
    | some f => some (s.goto t (.reset f true))
    | none =>
      let f := s.fibers
      some ((({ s with fibers := f + 1 }.write f .init).setCbFiber t (some f)).goto t (.swapIn .cb f))
  | .reset f again =>
    if s.state f = .term ∨ s.state f = .except ∨ s.state f = .init then some (s.goto t (.setInit f again))
    else some s.abort
  | .setInit f again => some ((s.write f .init).goto t (if again then .swapIn .cb f else .pick))
  | .noTask => some (s.goto t (if s.state t = .term then .exited else .countIdle))
  | .countIdle => some ({ s with idleThreadCount := s.idleThreadCount + 1 }.goto t (.swapIn .idle t))
  | .swapIn k f => if s.state f = .exec then some s.abort else some (s.goto t (.setExec k f))
  | .setExec k f => some ((s.write f .exec).goto t (.save k f))
  | .save k f => some (s.goto t (.enter k f))
  | .enter k f => some (s.goto t (.running k f))
  | .running _ _ => none
  | .leave k f => some (s.goto t (.resume k f))
  | .resume k f => some (s.goto t (.back k f))
  | .back .idle f => some ({ s with idleThreadCount := s.idleThreadCount - 1 }.goto t (.readFirst .idle f))
  | .back k f => some ({ s with activeThreadCount := s.activeThreadCount - 1 }.goto t (.readReady k f))
  | .readReady k f =>
    if s.state f = .ready then some (((s.schedule [⟨some f, none, none⟩]).release k t).goto t .pick)
    else some (s.goto t (.readFirst k f))
  | .readFirst k f => some (s.goto t (if s.state f = k.first then k.finished f else .readSecond k f))
  | .readSecond k f => some (s.goto t (if s.state f = k.second then k.finished f else .setHold k f))
  | .setHold k f => some (((s.write f .hold).release k t).goto t .pick)
  | .exited => none

inductive Action where
  /-- Any thread constructs a fiber. -/
  | create
  /-- Any thread, a timer or an event schedules one task or, under one lock, several. -/
  | schedule (tasks : List FiberAndThread)
  | advance (t : ThreadId)
  /-- The fiber that `t` runs sets its `m_state` on the way to `swapOut`: in
  `YieldToHold`, in `YieldToReady` or at the end of `MainFunc`. -/
  | suspend (t : ThreadId) (v : FiberState)
  deriving DecidableEq, Repr

/-- The states in which a running fiber gives up its thread. -/
def FiberState.suspended : FiberState → Bool
  | .hold | .ready | .term | .except => true
  | _ => false

def step (s : State) (a : Action) : Option State :=
  if s.aborted then none
  else
    match a with
    | .create => some ({ s with fibers := s.fibers + 1 }.write s.fibers .init)
    | .schedule tasks =>
      if ∀ e ∈ tasks, ∀ f, e.fiber = some f → f < s.fibers then some (s.schedule tasks) else none
    | .advance t => if t < s.size then advance s t else none
    | .suspend t v =>
      match (s.threads t).pc with
      | .running k f => if t < s.size ∧ v.suspended then some ((s.write f v).goto t (.leave k f)) else none
      | _ => none

end Linko.Sched
