import Mathlib.Logic.Function.Basic
import Mathlib.Tactic.Simps.Basic
import Linko.Lib.Runs
/-!
# The events of the file descriptors

`iomanager.cc`. An `FdContext` says which events of a descriptor are registered
and what to schedule when one comes. The kernel has an interest set of its own,
which `epoll_ctl` writes. Every operation is one step, as it runs under the
mutex of the context; the outcome of its `epoll_ctl` is an argument. An
assertion that does not hold ends the step with a fault.
-/

namespace Linko.Io

abbrev Fd := Nat

abbrev FiberId := Nat

abbrev CallbackId := Nat

abbrev SchedulerId := Nat

/-- `READ = 0x1` and `WRITE = 0x4`, which are the bits of `EPOLLIN` and
`EPOLLOUT`. -/
inductive Event where
  | read
  | write
  deriving DecidableEq, Repr

/-- A mask of these bits. -/
structure Events where
  read : Bool
  write : Bool
  deriving DecidableEq, Repr

namespace Events

/-- `NONE` -/
def none : Events := ⟨false, false⟩

/-- `m & event` -/
def has (m : Events) : Event → Bool
  | .read => m.read
  | .write => m.write

/-- `m | event` -/
def add (m : Events) : Event → Events
  | .read => { m with read := true }
  | .write => { m with write := true }

/-- `m & ~event` -/
def remove (m : Events) : Event → Events
  | .read => { m with read := false }
  | .write => { m with write := false }

/-- `m & n` -/
def inter (m n : Events) : Events := ⟨m.read && n.read, m.write && n.write⟩

/-- `m | n` -/
def union (m n : Events) : Events := ⟨m.read || n.read, m.write || n.write⟩

/-- `m & ~n` -/
def diff (m n : Events) : Events := ⟨m.read && !n.read, m.write && !n.write⟩

end Events

inductive Task where
  | cb (cb : CallbackId)
  | fiber (fiber : FiberId)
  deriving DecidableEq, Repr

structure EventContext where
  scheduler : Option SchedulerId
  fiber : Option FiberId
  cb : Option CallbackId
  deriving DecidableEq, Repr

def EventContext.empty : EventContext := ⟨none, none, none⟩

structure FdContext where
  read : EventContext
  write : EventContext
  events : Events
  deriving DecidableEq, Repr

def FdContext.empty : FdContext := ⟨.empty, .empty, .none⟩

inductive Fault where
  /-- `LINKO_ASSERT(events & event)` in `triggerEvent` -/
  | notRegistered
  /-- `triggerEvent` on a context without a scheduler -/
  | nullScheduler
  /-- `LINKO_ASSERT(!(fd_ctx->events & event))` in `addEvent` -/
  | registered
  /-- The assertion of `addEvent` that the context is empty -/
  | contextInUse
  /-- `LINKO_ASSERT(fd_ctx->events == 0)` in `cancelAll` -/
  | eventsLeft
  /-- `m_fdContexts[fd]` behind its end -/
  | outOfRange
  deriving DecidableEq, Repr

namespace FdContext

def getContext (c : FdContext) : Event → EventContext
  | .read => c.read
  | .write => c.write

def setContext (c : FdContext) (event : Event) (ctx : EventContext) : FdContext :=
  match event with
  | .read => { c with read := ctx }
  | .write => { c with write := ctx }

def resetContext (c : FdContext) (event : Event) : FdContext := c.setContext event .empty

/-- `triggerEvent`, with what it schedules and where. `schedule` takes the
callback or the fiber out of the context, and drops a fiber that is null. -/
def triggerEvent (c : FdContext) (event : Event) : Except Fault (FdContext × List (SchedulerId × Task)) :=
  if c.events.has event = false then .error .notRegistered
  else
    let c := { c with events := c.events.remove event }
    let ctx := c.getContext event
    match ctx.scheduler with
    | none => .error .nullScheduler
    | some scheduler =>
      match ctx.cb with
      | some cb => .ok (c.setContext event { ctx with cb := none, scheduler := none }, [(scheduler, .cb cb)])
      | none =>
        .ok (c.setContext event { ctx with fiber := none, scheduler := none },
          ctx.fiber.toList.map fun fiber => (scheduler, .fiber fiber))

end FdContext

/-- What is scheduled, with the event for which it was registered. -/
structure Scheduled where
  fd : Fd
  event : Event
  scheduler : SchedulerId
  task : Task
  deriving DecidableEq, Repr

structure State where
  /-- `m_fdContexts.size()` -/
  size : Nat
  ctx : Fd → FdContext
  /-- The interest set in the kernel. -/
  kernel : Fd → Events
  pendingEventCount : Int

/-- A table of `size` contexts. -/
def init (size : Nat) : State where
  size := size
  ctx _ := .empty
  kernel _ := .none
  pendingEventCount := 0

inductive CtlOp where
  | add
  | mod
  | del
  deriving DecidableEq, Repr

@[simps] def State.put (s : State) (fd : Fd) (c : FdContext) : State :=
  { s with ctx := Function.update s.ctx fd c }

/-- `epoll_ctl`, with `none` for an error. -/
def epollCtl (s : State) (op : CtlOp) (fd : Fd) (events : Events) (ok : Bool) : Option State :=
  if ok then
    match op with
    | .add | .mod => some { s with kernel := Function.update s.kernel fd events }
    | .del => some { s with kernel := Function.update s.kernel fd .none }
  else none

/-! ## The operations -/

def addEvent (s : State) (fd : Fd) (event : Event) (cb : Option CallbackId) (fiber : FiberId)
    (scheduler : Option SchedulerId) (ok : Bool) : Except Fault (State × Int) :=
  let s := if fd < s.size then s else { s with size := s.size * 3 / 2 }
  if s.size ≤ fd then .error .outOfRange
  else
    let c := s.ctx fd
    if c.events.has event then .error .registered
    else
      let op : CtlOp := if c.events = .none then .add else .mod
      match epollCtl s op fd (c.events.add event) ok with
      | none => .ok (s, -1)
      | some s =>
        let s := { s with pendingEventCount := s.pendingEventCount + 1 }
        let c := { c with events := c.events.add event }
        if c.getContext event ≠ .empty then .error .contextInUse
        else
          let ctx : EventContext :=
            match cb with
            | some cb => { EventContext.empty with scheduler := scheduler, cb := some cb }
            | none => { EventContext.empty with scheduler := scheduler, fiber := some fiber }
          .ok (s.put fd (c.setContext event ctx), 0)

def delEvent (s : State) (fd : Fd) (event : Event) (ok : Bool) : State × Bool :=
  if s.size ≤ fd then (s, false)
  else
    let c := s.ctx fd
    if c.events.has event = false then (s, false)
    else
      let newEvents := c.events.remove event
      let op : CtlOp := if newEvents = .none then .del else .mod
      match epollCtl s op fd newEvents ok with
      | none => (s, false)
      | some s =>
        let s := { s with pendingEventCount := s.pendingEventCount - 1 }
        (s.put fd ({ c with events := newEvents }.resetContext event), true)

/-- `triggerEvent` under a condition, with the count of the pending events. -/
def triggerIf (s : State) (fd : Fd) (event : Event) (cond : Bool) : Except Fault (State × List Scheduled) :=
  if cond then do
    let (c, tasks) ← (s.ctx fd).triggerEvent event
    let s := s.put fd c
    .ok ({ s with pendingEventCount := s.pendingEventCount - 1 }, tasks.map fun t => ⟨fd, event, t.1, t.2⟩)
  else .ok (s, [])

def cancelEvent (s : State) (fd : Fd) (event : Event) (ok : Bool) :
    Except Fault (State × Bool × List Scheduled) :=
  if s.size ≤ fd then .ok (s, false, [])
  else
    let c := s.ctx fd
    if c.events.has event = false then .ok (s, false, [])
    else
      let newEvents := c.events.remove event
      let op : CtlOp := if newEvents = .none then .del else .mod
      match epollCtl s op fd newEvents ok with
      | none => .ok (s, false, [])
      | some s => do
        let (s, out) ← triggerIf s fd event true
        .ok (s, true, out)

def cancelAll (s : State) (fd : Fd) (ok : Bool) : Except Fault (State × Bool × List Scheduled) :=
  if s.size ≤ fd then .ok (s, false, [])
  else if (s.ctx fd).events = .none then .ok (s, false, [])
  else
    match epollCtl s .del fd .none ok with
    | none => .ok (s, false, [])
    | some s => do
      let (s, read) ← triggerIf s fd .read ((s.ctx fd).events.has .read)
      let (s, write) ← triggerIf s fd .write ((s.ctx fd).events.has .write)
      if (s.ctx fd).events ≠ .none then .error .eventsLeft else .ok (s, true, read ++ write)

/-- What `epoll_wait` reports for a descriptor: `EPOLLIN` and `EPOLLOUT`, and
whether `EPOLLERR` or `EPOLLHUP` is set. -/
structure Report where
  events : Events
  errOrHup : Bool
  deriving DecidableEq, Repr

/-- The events that `idle` takes from a report. -/
def realEvents (registered : Events) (report : Report) : Events :=
  if report.errOrHup then report.events.union registered else report.events

/-- The body of the loop of `idle` over the reports. -/
def dispatch (s : State) (fd : Fd) (report : Report) (ok : Bool) : Except Fault (State × List Scheduled) :=
  let events := (s.ctx fd).events
  let real := realEvents events report
  if events.inter real = .none then .ok (s, [])
  else
    let left := events.diff real
    let op : CtlOp := if left = .none then .del else .mod
    match epollCtl s op fd left ok with
    | none => .ok (s, [])
    | some s => do
      let (s, read) ← triggerIf s fd .read real.read
      let (s, write) ← triggerIf s fd .write real.write
      .ok (s, read ++ write)

/-! ## Steps -/

/-- An operation with the outcome of its `epoll_ctl`. The scheduler of
`addEvent` is the one of the thread, as who calls it got the manager from
`IOManager::GetThis()`; the fiber is the one that runs. -/
inductive Op where
  | addEvent (fd : Fd) (event : Event) (cb : Option CallbackId) (fiber : FiberId)
    (scheduler : SchedulerId) (ok : Bool)
  | delEvent (fd : Fd) (event : Event) (ok : Bool)
  | cancelEvent (fd : Fd) (event : Event) (ok : Bool)
  | cancelAll (fd : Fd) (ok : Bool)
  | dispatch (fd : Fd) (report : Report) (ok : Bool)
  deriving DecidableEq, Repr

def Op.ok : Op → Bool
  | .addEvent _ _ _ _ _ ok | .delEvent _ _ ok | .cancelEvent _ _ ok | .cancelAll _ ok | .dispatch _ _ ok => ok

/-- The state, whether the operation returned success, and what it scheduled. -/
def apply (s : State) : Op → Except Fault (State × Bool × List Scheduled)
  | .addEvent fd event cb fiber scheduler ok => do
    let (s, rt) ← addEvent s fd event cb fiber (some scheduler) ok
    .ok (s, rt = 0, [])
  | .delEvent fd event ok => .ok ((delEvent s fd event ok).1, (delEvent s fd event ok).2, [])
  | .cancelEvent fd event ok => cancelEvent s fd event ok
  | .cancelAll fd ok => cancelAll s fd ok
  | .dispatch fd report ok => do
    let (s, out) ← dispatch s fd report ok
    .ok (s, true, out)

/-- The descriptor is in the table, an event is not registered twice, and a
report is of registered events. -/
def enabled (s : State) : Op → Bool
  | .addEvent fd event _ _ _ _ => fd < s.size && !(s.ctx fd).events.has event
  | .delEvent fd _ _ | .cancelEvent fd _ _ | .cancelAll fd _ => fd < s.size
  | .dispatch fd report _ => fd < s.size && report.events.diff (s.ctx fd).events = .none

def step (s : State) (op : Op) : Option State :=
  if enabled s op then (apply s op).toOption.map fun r => r.1 else none

end Linko.Io
