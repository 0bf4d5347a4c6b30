import Mathlib.Logic.Function.Basic
import Mathlib.Tactic.Simps.Basic
import Linko.Lib.OrderedSet
import Linko.Lib.Runs
/-!
# The timer manager

`timer.cc`. A `Timer` is an object that other threads hold pointers to; its
fields live in a heap under its id. `m_timers` orders pointers by what the
objects say now, so writing an `m_next` in the wrong place would spoil it; that
and `erase(end())` are the faults of this model. Every operation is one step,
as it runs under `m_mutex`. The clock reading of each is an argument, and so is
the address that a constructor gets.
-/

namespace Linko.Timers

abbrev TimerId := Nat

abbrev CallbackId := Nat

structure Timer where
  recurring : Bool
  ms : UInt64
  next : UInt64
  /-- `m_cb`, with `none` for an empty function. -/
  cb : Option CallbackId
  addr : Nat
  deriving DecidableEq, Repr

/-- `Timer::Comparator`, on pointers that are not null. -/
def Timer.less (lhs rhs : Timer) : Bool :=
  if lhs.next < rhs.next then true
  else if rhs.next < lhs.next then false
  else lhs.addr < rhs.addr

inductive Fault where
  /-- `m_timers.erase(m_timers.end())` -/
  | eraseEnd
  /-- The key of a timer is written while the timer is in the set. -/
  | keyInSet
  deriving DecidableEq, Repr

structure State where
  /-- The number of timers constructed so far. -/
  created : Nat
  timer : TimerId → Timer
  /-- The object has not been destroyed. -/
  alive : TimerId → Bool
  /-- `m_timers`, from its first element to its last. -/
  timers : List TimerId
  tickled : Bool
  previousTime : UInt64

/-- `TimerManager::TimerManager()` -/
def init (now : UInt64) : State where
  created := 0
  timer _ := ⟨false, 0, 0, none, 0⟩
  alive _ := false
  timers := []
  tickled := false
  previousTime := now

namespace State

variable (s : State)

def less (t u : TimerId) : Bool := (s.timer t).less (s.timer u)

@[simps] def put (t : TimerId) (v : Timer) : State := { s with timer := Function.update s.timer t v }

def setCb (t : TimerId) (cb : Option CallbackId) : State := s.put t { s.timer t with cb := cb }

def setMs (t : TimerId) (ms : UInt64) : State := s.put t { s.timer t with ms := ms }

def setNext (t : TimerId) (next : UInt64) : Except Fault State :=
  if t ∈ s.timers then .error .keyInSet else .ok (s.put t { s.timer t with next := next })

def find (t : TimerId) : Option TimerId := OrderedSet.find s.less t s.timers

def erase : Option TimerId → Except Fault State
  | none => .error .eraseEnd
  | some t => .ok { s with timers := s.timers.erase t }

@[simps] def insert (t : TimerId) : State := { s with timers := OrderedSet.insert s.less t s.timers }

end State

/-! ## Operations on a timer -/

/-- `TimerManager::addTimer(val, lock)`: the set with `val` in it, and whether
`onTimerInsertedAtFront` is called. -/
def addLocked (s : State) (t : TimerId) : State × Bool :=
  let s := s.insert t
  let it := s.find t
  let atFront := it = s.timers.head? && !s.tickled
  if atFront then ({ s with tickled := true }, true) else (s, false)

def cancel (s : State) (t : TimerId) : Except Fault (State × Bool) :=
  if (s.timer t).cb ≠ none then do
    let s := s.setCb t none
    let it := s.find t
    let s ← s.erase it
    .ok (s, true)
  else .ok (s, false)

def refresh (s : State) (t : TimerId) (now : UInt64) : Except Fault (State × Bool) :=
  if (s.timer t).cb = none then .ok (s, false)
  else
    match s.find t with
    | none => .ok (s, false)
    | some it => do
      let s ← s.erase (some it)
      let s ← s.setNext t (now + (s.timer t).ms)
      .ok (s.insert t, true)

/-- `Timer::reset`: the result and whether `onTimerInsertedAtFront` is called. -/
def reset (s : State) (t : TimerId) (ms : UInt64) (fromNow : Bool) (now : UInt64) :
    Except Fault (State × Bool × Bool) :=
  if ms = (s.timer t).ms ∧ fromNow = false then .ok (s, true, false)
  else if (s.timer t).cb = none then .ok (s, false, false)
  else
    match s.find t with
    | none => .ok (s, false, false)
    | some it => do
      let s ← s.erase (some it)
      let start := if fromNow then now else (s.timer t).next - (s.timer t).ms
      let s := s.setMs t ms
      let s ← s.setNext t (start + ms)
      let (s, atFront) := addLocked s t
      .ok (s, true, atFront)

/-! ## Operations on the manager -/

/-- `addTimer(ms, cb, recurring)`: the new timer and whether
`onTimerInsertedAtFront` is called. -/
def addTimer (s : State) (ms : UInt64) (cb : CallbackId) (recurring : Bool) (addr : Nat) (now : UInt64) :
    State × TimerId × Bool :=
  let t := s.created
  let s := { s with created := t + 1, alive := Function.update s.alive t true }
  let s := s.put t ⟨recurring, ms, now + ms, some cb, addr⟩
  let (s, atFront) := addLocked s t
  (s, t, atFront)

def getNextTimer (s : State) (now : UInt64) : State × UInt64 :=
  let s := { s with tickled := false }
  match s.timers with
  | [] => (s, ~~~0)
  | t :: _ => if now ≥ (s.timer t).next then (s, 0) else (s, (s.timer t).next - now)

def detectClockRollover (s : State) (now : UInt64) : Bool :=
  now < s.previousTime && now < s.previousTime - 60 * 60 * 1000

/-- The timers in front of `it`, and those from it on: all of them after a
rollover, otherwise those that are due. -/
def splitExpired (s : State) (rollover : Bool) (now : UInt64) (addr : Nat) : List TimerId × List TimerId :=
  if rollover then (s.timers, [])
  else
    let nowTimer : Timer := ⟨false, 0, now, none, addr⟩
    let before := s.timers.takeWhile fun t => (s.timer t).less nowTimer
    let rest := s.timers.dropWhile fun t => (s.timer t).less nowTimer
    (before ++ rest.takeWhile (fun t => (s.timer t).next = now), rest.dropWhile fun t => (s.timer t).next = now)

/-- The body of the loop over the expired timers. -/
def handOut (now : UInt64) (r : State × List (TimerId × Option CallbackId)) (t : TimerId) :
    Except Fault (State × List (TimerId × Option CallbackId)) := do
  let (s, cbs) := r
  let cbs := cbs ++ [(t, (s.timer t).cb)]
  if (s.timer t).recurring then
    let s ← s.setNext t (now + (s.timer t).ms)
    .ok (s.insert t, cbs)
  else .ok (s.setCb t none, cbs)

/-- `listExpiredCb(cbs)`: the callbacks, each with the timer it is taken from. -/
def listExpiredCb (s : State) (now : UInt64) (addr : Nat) :
    Except Fault (State × List (TimerId × Option CallbackId)) :=
  match s.timers with
  | [] => .ok (s, [])
  | front :: _ =>
    let rollover := detectClockRollover s now
    let s := { s with previousTime := now }
    if rollover = false ∧ (s.timer front).next > now then .ok (s, [])
    else
      let (expired, rest) := splitExpired s rollover now addr
      expired.foldlM (handOut now) ({ s with timers := rest }, [])

def hasTimer (s : State) : Bool := !s.timers.isEmpty

/-! ## Steps -/

inductive Op where
  | addTimer (ms : UInt64) (cb : CallbackId) (recurring : Bool) (addr : Nat) (now : UInt64)
  | cancel (t : TimerId)
  | refresh (t : TimerId) (now : UInt64)
  | reset (t : TimerId) (ms : UInt64) (fromNow : Bool) (now : UInt64)
  | listExpiredCb (now : UInt64) (addr : Nat)
  | getNextTimer (now : UInt64)
  /-- The last pointer to the timer is gone. -/
  | destroy (t : TimerId)
  deriving DecidableEq, Repr

/-- Who calls an operation on a timer holds a pointer to it, as the set does,
and a new object has an address of its own. -/
def enabled (s : State) : Op → Bool
  | .addTimer _ _ _ addr _ => (List.range s.created).all fun t => !s.alive t || (s.timer t).addr ≠ addr
  | .cancel t | .refresh t _ | .reset t _ _ _ => s.alive t
  | .destroy t => s.alive t && t ∉ s.timers
  | .listExpiredCb _ _ | .getNextTimer _ => true

def apply (s : State) : Op → Except Fault State
  | .addTimer ms cb recurring addr now => .ok (addTimer s ms cb recurring addr now).1
  | .cancel t => do
    let (s, _) ← cancel s t
    .ok s
  | .refresh t now => do
    let (s, _) ← refresh s t now
    .ok s
  | .reset t ms fromNow now => do
    let (s, _) ← reset s t ms fromNow now
    .ok s
  | .listExpiredCb now addr => do
    let (s, _) ← listExpiredCb s now addr
    .ok s
  | .getNextTimer now => .ok (getNextTimer s now).1
  | .destroy t => .ok { s with alive := Function.update s.alive t false }

def step (s : State) (op : Op) : Option State := if enabled s op then (apply s op).toOption else none

end Linko.Timers
