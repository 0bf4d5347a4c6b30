import Mathlib.Tactic.Simps.Basic
import Linko.Io.Registration
/-!
# Waiting with a timeout

`do_io` and `connect_with_timeout` of `hook.cc`, from the original function on.
The fiber arms a condition timer, registers its event and yields. The callback
of the timer sets `cancelled` and cancels the event. What the fiber does is one
step for each call it makes, what a callback does is two, and between them other
threads work on the table of the events.
-/

namespace Linko.Hook

open Runs Io

/-- A call that waits: what it registers, and whether it starts again when the
event comes. -/
structure Wait where
  fd : Fd
  event : Event
  fiber : FiberId
  scheduler : SchedulerId
  retries : Bool
  deriving DecidableEq, Repr

/-- `goto retry` -/
def Wait.doIo (fd : Fd) (event : Event) (fiber : FiberId) (scheduler : SchedulerId) : Wait :=
  ⟨fd, event, fiber, scheduler, true⟩

/-- `connect` is not called again, the error is read from the socket. -/
def Wait.connectWithTimeout (fd : Fd) (fiber : FiberId) (scheduler : SchedulerId) : Wait :=
  ⟨fd, .write, fiber, scheduler, false⟩

/-- What the fiber does next. -/
inductive Pc where
  /-- The original function. -/
  | call
  /-- It would block: `addConditionTimer`. -/
  | arm
  /-- `addEvent` -/
  | add
  /-- `addEvent` failed: `timer->cancel()`. -/
  | undo
  /-- `YieldToHold` -/
  | yield
  /-- Nothing, until it is scheduled. -/
  | parked
  /-- `timer->cancel()` -/
  | resumed
  /-- Reads `tinfo->cancelled`. -/
  | check
  /-- It has returned, and `tinfo` is gone. -/
  | done
  deriving DecidableEq, Repr

/-- A timer of the call. -/
inductive Phase where
  | idle
  | armed
  /-- `listExpiredCb` took the callback. -/
  | handed
  /-- The callback has set `cancelled`, `cancelEvent` is next. -/
  | marked
  | ran
  | cancelled
  deriving DecidableEq, Repr

structure State where
  io : Io.State
  pc : Pc
  /-- `tinfo->cancelled`, which is 0 or `ETIMEDOUT` -/
  cancelled : Bool
  /-- How often a timer was armed. The last one is that of this wait. -/
  waits : Nat
  timers : Nat → Phase
  /-- The entries of the queue of the scheduler that this wait put there. -/
  woken : Nat

def start (io : Io.State) : State where
  io := io
  pc := .call
  cancelled := false
  waits := 0
  timers _ := .idle
  woken := 0

@[simps] def State.setTimer (s : State) (t : Nat) (phase : Phase) : State :=
  { s with timers := Function.update s.timers t phase }

/-- `timer->cancel()`, which comes too late for a callback that was taken. -/
def State.cancelTimer (s : State) : State :=
  if s.timers s.waits = .armed then s.setTimer s.waits .cancelled else s

namespace Wait

def task (w : Wait) : SchedulerId × Task := (w.scheduler, .fiber w.fiber)

/-- The event of the fiber is registered. -/
def registered (w : Wait) (io : Io.State) : Bool := decide ((io.ctx w.fd).getContext w.event = .of w.task)

/-- How often the fiber is scheduled for it. -/
def wakes (w : Wait) (out : List Scheduled) : Nat := out.count ⟨w.fd, w.event, w.scheduler, .fiber w.fiber⟩

/-- The operations of the others: only this fiber registers itself, and an event
that is waited for is triggered and not deleted. -/
def others (w : Wait) : Op → Bool
  | .addEvent _ _ cb fiber _ _ => cb ≠ none || fiber ≠ w.fiber
  | .delEvent fd event _ => fd ≠ w.fd || event ≠ w.event
  | _ => true

end Wait

/-- A step of the fiber, of a callback, or of the others. The original function
may block or not, and each `epoll_ctl` may fail. -/
inductive Action where
  | call (blocks : Bool)
  | arm
  | addEvent (ok : Bool)
  | yield
  | resume
  | cancelTimer
  | check
  | expire (t : Nat)
  | callback (t : Nat)
  | cancelEvent (t : Nat) (ok : Bool)
  | other (op : Op)
  /-- The table grows for another descriptor. -/
  | grow
  deriving DecidableEq, Repr

def step (w : Wait) (s : State) : Action → Option State
  | .call blocks => if s.pc = .call then some { s with pc := if blocks then .arm else .done } else none
  | .arm =>
    if s.pc = .arm then some ({ s with pc := .add, waits := s.waits + 1 }.setTimer (s.waits + 1) .armed)
    else none
  | .addEvent ok =>
    if s.pc = .add then
      match Io.addEvent s.io w.fd w.event none w.fiber (some w.scheduler) ok with
      | .error _ => none
      | .ok (io, rt) => some { s with io := io, pc := if rt = 0 then .yield else .undo }
    else none
  | .yield => if s.pc = .yield then some { s with pc := .parked } else none
  | .resume =>
    if s.pc = .parked ∧ 0 < s.woken then some { s with pc := .resumed, woken := s.woken - 1 } else none
  | .cancelTimer =>
    match s.pc with
    | .undo => some { s with pc := .done }.cancelTimer
    | .resumed => some { s with pc := .check }.cancelTimer
    | _ => none
  | .check =>
    if s.pc = .check then some { s with pc := if s.cancelled || !w.retries then .done else .call } else none
  | .expire t => if s.timers t = .armed then some (s.setTimer t .handed) else none
  | .callback t =>
    if s.timers t = .handed then
      -- `winfo.lock()` is null when the call has returned
      if s.pc = .done ∨ s.cancelled = true then some (s.setTimer t .ran)
      else some ({ s with cancelled := true }.setTimer t .marked)
    else none
  | .cancelEvent t ok =>
    if s.timers t = .marked then
      match Io.cancelEvent s.io w.fd w.event ok with
      | .error _ => none
      | .ok (io, _, out) => some ({ s with io := io, woken := s.woken + w.wakes out }.setTimer t .ran)
    else none
  | .other op =>
    if w.others op ∧ enabled s.io op then
      match apply s.io op with
      | .error _ => none
      | .ok (io, _, out) => some { s with io := io, woken := s.woken + w.wakes out }
    else none
  | .grow => some { s with io := { s.io with size := s.io.size * 3 / 2 } }

/-- The fiber is parked with its event registered, and the callback of the timer
of this wait has run. -/
def Lost (w : Wait) (s : State) : Prop :=
  s.pc = .parked ∧ w.registered s.io = true ∧ s.timers s.waits = .ran

instance (w : Wait) (s : State) : Decidable (Lost w s) := inferInstanceAs (Decidable (_ ∧ _ ∧ _))

/-! ## The registration of the fiber -/

variable {w : Wait} {io io' : Io.State} {s s' : State}

theorem registered_iff (h : Accounted io) :
    w.registered io = true ↔ ((io.ctx w.fd).getContext w.event).task = some w.task := by
  unfold Wait.registered
  rw [decide_eq_true_eq]
  constructor
  · intro hof
    simp [hof]
  · intro htask
    cases hhas : (io.ctx w.fd).events.has w.event with
    | false =>
      rw [(h.good w.fd).free w.event hhas] at htask
      cases htask
    | true =>
      obtain ⟨t, ht⟩ := (h.good w.fd).held w.event hhas
      rw [ht, EventContext.task_of, Option.some.injEq] at htask
      rw [ht, htask]

theorem has_of_registered (h : Accounted io) (hreg : w.registered io = true) :
    (io.ctx w.fd).events.has w.event = true := by
  by_contra hnot
  have htask := (registered_iff h).1 hreg
  rw [(h.good w.fd).free w.event (by simpa using hnot)] at htask
  cases htask

/-- A write to another context, or of the same task, does not matter. -/
theorem registered_moved {fd : Fd} {c : FdContext}
    (h : fd = w.fd → c.getContext w.event = (io.ctx fd).getContext w.event) :
    w.registered (io.moved fd c) = w.registered io := by
  unfold Wait.registered
  by_cases hfd : fd = w.fd
  · subst hfd
    simp [State.moved, h rfl]
  · have hne : w.fd ≠ fd := fun he => hfd he.symm
    simp [State.moved, hne]

theorem wakes_held (h : Accounted io) (fd : Fd) (m : Events) :
    w.wakes (held io fd m) = if fd = w.fd ∧ m.has w.event = true then (w.registered io).toNat else 0 := by
  unfold Wait.wakes
  by_cases hfd : fd = w.fd
  · subst hfd
    have hcount := count_held io w.fd m w.event w.task
    simp only [← registered_iff h] at hcount
    refine hcount.trans ?_
    cases w.registered io <;> simp
  · rw [if_neg fun hslot => hfd hslot.1]
    refine List.count_eq_zero.2 ?_
    intro hmem
    exact hfd (mem_held hmem).1.symm

/-- Another task that registers takes an event that is free. -/
theorem registered_holding {fd : Fd} {e : Event} {t : SchedulerId × Task} (h : Accounted io)
    (hfree : (io.ctx fd).events.has e = false) (ht : t ≠ w.task) :
    w.registered (io.moved fd ((io.ctx fd).holding e t)) = w.registered io := by
  by_cases hslot : fd = w.fd ∧ e = w.event
  · obtain ⟨rfl, rfl⟩ := hslot
    have hempty := (h.good w.fd).free w.event hfree
    have hbefore : w.registered io = false := by
      unfold Wait.registered
      rw [hempty]
      refine decide_eq_false ?_
      simp [EventContext.empty, EventContext.of, Wait.task]
    rw [hbefore]
    unfold Wait.registered
    refine decide_eq_false ?_
    intro hof
    have htask := congrArg EventContext.task hof
    simp only [State.moved, Function.update_self, FdContext.getContext_holding, if_true, EventContext.task_of,
      Option.some.injEq] at htask
    exact ht htask
  · refine registered_moved ?_
    intro hw
    have he : w.event ≠ e := fun he => hslot ⟨hw, he.symm⟩
    simp [he]

theorem registered_clear {m : Events} (hm : m.has w.event = true) :
    w.registered (io.moved w.fd ((io.ctx w.fd).clear m)) = false := by
  unfold Wait.registered
  refine decide_eq_false ?_
  simp [State.moved, hm, EventContext.empty, EventContext.of, Wait.task]

/-- Each operation of the others leaves the event registered or schedules the
fiber. -/
theorem balance {op : Op} {r : Io.State × Bool × List Scheduled} (h : Accounted io) (hd : Does io op r)
    (ho : w.others op = true) : (w.registered r.1).toNat + w.wakes r.2.2 = (w.registered io).toNat := by
  cases hd with
  | idle => simp [Wait.wakes]
  | @add fd e cb fiber scheduler hfd hfree =>
    -- another one does not wait with this fiber
    have hother : taskOf cb fiber ≠ .fiber w.fiber := by
      cases cb with
      | some cb => simp [taskOf]
      | none => simpa [taskOf, Wait.others] using ho
    have hsame : w.registered (io.moved fd ((io.ctx fd).holding e (scheduler, taskOf cb fiber))) =
      w.registered io := by
      apply registered_holding h hfree
      intro ht
      exact hother (congrArg Prod.snd ht)
    simp [hsame, Wait.wakes]
  | @del fd e hfd hreg =>
    have hsame : w.registered (io.moved fd ((io.ctx fd).cleared e)) = w.registered io := by
      apply registered_moved
      intro hw
      have he : w.event ≠ e := by
        rintro rfl
        simp [Wait.others, hw] at ho
      simp [he]
    simp [hsame, Wait.wakes]
  | @trigger op fd m hok hadd hdel hfd hm =>
    rw [wakes_held h]
    -- the event of the call is triggered, which schedules its fiber, or another one
    by_cases hslot : fd = w.fd ∧ m.has w.event = true
    · obtain ⟨rfl, hevent⟩ := hslot
      simp [registered_clear hevent, hevent]
    · have hsame : w.registered (io.moved fd ((io.ctx fd).clear m)) = w.registered io := by
        apply registered_moved
        intro hw
        have he : m.has w.event = false := by simpa [hw] using hslot
        simp [he]
      simp [hslot, hsame]

/-- The `cancelEvent` of a callback is one of these operations. Behind the end
of the table it does nothing. -/
theorem cancelEvent_does {ok : Bool} {r : Io.State × Bool × List Scheduled} (h : Accounted io)
    (hc : Io.cancelEvent io w.fd w.event ok = .ok r) : Does io (.cancelEvent w.fd w.event ok) r := by
  by_cases hfd : w.fd < io.size
  · have he : enabled io (.cancelEvent w.fd w.event ok) = true := by simpa [enabled] using hfd
    obtain ⟨r', happly, hd⟩ := apply_does h he
    have heq : (Except.ok r' : Except Fault _) = .ok r := happly.symm.trans hc
    rwa [Except.ok.inj heq] at hd
  · unfold Io.cancelEvent at hc
    rw [if_pos (Nat.not_lt.1 hfd), Except.ok.injEq] at hc
    rw [← hc]
    exact .idle (fun _ _ _ _ _ _ h => by cases h) (fun _ _ _ h => by cases h)

/-- After it the event is not registered, if `epoll_ctl` does not fail. -/
theorem cancelEvent_frees {ok done : Bool} {out : List Scheduled} (h : Accounted io) (hb : Bounded io)
    (hok : ok = true ∨ w.registered io = false)
    (hc : Io.cancelEvent io w.fd w.event ok = .ok (io', done, out)) :
    w.registered io' = false := by
  have hbal := @balance w _ _ _ h (cancelEvent_does h hc) rfl
  cases hreg : w.registered io with
  | false =>
    rw [hreg] at hbal
    exact Bool.toNat_eq_zero.1 (Nat.eq_zero_of_add_eq_zero_right hbal)
  | true =>
    obtain rfl : ok = true := by simpa [hreg] using hok
    have hhas := has_of_registered h hreg
    have hfd : w.fd < io.size := by
      by_contra hfar
      rw [hb w.fd (Nat.not_lt.1 hfar)] at hhas
      simp [FdContext.empty] at hhas
    rw [cancelEvent_spec h hfd hhas, Except.ok.injEq, Prod.mk.injEq] at hc
    rw [← hc.1]
    unfold Wait.registered
    refine decide_eq_false ?_
    simp [State.moved, EventContext.empty, EventContext.of, Wait.task]

/-! ## The invariant -/

/-- The fiber has registered and not been resumed. -/
def Pc.waiting : Pc → Bool
  | .yield | .parked => true
  | _ => false

/-- The timer of this wait is armed and not cancelled. -/
def Pc.timed : Pc → Bool
  | .add | .yield | .parked => true
  | _ => false

/-- What a timeout that is right needs of a step. When the fiber registers, no
callback has been through: either none has set `cancelled`, or its `cancelEvent`
is still to come. The callback of this wait does not come between these two
steps of an earlier one. `epoll_ctl` does not fail for a callback that cancels. -/
def Orderly (w : Wait) (s : State) : Action → Prop
  | .addEvent _ => s.cancelled = true → ∃ t, s.timers t = .marked
  | .callback t => t = s.waits → s.pc.timed = true → ∀ u, s.timers u ≠ .marked
  | .cancelEvent _ ok => ok = true ∨ w.registered s.io = false
  | _ => True

structure Inv (w : Wait) (s : State) : Prop where
  accounted : Accounted s.io
  bounded : Bounded s.io
  /-- A fiber that waits is registered or scheduled, once. -/
  place : (w.registered s.io).toNat + s.woken = s.pc.waiting.toNat
  later : ∀ t, s.waits < t → s.timers t = .idle
  marked : ∀ t, s.timers t = .marked → s.cancelled = true
  one : ∀ t u, s.timers t = .marked → s.timers u = .marked → t = u
  ran : s.pc ≠ .done → ∀ t, s.timers t = .ran → s.cancelled = true
  /-- Who has set `cancelled` while the event is registered will cancel it. -/
  late : s.cancelled = true → w.registered s.io = true → ∃ t, s.timers t = .marked
  last : s.pc.timed = true → s.timers s.waits = .ran → ∀ t, s.timers t ≠ .marked

theorem inv_start (ha : Accounted io) (hb : Bounded io) (hfree : w.registered io = false) :
    Inv w (start io) where
  accounted := ha
  bounded := hb
  place := by simp [start, hfree, Pc.waiting]
  later _ _ := rfl
  marked _ ht := by cases ht
  one _ _ ht := by cases ht
  ran _ _ ht := by cases ht
  late hc := by cases hc
  last ht := by cases ht

namespace Inv

/-- A fiber that does not wait is not registered. -/
theorem unregistered (h : Inv w s) (hpc : s.pc.waiting = false) : w.registered s.io = false ∧ s.woken = 0 := by
  have hplace := h.place
  rw [hpc, Bool.toNat_false, Nat.add_eq_zero_iff] at hplace
  exact ⟨Bool.toNat_eq_zero.1 hplace.1, hplace.2⟩

theorem goto (h : Inv w s) {pc : Pc} (hwaiting : pc.waiting = s.pc.waiting) (hdone : s.pc ≠ .done)
    (htimed : pc.timed = true → s.pc.timed = true) : Inv w { s with pc := pc } where
  accounted := h.accounted
  bounded := h.bounded
  place := by simpa [hwaiting] using h.place
  later := h.later
  marked := h.marked
  one := h.one
  ran _ := h.ran hdone
  late := h.late
  last ht := h.last (htimed ht)

/-- The others write to the table. -/
theorem table (h : Inv w s) {n : Nat} (ha : Accounted io) (hb : Bounded io)
    (hbal : (w.registered io).toNat + n = (w.registered s.io).toNat) :
    Inv w { s with io := io, woken := s.woken + n } where
  accounted := ha
  bounded := hb
  place := by
    have hplace := h.place
    show (w.registered io).toNat + (s.woken + n) = s.pc.waiting.toNat
    omega
  later := h.later
  marked := h.marked
  one := h.one
  ran := h.ran
  late hc hreg := by
    refine h.late hc ?_
    rw [hreg, Bool.toNat_true] at hbal
    cases hold : w.registered s.io with
    | true => rfl
    | false =>
      rw [hold, Bool.toNat_false] at hbal
      omega
  last := h.last

/-- A timer moves on, and not to the first step of a callback. -/
theorem setTimer (h : Inv w s) {t : Nat} {phase : Phase} (ht : s.timers t ≠ .idle) (hold : s.timers t ≠ .marked)
    (hmarked : phase ≠ .marked) (hran : phase = .ran → (s.pc ≠ .done → s.cancelled = true) ∧
      (t = s.waits → s.pc.timed = true → ∀ u, s.timers u ≠ .marked)) : Inv w (s.setTimer t phase) := by
  have hsame : ∀ u, (s.setTimer t phase).timers u = .marked ↔ s.timers u = .marked := by
    intro u
    by_cases hut : u = t
    · subst hut
      simp [State.setTimer, hold, hmarked]
    · simp [State.setTimer, hut]
  refine ⟨h.accounted, h.bounded, h.place, ?_, ?_, ?_, ?_, ?_, ?_⟩
  · intro u hu
    have hut : u ≠ t := by
      rintro rfl
      exact ht (h.later u hu)
    simpa [State.setTimer, hut] using h.later u hu
  · intro u hu
    exact h.marked u ((hsame u).1 hu)
  · intro u v hu hv
    exact h.one u v ((hsame u).1 hu) ((hsame v).1 hv)
  · intro hpc u hu
    by_cases hut : u = t
    · subst hut
      exact (hran (by simpa [State.setTimer] using hu)).1 hpc
    · exact h.ran hpc u (by simpa [State.setTimer, hut] using hu)
  · intro hc hreg
    obtain ⟨u, hu⟩ := h.late hc hreg
    exact ⟨u, (hsame u).2 hu⟩
  · intro htimed hlast u hu
    have hu' := (hsame u).1 hu
    -- `ran` of the timer of the present wait needs the second part of `hran`
    by_cases hwait : s.waits = t
    · subst hwait
      exact (hran (by simpa [State.setTimer] using hlast)).2 rfl htimed u hu'
    · exact h.last htimed (by simpa [State.setTimer, hwait] using hlast) u hu'

theorem cancelTimer (h : Inv w s) : Inv w s.cancelTimer := by
  unfold State.cancelTimer
  split
  · rename_i harmed
    exact h.setTimer (by simp [harmed]) (by simp [harmed]) (by decide) (fun hran => by cases hran)
  · exact h

theorem arm (h : Inv w s) (hpc : s.pc = .arm) :
    Inv w ({ s with pc := .add, waits := s.waits + 1 }.setTimer (s.waits + 1) .armed) := by
  have hnext := h.later (s.waits + 1) (Nat.lt_succ_self s.waits)
  have hset : ∀ u phase, phase ≠ .armed → phase ≠ .idle →
      (Function.update s.timers (s.waits + 1) .armed u = phase ↔ s.timers u = phase) := by
    intro u phase harmed hidle
    by_cases hu : u = s.waits + 1
    · subst hu
      rw [Function.update_self, hnext]
      exact ⟨fun he => absurd he.symm harmed, fun he => absurd he.symm hidle⟩
    · rw [Function.update_of_ne hu]
  have hmarked := fun u => hset u .marked (by decide) (by decide)
  refine ⟨h.accounted, h.bounded, ?_, ?_, ?_, ?_, ?_, ?_, ?_⟩
  · simpa [hpc, Pc.waiting] using h.place
  · intro u hu
    have hne : u ≠ s.waits + 1 := Nat.ne_of_gt hu
    show Function.update _ _ _ u = _
    rw [Function.update_of_ne hne]
    exact h.later u (Nat.lt_of_succ_lt hu)
  · intro u hu
    exact h.marked u ((hmarked u).1 hu)
  · intro u v hu hv
    exact h.one u v ((hmarked u).1 hu) ((hmarked v).1 hv)
  · intro _ u hu
    exact h.ran (by simp [hpc]) u ((hset u .ran (by decide) (by decide)).1 hu)
  · intro _ hreg
    have hfree := (h.unregistered (by simp [hpc, Pc.waiting])).1
    rw [show w.registered s.io = true from hreg] at hfree
    cases hfree
  · intro _ hran
    simp [State.setTimer] at hran

theorem addEvent (h : Inv w s) (hpc : s.pc = .add) (hok : s.cancelled = true → ∃ t, s.timers t = .marked)
    {n : Nat} (hn : s.io.size ≤ n) (hfd : w.fd < n) :
    Inv w { s with
      io := (s.io.grown n).moved w.fd ((s.io.ctx w.fd).holding w.event w.task)
      pc := .yield } := by
  have hwoken := (h.unregistered (by simp [hpc, Pc.waiting])).2
  have ha := h.accounted.grown h.bounded hn
  refine ⟨ha.moved hfd ((h.accounted.good w.fd).holding _ _), (h.bounded.grown hn).moved hfd _, ?_,
    h.later, h.marked, h.one, fun _ => h.ran (by simp [hpc]), fun hc _ => hok hc, fun _ => h.last
      (by simp [hpc, Pc.timed])⟩
  have hreg : w.registered ((s.io.grown n).moved w.fd ((s.io.ctx w.fd).holding w.event w.task)) = true := by
    simp [Wait.registered, State.moved]
  show (w.registered _).toNat + s.woken = 1
  rw [hreg, hwoken]
  rfl

theorem resume (h : Inv w s) (hpc : s.pc = .parked) (hwoken : 0 < s.woken) :
    Inv w { s with pc := .resumed, woken := s.woken - 1 } := by
  have hplace := h.place
  refine ⟨h.accounted, h.bounded, ?_, h.later, h.marked, h.one, fun _ => h.ran (by simp [hpc]), h.late,
    fun ht => by cases ht⟩
  simp only [hpc, Pc.waiting, Bool.toNat_true, Bool.toNat_false] at hplace ⊢
  omega

/-- The first callback that finds the call waiting sets `cancelled`. -/
theorem mark (h : Inv w s) {t : Nat} (ht : s.timers t = .handed) (hc : s.cancelled = false)
    (hpc : s.pc ≠ .done) :
    Inv w ({ s with cancelled := true }.setTimer t .marked) := by
  have honly : ∀ u, Function.update s.timers t .marked u = .marked → u = t := by
    intro u hu
    by_contra hut
    rw [Function.update_of_ne hut] at hu
    have hset := h.marked u hu
    rw [hc] at hset
    cases hset
  refine ⟨h.accounted, h.bounded, h.place, ?_, fun _ _ => rfl, ?_, fun _ _ _ => rfl, ?_, ?_⟩
  · intro u hu
    have hut : u ≠ t := by
      rintro rfl
      rw [h.later u hu] at ht
      cases ht
    simpa [hut] using h.later u hu
  · intro u v hu hv
    rw [honly u hu, honly v hv]
  · intro _ _
    exact ⟨t, by simp⟩
  · intro _ hran
    -- a callback that had run would have set `cancelled` before
    by_cases hwait : s.waits = t
    · simp [hwait] at hran
    · have hset := h.ran hpc s.waits (by simpa [hwait] using hran)
      rw [hc] at hset
      cases hset

/-- The callback that set `cancelled` cancels the event. -/
theorem cancelEvent (h : Inv w s) {t n : Nat} (ht : s.timers t = .marked) (ha : Accounted io) (hb : Bounded io)
    (hbal : (w.registered io).toNat + n = (w.registered s.io).toNat) (hfree : w.registered io = false) :
    Inv w ({ s with io := io, woken := s.woken + n }.setTimer t .ran) := by
  have hother : ∀ u, Function.update s.timers t .ran u ≠ .marked := by
    intro u hu
    by_cases hut : u = t
    · simp [hut] at hu
    · rw [Function.update_of_ne hut] at hu
      exact hut (h.one u t hu ht)
  have hset := h.marked t ht
  refine ⟨ha, hb, (h.table ha hb hbal).place, ?_, fun _ _ => hset, ?_, fun _ _ _ => hset, ?_, fun _ _ => hother⟩
  · intro u hu
    have hut : u ≠ t := by
      rintro rfl
      rw [h.later u hu] at ht
      cases ht
    simpa [hut] using h.later u hu
  · intro u _ hu
    exact absurd hu (hother u)
  · intro _ hreg
    rw [show w.registered io = true from hreg] at hfree
    cases hfree

end Inv

theorem step_inv {a : Action} (h : Inv w s) (hok : Orderly w s a) (hs : step w s a = some s') : Inv w s' := by
  cases a with
  | call blocks =>
    rw [step, Option.ite_none_right_eq_some, Option.some.injEq] at hs
    obtain ⟨hpc, rfl⟩ := hs
    cases blocks with
    | true => exact h.goto (by simp [hpc, Pc.waiting]) (by simp [hpc]) (fun ht => by cases ht)
    | false => exact h.goto (by simp [hpc, Pc.waiting]) (by simp [hpc]) (fun ht => by cases ht)
  | arm =>
    rw [step, Option.ite_none_right_eq_some, Option.some.injEq] at hs
    obtain ⟨hpc, rfl⟩ := hs
    exact h.arm hpc
  | addEvent ok =>
    rw [step, Option.ite_none_right_eq_some] at hs
    obtain ⟨hpc, hs⟩ := hs
    split at hs
    · cases hs
    · rename_i io rt hadd
      obtain rfl := Option.some.inj hs
      -- `addEvent` may have grown the table before it failed
      rcases addEvent_cases h.accounted h.bounded hadd with ⟨n, hn, -, ⟨rfl, rfl⟩ | ⟨hfd, rfl, rfl⟩⟩
      · have hundo : Inv w { s with pc := .undo } :=
          h.goto (by simp [hpc, Pc.waiting]) (by simp [hpc]) (fun ht => by cases ht)
        exact hundo.table (h.accounted.grown h.bounded hn) (h.bounded.grown hn) (n := 0) rfl
      · exact h.addEvent hpc hok hn hfd
  | yield =>
    rw [step, Option.ite_none_right_eq_some, Option.some.injEq] at hs
    obtain ⟨hpc, rfl⟩ := hs
    exact h.goto (by simp [hpc, Pc.waiting]) (by simp [hpc]) (by simp [hpc, Pc.timed])
  | resume =>
    rw [step, Option.ite_none_right_eq_some, Option.some.injEq] at hs
    obtain ⟨⟨hpc, hwoken⟩, rfl⟩ := hs
    exact h.resume hpc hwoken
  | cancelTimer =>
    simp only [step] at hs
    split at hs
    · rename_i hpc
      obtain rfl := Option.some.inj hs
      refine Inv.cancelTimer ?_
      exact h.goto (by simp [hpc, Pc.waiting]) (by simp [hpc]) (fun ht => by cases ht)
    · rename_i hpc
      obtain rfl := Option.some.inj hs
      refine Inv.cancelTimer ?_
      exact h.goto (by simp [hpc, Pc.waiting]) (by simp [hpc]) (fun ht => by cases ht)
    · cases hs
  | check =>
    rw [step, Option.ite_none_right_eq_some, Option.some.injEq] at hs
    obtain ⟨hpc, rfl⟩ := hs
    split
    · exact h.goto (by simp [hpc, Pc.waiting]) (by simp [hpc]) (fun ht => by cases ht)
    · exact h.goto (by simp [hpc, Pc.waiting]) (by simp [hpc]) (fun ht => by cases ht)
  | expire t =>
    rw [step, Option.ite_none_right_eq_some, Option.some.injEq] at hs
    obtain ⟨harmed, rfl⟩ := hs
    exact h.setTimer (by simp [harmed]) (by simp [harmed]) (by decide) (fun hran => by cases hran)
  | callback t =>
    rw [step, Option.ite_none_right_eq_some] at hs
    obtain ⟨hhanded, hs⟩ := hs
    split at hs
    -- the call is over or another callback was first
    · rename_i hskip
      obtain rfl := Option.some.inj hs
      refine h.setTimer (by simp [hhanded]) (by simp [hhanded]) (by decide) ?_
      intro _
      exact ⟨fun hpc => hskip.resolve_left hpc, hok⟩
    · rename_i hset
      obtain ⟨hpc, hc⟩ := not_or.1 hset
      obtain rfl := Option.some.inj hs
      exact h.mark hhanded (by simpa using hc) hpc
  | cancelEvent t ok =>
    rw [step, Option.ite_none_right_eq_some] at hs
    obtain ⟨hmarked, hs⟩ := hs
    split at hs
    · cases hs
    · rename_i io done out hc
      obtain rfl := Option.some.inj hs
      have hd := cancelEvent_does h.accounted hc
      exact h.cancelEvent hmarked (hd.accounted h.accounted) (hd.bounded h.bounded) (balance h.accounted hd rfl)
        (cancelEvent_frees h.accounted h.bounded hok hc)
  | other op =>
    rw [step, Option.ite_none_right_eq_some] at hs
    obtain ⟨⟨hother, hop⟩, hs⟩ := hs
    obtain ⟨r, happly, hd⟩ := apply_does h.accounted hop
    rw [happly] at hs
    obtain rfl := Option.some.inj hs
    exact h.table (hd.accounted h.accounted) (hd.bounded h.bounded) (balance h.accounted hd hother)
  | grow =>
    obtain rfl := Option.some.inj hs
    have hn : s.io.size ≤ s.io.size * 3 / 2 := by omega
    exact h.table (h.accounted.grown h.bounded hn) (h.bounded.grown hn) (n := 0) rfl

/-! ## Runs -/

/-- The table when a call begins: the fiber, which runs, is not registered for
the event. -/
def Entered (w : Wait) (io : Io.State) : Prop :=
  ∃ size hist, Run Io.step (init size) hist io ∧ w.registered io = false

/-- When the callback of the timer of a wait has run, the fiber is not parked
with its event registered: it is in the queue of the scheduler. -/
theorem timeout_not_lost {hist : List (State × Action)} (hio : Entered w io)
    (h : Run (step w) (start io) hist s)
    (hok : ∀ x ∈ hist, Orderly w x.1 x.2) :
    ¬ Lost w s ∧ (s.pc = .parked → s.timers s.waits = .ran → s.woken = 1) := by
  obtain ⟨size, histIo, hrunIo, hfree⟩ := hio
  have hinv : Inv w s := by
    refine h.invariant (I := Inv w) (inv_start (accounted_of_run hrunIo) (bounded_of_run hrunIo) hfree) ?_ hok
    intro s a s' hs hok hstep
    exact step_inv hs hok hstep
  have hnot : s.pc = .parked → s.timers s.waits = .ran → w.registered s.io = false := by
    intro hpc hran
    by_contra hreg
    obtain ⟨t, ht⟩ := hinv.late (hinv.ran (by simp [hpc]) _ hran) (by simpa using hreg)
    exact hinv.last (by simp [hpc, Pc.timed]) hran t ht
  refine ⟨?_, ?_⟩
  · rintro ⟨hpc, hreg, hran⟩
    rw [hnot hpc hran] at hreg
    cases hreg
  · intro hpc hran
    have hplace := hinv.place
    rw [hnot hpc hran, hpc] at hplace
    simpa [Pc.waiting] using hplace

/-- A step that comes before `cancelled` is set is in order. -/
def early (s : State) : Action → Bool
  | .addEvent _ | .callback _ => !s.cancelled
  | .cancelEvent _ ok => ok
  | _ => true

theorem Inv.orderly {a : Action} (h : Inv w s) (he : early s a = true) : Orderly w s a := by
  cases a with
  | addEvent ok =>
    intro hc
    simp [early, hc] at he
  | callback t =>
    intro _ _ u hu
    simp [early, h.marked u hu] at he
  | cancelEvent t ok => exact .inl he
  | _ => trivial

theorem orderly_of_early {hist : List (State × Action)} (hio : Entered w io)
    (h : Run (step w) (start io) hist s)
    (he : ∀ x ∈ hist, early x.1 x.2 = true) : Inv w s ∧ ∀ x ∈ hist, Orderly w x.1 x.2 := by
  induction h with
  | start =>
    obtain ⟨size, histIo, hrunIo, hfree⟩ := hio
    exact ⟨inv_start (accounted_of_run hrunIo) (bounded_of_run hrunIo) hfree, fun x hx => by cases hx⟩
  | @next hist s s' a hrun hstep ih =>
    obtain ⟨hinv, hok⟩ := ih fun x hx => he x (List.mem_append_left _ hx)
    have hlast := hinv.orderly (he (s, a) (List.mem_append_right _ List.mem_cons_self))
    refine ⟨step_inv hinv hlast hstep, ?_⟩
    intro x hx
    rcases List.mem_append.1 hx with hx | hx
    · exact hok x hx
    · obtain rfl := List.mem_singleton.1 hx
      exact hlast

theorem entered_init (w : Wait) : Entered w (init 32) := by
  refine ⟨32, [], .start, decide_eq_false ?_⟩
  intro hof
  have htask := congrArg EventContext.task hof
  rw [(accounted_init 32).good w.fd |>.free w.event (Events.has_none w.event), EventContext.task_of] at htask
  cases htask

/-- The event comes first, and at the second attempt the timer fires. -/
def firesLate : List Action :=
  [.call true, .arm, .addEvent true, .expire 1, .yield, .other (.dispatch 3 ⟨⟨true, false⟩, false⟩ true),
    .resume, .cancelTimer, .check, .call true, .arm, .addEvent true, .yield, .expire 2, .callback 2,
    .cancelEvent 2 true]

theorem timeout_not_lost_firesLate : ∃ hist s, Run (step (.doIo 3 .read 7 1)) (start (init 32)) hist s ∧
    s.pc = .parked ∧ s.timers s.waits = .ran ∧ s.woken = 1 := by
  obtain ⟨hist, s, hrun, hp⟩ : ∃ hist s, Run (step (.doIo 3 .read 7 1)) (start (init 32)) hist s ∧
      (decide (s.pc = .parked ∧ s.timers s.waits = .ran) && hist.all fun x => early x.1 x.2) = true :=
    exists_run firesLate (by decide +kernel)
  obtain ⟨hpc, hran⟩ := of_decide_eq_true (Bool.and_eq_true_iff.1 hp).1
  have hearly := List.all_eq_true.1 (Bool.and_eq_true_iff.1 hp).2
  have hio := entered_init (.doIo 3 .read 7 1)
  have hok := (orderly_of_early hio hrun hearly).2
  exact ⟨hist, s, hrun, hpc, hran, (timeout_not_lost hio hrun hok).2 hpc hran⟩

/-- The timer fires between `addConditionTimer` and `addEvent`. -/
def firesEarly : List Action :=
  [.call true, .arm, .expire 1, .callback 1, .cancelEvent 1 true, .addEvent true, .yield]

/-- Nothing cancels the event that is registered after the callback, neither in
`do_io` nor in `connect_with_timeout`. -/
theorem timeout_lost_firesEarly :
    (¬ ∀ hist s, Run (step (.doIo 3 .read 7 1)) (start (init 32)) hist s → ¬ Lost (.doIo 3 .read 7 1) s) ∧
      ¬ ∀ hist s, Run (step (.connectWithTimeout 3 7 1)) (start (init 32)) hist s →
        ¬ Lost (.connectWithTimeout 3 7 1) s := by
  have hlost : ∀ w : Wait,
      ((go (step w) [] (start (init 32)) firesEarly).any fun r => decide (Lost w r.2)) = true →
      ¬ ∀ hist s, Run (step w) (start (init 32)) hist s → ¬ Lost w s := by
    intro w hgo hnever
    obtain ⟨hist, s, hrun, hp⟩ :=
      @exists_run _ _ (step w) (start (init 32)) firesEarly (fun _ s => decide (Lost w s)) hgo
    exact hnever hist s hrun (of_decide_eq_true hp)
  exact ⟨hlost _ (by decide +kernel), hlost _ (by decide +kernel)⟩

end Linko.Hook
