import Linko.Io.Model
/-!
# Registration

A context holds a task for an event exactly when the event is registered, the
kernel knows the same events, and the counter counts them. What a run schedules
is what was registered, once each.
-/

namespace Linko.Io

open Runs

variable {s s' : State} {fd : Fd} {c : FdContext} {e : Event} {m : Events}

/-! ## Masks and contexts -/

namespace Events

/-- The number of bits. -/
def count (m : Events) : Nat := m.read.toNat + m.write.toNat

theorem ext_has {m n : Events} (h : ∀ e, m.has e = n.has e) : m = n := by
  obtain ⟨r, w⟩ := m
  obtain ⟨r', w'⟩ := n
  have hr : r = r' := h .read
  have hw : w = w' := h .write
  rw [hr, hw]

@[simp] theorem has_none (e : Event) : none.has e = false := by cases e <;> rfl

@[simp] theorem has_add (m : Events) (e f : Event) : (m.add e).has f = (m.has f || f = e) := by
  cases e <;> cases f <;> simp [add, has]

@[simp] theorem has_remove (m : Events) (e f : Event) : (m.remove e).has f = (m.has f && f ≠ e) := by
  cases e <;> cases f <;> simp [remove, has]

@[simp] theorem has_diff (m n : Events) (e : Event) : (m.diff n).has e = (m.has e && !n.has e) := by
  cases e <;> rfl

@[simp] theorem has_inter (m n : Events) (e : Event) : (m.inter n).has e = (m.has e && n.has e) := by
  cases e <;> rfl

@[simp] theorem has_union (m n : Events) (e : Event) : (m.union n).has e = (m.has e || n.has e) := by
  cases e <;> rfl

theorem count_add (h : m.has e = false) : (m.add e).count = m.count + 1 := by
  obtain ⟨r, w⟩ := m
  cases e
  · obtain rfl : r = false := h
    simp [add, count, Nat.add_comm]
  · obtain rfl : w = false := h
    simp [add, count]

theorem count_remove (h : m.has e = true) : (m.remove e).count + 1 = m.count := by
  obtain ⟨r, w⟩ := m
  cases e
  · obtain rfl : r = true := h
    simp [remove, count, Nat.add_comm]
  · obtain rfl : w = true := h
    simp [remove, count]

theorem count_diff {n : Events} (h : ∀ e, n.has e = true → m.has e = true) :
    (m.diff n).count + n.count = m.count := by
  obtain ⟨r, w⟩ := n
  have hr : r = true → m.read = true := h .read
  have hw : w = true → m.write = true := h .write
  cases r <;> cases w <;> simp_all [diff, count, Nat.add_comm]

@[simp] theorem diff_self (m : Events) : m.diff m = none := by
  obtain ⟨r, w⟩ := m
  simp [diff, none]

end Events

namespace FdContext

@[simp] theorem getContext_setContext (c : FdContext) (e f : Event) (x : EventContext) :
    (c.setContext e x).getContext f = if f = e then x else c.getContext f := by
  cases e <;> cases f <;> simp [setContext, getContext]

@[simp] theorem events_setContext (c : FdContext) (e : Event) (x : EventContext) :
    (c.setContext e x).events = c.events := by
  cases e <;> rfl

@[simp] theorem getContext_mk (c : FdContext) (m : Events) (e : Event) :
    FdContext.getContext ⟨c.read, c.write, m⟩ e = c.getContext e := by
  cases e <;> rfl

end FdContext

/-- What the context of an event holds when a task is registered with a scheduler. -/
def EventContext.of : SchedulerId × Task → EventContext
  | (scheduler, .cb cb) => ⟨some scheduler, none, some cb⟩
  | (scheduler, .fiber fiber) => ⟨some scheduler, some fiber, none⟩

/-- The task that a context holds. -/
def EventContext.task (x : EventContext) : Option (SchedulerId × Task) :=
  match x.scheduler, x.cb, x.fiber with
  | some scheduler, some cb, _ => some (scheduler, .cb cb)
  | some scheduler, none, some fiber => some (scheduler, .fiber fiber)
  | _, _, _ => none

@[simp] theorem EventContext.task_of (t : SchedulerId × Task) : (of t).task = some t := by
  obtain ⟨scheduler, cb | fiber⟩ := t <;> rfl

@[simp] theorem EventContext.task_empty : EventContext.empty.task = none := rfl

/-- The context of an event holds a task, or it is empty. -/
structure FdContext.Good (c : FdContext) : Prop where
  held : ∀ e, c.events.has e = true → ∃ t, c.getContext e = .of t
  free : ∀ e, c.events.has e = false → c.getContext e = .empty

theorem FdContext.good_empty : FdContext.empty.Good := by
  refine ⟨?_, ?_⟩
  · intro e he
    simp [FdContext.empty] at he
  · intro e _
    cases e <;> rfl

/-- The context with a task for an event. -/
def FdContext.holding (c : FdContext) (e : Event) (t : SchedulerId × Task) : FdContext :=
  { c with events := c.events.add e }.setContext e (.of t)

/-- The context without an event. -/
def FdContext.cleared (c : FdContext) (e : Event) : FdContext :=
  { c with events := c.events.remove e }.resetContext e

namespace FdContext

@[simp] theorem events_holding (c : FdContext) (e : Event) (t : SchedulerId × Task) :
    (c.holding e t).events = c.events.add e := by simp [holding]

@[simp] theorem getContext_holding (c : FdContext) (e f : Event) (t : SchedulerId × Task) :
    (c.holding e t).getContext f = if f = e then .of t else c.getContext f := by simp [holding]

@[simp] theorem events_cleared (c : FdContext) (e : Event) : (c.cleared e).events = c.events.remove e := by
  simp [cleared, resetContext]

@[simp] theorem getContext_cleared (c : FdContext) (e f : Event) :
    (c.cleared e).getContext f = if f = e then .empty else c.getContext f := by simp [cleared, resetContext]

end FdContext

namespace FdContext.Good

theorem holding (h : c.Good) (e : Event) (t : SchedulerId × Task) : (c.holding e t).Good := by
  refine ⟨?_, ?_⟩
  · intro f hf
    by_cases hfe : f = e
    · exact ⟨t, by simp [hfe]⟩
    · simpa [hfe] using h.held f (by simpa [hfe] using hf)
  · intro f hf
    have hfe : c.events.has f = false ∧ f ≠ e := by simpa using hf
    simpa [hfe.2] using h.free f hfe.1

theorem cleared (h : c.Good) (e : Event) : (c.cleared e).Good := by
  refine ⟨?_, ?_⟩
  · intro f hf
    have hfe : c.events.has f = true ∧ f ≠ e := by simpa using hf
    simpa [hfe.2] using h.held f hfe.1
  · intro f hf
    by_cases hfe : f = e
    · simp [hfe]
    · simpa [hfe] using h.free f (by simpa [hfe] using hf)

/-- The task of a registered event is scheduled. -/
theorem triggerEvent (h : c.Good) (he : c.events.has e = true) :
    c.triggerEvent e = .ok (c.cleared e, (c.getContext e).task.toList) := by
  obtain ⟨⟨scheduler, task⟩, ht⟩ := h.held e he
  have hget : ({ c with events := c.events.remove e } : FdContext).getContext e = .of (scheduler, task) := by
    rw [← ht]
    cases e <;> rfl
  unfold FdContext.triggerEvent
  rw [if_neg (by simp [he])]
  dsimp only
  rw [hget, ht]
  cases task <;> rfl

end FdContext.Good

/-- The context without the events of a mask. -/
def FdContext.clear (c : FdContext) (m : Events) : FdContext :=
  let c := if m.read then c.cleared .read else c
  if m.write then c.cleared .write else c

@[simp] theorem FdContext.events_clear (c : FdContext) (m : Events) : (c.clear m).events = c.events.diff m := by
  obtain ⟨r, w⟩ := m
  refine Events.ext_has ?_
  intro e
  cases r <;> cases w <;> cases e <;> simp [FdContext.clear, Events.has, Events.diff, Events.remove]

@[simp] theorem FdContext.getContext_clear (c : FdContext) (m : Events) (e : Event) :
    (c.clear m).getContext e = if m.has e then .empty else c.getContext e := by
  obtain ⟨r, w⟩ := m
  cases r <;> cases w <;> cases e <;> simp [FdContext.clear, Events.has]

theorem FdContext.Good.clear (h : c.Good) (m : Events) : (c.clear m).Good := by
  obtain ⟨r, w⟩ := m
  cases r <;> cases w
  · exact h
  · exact h.cleared .write
  · exact h.cleared .read
  · exact (h.cleared .read).cleared .write

/-! ## The invariant -/

/-- The number of contexts in the table with a bit. -/
def bits (bit : Events → Bool) (s : State) : Nat := (List.range s.size).countP fun fd => bit (s.ctx fd).events

/-- The number of event bits in the table. -/
def total (s : State) : Nat := bits (·.read) s + bits (·.write) s

structure Accounted (s : State) : Prop where
  good : ∀ fd, (s.ctx fd).Good
  kernel : ∀ fd, s.kernel fd = (s.ctx fd).events
  pending : s.pendingEventCount = total s

theorem accounted_init (size : Nat) : Accounted (init size) := by
  refine ⟨fun fd => FdContext.good_empty, fun fd => rfl, ?_⟩
  simp [total, bits, init, FdContext.empty, Events.none]

/-- A context is written, and the kernel and the counter follow. -/
def State.moved (s : State) (fd : Fd) (c : FdContext) : State where
  size := s.size
  ctx := Function.update s.ctx fd c
  kernel := Function.update s.kernel fd c.events
  pendingEventCount := s.pendingEventCount + c.events.count - (s.ctx fd).events.count

theorem bits_moved (bit : Events → Bool) (hfd : fd < s.size) :
    (bits bit (s.moved fd c) : Int) + (bit (s.ctx fd).events).toNat = bits bit s + (bit c.events).toNat := by
  have hint : ∀ b : Bool, b.toInt = b.toNat := by decide
  have hnew : (s.moved fd c).ctx fd = c := by simp [State.moved]
  have hchange :=
    @countP_change (fun u => bit ((s.moved fd c).ctx u).events) (fun u => bit (s.ctx u).events) fd s.size hfd
      fun u hu => by simp [State.moved, hu]
  rw [hnew, hint, hint] at hchange
  exact hchange

theorem Accounted.moved (h : Accounted s) (hfd : fd < s.size) (hc : c.Good) : Accounted (s.moved fd c) := by
  refine ⟨?_, ?_, ?_⟩
  · intro u
    by_cases hu : u = fd
    · subst hu
      simpa [State.moved] using hc
    · simpa [State.moved, hu] using h.good u
  · intro u
    by_cases hu : u = fd
    · subst hu
      simp [State.moved]
    · simpa [State.moved, hu] using h.kernel u
  · have hread := @bits_moved s fd c (·.read) hfd
    have hwrite := @bits_moved s fd c (·.write) hfd
    have hcount := h.pending
    unfold total at hcount ⊢
    show s.pendingEventCount + c.events.count - (s.ctx fd).events.count = _
    unfold Events.count
    push_cast at hcount ⊢
    omega

/-! ## What an operation can do -/

/-- The tasks of the events of a mask. -/
def held (s : State) (fd : Fd) (m : Events) : List Scheduled :=
  let task e := ((s.ctx fd).getContext e).task.toList.map fun t => (⟨fd, e, t.1, t.2⟩ : Scheduled)
  (if m.read then task .read else []) ++ (if m.write then task .write else [])

theorem mem_held {x : Scheduled} (hx : x ∈ held s fd m) : x.fd = fd ∧ m.has x.event = true := by
  obtain ⟨r, w⟩ := m
  rcases List.mem_append.1 hx with hx | hx
  · cases r
    · cases hx
    · obtain ⟨t, -, rfl⟩ := List.mem_map.1 hx
      exact ⟨rfl, rfl⟩
  · cases w
    · cases hx
    · obtain ⟨t, -, rfl⟩ := List.mem_map.1 hx
      exact ⟨rfl, rfl⟩

theorem count_held (s : State) (fd : Fd) (m : Events) (e : Event) (t : SchedulerId × Task) :
    (held s fd m).count ⟨fd, e, t.1, t.2⟩ =
      if m.has e = true ∧ ((s.ctx fd).getContext e).task = some t then 1 else 0 := by
  have hone : ∀ f (o : Option (SchedulerId × Task)),
      (o.toList.map fun u => (⟨fd, f, u.1, u.2⟩ : Scheduled)).count ⟨fd, e, t.1, t.2⟩ =
        if f = e ∧ o = some t then 1 else 0 := by
    intro f o
    cases o with
    | none => simp
    | some u => simp [List.count_singleton, Prod.ext_iff]
  obtain ⟨r, w⟩ := m
  unfold held
  cases r <;> cases w <;> cases e <;> simp [hone, Events.has]

/-- Who is registered by `addEvent`. -/
def taskOf (cb : Option CallbackId) (fiber : FiberId) : Task :=
  match cb with
  | some cb => .cb cb
  | none => .fiber fiber

theorem epollCtl_more (s : State) (fd : Fd) (m n : Events) :
    epollCtl s (if n = .none then .add else .mod) fd m true =
      some { s with kernel := Function.update s.kernel fd m } := by
  split <;> rfl

theorem epollCtl_left (s : State) (fd : Fd) (left : Events) :
    epollCtl s (if left = .none then .del else .mod) fd left true =
      some { s with kernel := Function.update s.kernel fd left } := by
  split
  · rename_i hnone
    rw [hnone]
    rfl
  · rfl

theorem addEvent_spec (h : Accounted s) (hfd : fd < s.size) (he : (s.ctx fd).events.has e = false)
    (cb : Option CallbackId) (fiber : FiberId) (scheduler : SchedulerId) :
    addEvent s fd e cb fiber (some scheduler) true =
      .ok (s.moved fd ((s.ctx fd).holding e (scheduler, taskOf cb fiber)), 0) := by
  have hempty := (h.good fd).free e he
  have hfull : ¬ s.size ≤ fd := Nat.not_le.2 hfd
  unfold addEvent
  simp only [hfd, if_true, hfull, if_false, he, Bool.false_eq_true, epollCtl_more,
    FdContext.getContext_mk, hempty, ne_eq, not_true_eq_false]
  have hcount : (s.pendingEventCount + ((s.ctx fd).events.add e).count - (s.ctx fd).events.count : Int) =
      s.pendingEventCount + 1 := by
    rw [Events.count_add he]
    omega
  cases cb <;> simp [State.moved, State.put, hcount, FdContext.holding, taskOf, EventContext.of,
    EventContext.empty]

theorem delEvent_spec (hfd : fd < s.size) (he : (s.ctx fd).events.has e = true) :
    delEvent s fd e true = (s.moved fd ((s.ctx fd).cleared e), true) := by
  have hcount : (s.pendingEventCount + ((s.ctx fd).events.remove e).count - (s.ctx fd).events.count : Int) =
      s.pendingEventCount - 1 := by
    rw [← Events.count_remove he]
    omega
  have hfull : ¬ s.size ≤ fd := Nat.not_le.2 hfd
  unfold delEvent
  simp only [hfull, if_false, he, Bool.true_eq_false]
  simp [epollCtl_left, State.moved, State.put, FdContext.cleared, FdContext.resetContext, ← hcount]

/-- The state after an event was triggered under a condition. -/
def State.fired (s : State) (fd : Fd) (e : Event) (cond : Bool) : State :=
  if cond then { s.put fd ((s.ctx fd).cleared e) with pendingEventCount := s.pendingEventCount - 1 } else s

theorem triggerIf_spec {cond : Bool} (hg : (s.ctx fd).Good)
    (he : cond = true → (s.ctx fd).events.has e = true) :
    triggerIf s fd e cond = .ok (s.fired fd e cond,
      if cond then ((s.ctx fd).getContext e).task.toList.map fun t => ⟨fd, e, t.1, t.2⟩ else []) := by
  unfold triggerIf
  cases cond
  · rfl
  · simp only [if_true, hg.triggerEvent (he rfl)]
    rfl

theorem fired_ctx (s : State) (fd : Fd) (e : Event) (cond : Bool) :
    (s.fired fd e cond).ctx fd = if cond then (s.ctx fd).cleared e else s.ctx fd := by
  cases cond <;> simp [State.fired]

theorem fired_fired (s : State) (fd : Fd) (m : Events) :
    (s.fired fd .read m.read).fired fd .write m.write =
      { s.put fd ((s.ctx fd).clear m) with pendingEventCount := s.pendingEventCount - m.count } := by
  obtain ⟨r, w⟩ := m
  cases r <;> cases w <;> simp [State.fired, FdContext.clear, Events.count, State.put]
  omega

/-- The events of a mask are triggered one after the other. All are registered. -/
theorem triggers_spec (hg : (s.ctx fd).Good) (hm : ∀ e, m.has e = true → (s.ctx fd).events.has e = true) :
    triggerIf s fd .read m.read = .ok (s.fired fd .read m.read,
        if m.read then ((s.ctx fd).getContext .read).task.toList.map fun t => ⟨fd, .read, t.1, t.2⟩ else []) ∧
      triggerIf (s.fired fd .read m.read) fd .write m.write =
        .ok ((s.fired fd .read m.read).fired fd .write m.write,
          if m.write then ((s.ctx fd).getContext .write).task.toList.map fun t => ⟨fd, .write, t.1, t.2⟩
          else []) := by
  have hctx := fired_ctx s fd .read m.read
  have hg' : ((s.fired fd .read m.read).ctx fd).Good := by
    rw [hctx]
    split
    · exact hg.cleared .read
    · exact hg
  have hwrite : m.write = true → ((s.fired fd .read m.read).ctx fd).events.has .write = true := by
    intro hw
    rw [hctx]
    split <;> simpa using hm .write hw
  have hsame : ((s.fired fd .read m.read).ctx fd).getContext .write = (s.ctx fd).getContext .write := by
    rw [hctx]
    split <;> simp
  refine ⟨triggerIf_spec hg (hm .read), ?_⟩
  rw [triggerIf_spec hg' hwrite, hsame]

/-- Together with `epoll_ctl` this is one write to the context. -/
theorem fired_moved (hm : ∀ e, m.has e = true → (s.ctx fd).events.has e = true) :
    (({ s with kernel := Function.update s.kernel fd ((s.ctx fd).events.diff m) } : State).fired fd .read
      m.read).fired fd .write m.write = s.moved fd ((s.ctx fd).clear m) := by
  have hcount := Events.count_diff hm
  rw [fired_fired]
  simp only [State.moved, State.put, FdContext.events_clear, State.mk.injEq, true_and]
  omega

theorem cancelEvent_spec (h : Accounted s) (hfd : fd < s.size) (he : (s.ctx fd).events.has e = true) :
    cancelEvent s fd e true =
      .ok (s.moved fd ((s.ctx fd).clear (Events.none.add e)), true, held s fd (Events.none.add e)) := by
  have hfull : ¬ s.size ≤ fd := Nat.not_le.2 hfd
  have hm : ∀ f, (Events.none.add e).has f = true → (s.ctx fd).events.has f = true := by
    intro f hf
    obtain rfl : f = e := by simpa using hf
    exact he
  have hmoved := fired_moved hm
  have hdiff : (s.ctx fd).events.diff (Events.none.add e) = (s.ctx fd).events.remove e := by
    refine Events.ext_has ?_
    intro f
    simp
  rw [hdiff] at hmoved
  have htrigger :=
    @triggerIf_spec { s with kernel := Function.update s.kernel fd ((s.ctx fd).events.remove e) } fd e true
      (h.good fd) fun _ => he
  unfold cancelEvent
  simp only [hfull, if_false, he, Bool.true_eq_false, epollCtl_left, htrigger]
  rw [← hmoved]
  cases e <;> simp [bind, Except.bind, held, Events.add, Events.none, State.fired]

theorem cancelAll_spec (h : Accounted s) (hfd : fd < s.size) (he : (s.ctx fd).events ≠ .none) :
    cancelAll s fd true = .ok (s.moved fd ((s.ctx fd).clear (s.ctx fd).events), true,
      held s fd (s.ctx fd).events) := by
  have hfull : ¬ s.size ≤ fd := Nat.not_le.2 hfd
  have hmoved := @fired_moved s fd (s.ctx fd).events fun e he => he
  rw [Events.diff_self] at hmoved
  obtain ⟨hread, hwrite⟩ :=
    @triggers_spec { s with kernel := Function.update s.kernel fd .none } fd (s.ctx fd).events
      (h.good fd) fun e he => he
  have hnext : ((({ s with kernel := Function.update s.kernel fd .none } : State).fired fd .read
      (s.ctx fd).events.read).ctx fd).events.has .write = (s.ctx fd).events.write := by
    rw [fired_ctx]
    show _ = (s.ctx fd).events.has .write
    split <;> simp
  unfold cancelAll
  simp only [hfull, if_false, he, epollCtl, if_true]
  show (triggerIf _ fd .read (s.ctx fd).events.read >>= _) = _
  rw [hread]
  simp only [bind, Except.bind, hnext, hwrite, hmoved]
  simp [State.moved, held]

theorem dispatch_spec (h : Accounted s) {report : Report}
    (hm : ∀ e, (realEvents (s.ctx fd).events report).has e = true → (s.ctx fd).events.has e = true)
    (hsome : (s.ctx fd).events.inter (realEvents (s.ctx fd).events report) ≠ .none) :
    dispatch s fd report true = .ok (s.moved fd ((s.ctx fd).clear (realEvents (s.ctx fd).events report)),
      held s fd (realEvents (s.ctx fd).events report)) := by
  unfold dispatch
  dsimp only
  rw [if_neg hsome]
  generalize realEvents (s.ctx fd).events report = m at hm hsome ⊢
  obtain ⟨hread, hwrite⟩ :=
    @triggers_spec { s with kernel := Function.update s.kernel fd ((s.ctx fd).events.diff m) } fd m
      (h.good fd) hm
  simp only [epollCtl_left, hread, bind, Except.bind, hwrite, fired_moved hm]
  rfl

/-- What an operation with a state, a descriptor of the table and its success
can do: nothing, register a task, delete one, or trigger the tasks of a mask. -/
inductive Does (s : State) : Op → State × Bool × List Scheduled → Prop where
  | idle {op : Op} {done : Bool} :
      (∀ fd e cb fiber scheduler ok, op = .addEvent fd e cb fiber scheduler ok → done = false) →
      (∀ fd e ok, op = .delEvent fd e ok → done = false) → Does s op (s, done, [])
  | add {fd : Fd} {e : Event} {cb : Option CallbackId} {fiber : FiberId} {scheduler : SchedulerId} :
      fd < s.size → (s.ctx fd).events.has e = false →
      Does s (.addEvent fd e cb fiber scheduler true)
        (s.moved fd ((s.ctx fd).holding e (scheduler, taskOf cb fiber)), true, [])
  | del {fd : Fd} {e : Event} : fd < s.size → (s.ctx fd).events.has e = true →
      Does s (.delEvent fd e true) (s.moved fd ((s.ctx fd).cleared e), true, [])
  | trigger {op : Op} {fd : Fd} {m : Events} : op.ok = true →
      (∀ fd e cb fiber scheduler ok, op ≠ .addEvent fd e cb fiber scheduler ok) →
      (∀ fd e ok, op ≠ .delEvent fd e ok) → fd < s.size →
      (∀ e, m.has e = true → (s.ctx fd).events.has e = true) →
      Does s op (s.moved fd ((s.ctx fd).clear m), true, held s fd m)

theorem delEvent_idle {ok : Bool} (hidle : ¬ ((s.ctx fd).events.has e = true ∧ ok = true)) :
    delEvent s fd e ok = (s, false) := by
  unfold delEvent
  cases hhas : (s.ctx fd).events.has e with
  | false => simp [hhas]
  | true =>
    obtain rfl : ok = false := by simpa [hhas] using hidle
    simp [epollCtl]

theorem cancelEvent_idle {ok : Bool} (hidle : ¬ ((s.ctx fd).events.has e = true ∧ ok = true)) :
    cancelEvent s fd e ok = .ok (s, false, []) := by
  unfold cancelEvent
  cases hhas : (s.ctx fd).events.has e with
  | false => simp [hhas]
  | true =>
    obtain rfl : ok = false := by simpa [hhas] using hidle
    simp [epollCtl]

theorem cancelAll_idle {ok : Bool} (hidle : ¬ ((s.ctx fd).events ≠ .none ∧ ok = true)) :
    cancelAll s fd ok = .ok (s, false, []) := by
  unfold cancelAll
  by_cases hnone : (s.ctx fd).events = .none
  · simp [hnone]
  · obtain rfl : ok = false := by simpa [hnone] using hidle
    simp [epollCtl, hnone]

theorem dispatch_idle {report : Report} {ok : Bool}
    (hidle : ¬ ((s.ctx fd).events.inter (realEvents (s.ctx fd).events report) ≠ .none ∧ ok = true)) :
    dispatch s fd report ok = .ok (s, []) := by
  unfold dispatch
  dsimp only
  by_cases hnone : (s.ctx fd).events.inter (realEvents (s.ctx fd).events report) = .none
  · rw [if_pos hnone]
  · obtain rfl : ok = false := by simpa [hnone] using hidle
    rw [if_neg hnone]
    rfl

/-- A hang-up adds no event that is not registered. -/
theorem has_realEvents {registered : Events} {report : Report} (hreport : report.events.diff registered = .none)
    (hreal : (realEvents registered report).has e = true) : registered.has e = true := by
  have hsub : report.events.has e = true → registered.has e = true := by
    intro hin
    have hnot := congrArg (fun m => m.has e) hreport
    simpa [hin] using hnot
  unfold realEvents at hreal
  split at hreal
  · rw [Events.has_union, Bool.or_eq_true] at hreal
    exact hreal.elim hsub id
  · exact hsub hreal

theorem apply_does {op : Op} (h : Accounted s) (he : enabled s op = true) :
    ∃ r, apply s op = .ok r ∧ Does s op r := by
  cases op with
  | addEvent fd e cb fiber scheduler ok =>
    obtain ⟨hfd, hfree⟩ : fd < s.size ∧ (s.ctx fd).events.has e = false := by simpa [enabled] using he
    cases ok with
    | false =>
      refine ⟨(s, false, []), ?_, .idle (fun _ _ _ _ _ _ _ => rfl) nofun⟩
      simp [apply, addEvent, hfd, Nat.not_le.2 hfd, hfree, epollCtl, bind, Except.bind]
    | true =>
      refine ⟨_, ?_, .add hfd hfree⟩
      simp only [apply, addEvent_spec h hfd hfree]
      rfl
  | delEvent fd e ok =>
    have hfd : fd < s.size := by simpa [enabled] using he
    by_cases hreg : (s.ctx fd).events.has e = true ∧ ok = true
    · obtain ⟨hreg, rfl⟩ := hreg
      refine ⟨_, ?_, .del hfd hreg⟩
      simp only [apply, delEvent_spec hfd hreg]
    · refine ⟨(s, false, []), ?_, .idle nofun fun _ _ _ _ => rfl⟩
      simp only [apply, delEvent_idle hreg]
  | cancelEvent fd e ok =>
    have hfd : fd < s.size := by simpa [enabled] using he
    by_cases hreg : (s.ctx fd).events.has e = true ∧ ok = true
    · obtain ⟨hreg, rfl⟩ := hreg
      refine ⟨_, cancelEvent_spec h hfd hreg, .trigger rfl nofun nofun hfd ?_⟩
      intro f hf
      obtain rfl : f = e := by simpa using hf
      exact hreg
    · exact ⟨(s, false, []), cancelEvent_idle hreg, .idle nofun nofun⟩
  | cancelAll fd ok =>
    have hfd : fd < s.size := by simpa [enabled] using he
    by_cases hreg : (s.ctx fd).events ≠ .none ∧ ok = true
    · obtain ⟨hreg, rfl⟩ := hreg
      exact ⟨_, cancelAll_spec h hfd hreg, .trigger rfl nofun nofun hfd fun e he => he⟩
    · exact ⟨(s, false, []), cancelAll_idle hreg, .idle nofun nofun⟩
  | dispatch fd report ok =>
    obtain ⟨hfd, hreport⟩ : fd < s.size ∧ report.events.diff (s.ctx fd).events = .none := by
      simpa [enabled] using he
    have hm : ∀ e, (realEvents (s.ctx fd).events report).has e = true → (s.ctx fd).events.has e = true :=
      fun e => has_realEvents hreport
    by_cases hreg : (s.ctx fd).events.inter (realEvents (s.ctx fd).events report) ≠ .none ∧ ok = true
    · obtain ⟨hreg, rfl⟩ := hreg
      refine ⟨_, ?_, .trigger rfl nofun nofun hfd hm⟩
      simp only [apply, dispatch_spec h hm hreg]
      rfl
    · refine ⟨(s, true, []), ?_, .idle nofun nofun⟩
      simp only [apply, dispatch_idle hreg]
      rfl

theorem Does.accounted {op : Op} {r : State × Bool × List Scheduled} (h : Accounted s) (hd : Does s op r) :
    Accounted r.1 := by
  cases hd with
  | idle => exact h
  | add hfd => exact h.moved hfd ((h.good _).holding _ _)
  | del hfd => exact h.moved hfd ((h.good _).cleared _)
  | trigger _ _ _ hfd => exact h.moved hfd ((h.good _).clear _)

/-- A failed `epoll_ctl` changes nothing and schedules nothing. -/
theorem Does.failed {op : Op} {r : State × Bool × List Scheduled} (hd : Does s op r) (hok : op.ok = false) :
    r.1 = s ∧ r.2.2 = [] := by
  cases hd with
  | idle => exact ⟨rfl, rfl⟩
  | add => exact absurd hok (by simp [Op.ok])
  | del => exact absurd hok (by simp [Op.ok])
  | trigger ht => exact absurd hok (by simp [ht])

/-! ## The history of an event -/

/-- What happens to the registration of an event. -/
inductive Entry where
  | registered (task : SchedulerId × Task)
  | scheduled (task : SchedulerId × Task)
  | deleted
  deriving DecidableEq, Repr

/-- What a step shows of it: the calls of `addEvent` and `delEvent` that
succeed, and what is scheduled. -/
def log (s : State) (op : Op) : List (Fd × Event × Entry) :=
  match apply s op with
  | .error _ => []
  | .ok (_, done, out) =>
    (match op with
      | .addEvent fd event cb fiber scheduler _ =>
        if done then [(fd, event, .registered (scheduler, taskOf cb fiber))] else []
      | .delEvent fd event _ => if done then [(fd, event, .deleted)] else []
      | _ => []) ++ out.map fun x => (x.fd, x.event, .scheduled (x.scheduler, x.task))

/-- The entries of one event. -/
def entries (fd : Fd) (e : Event) (l : List (Fd × Event × Entry)) : List Entry :=
  l.filterMap fun x => if x.1 = fd ∧ x.2.1 = e then some x.2.2 else none

/-- A task that is registered is then either scheduled, which is the one that
was registered, or deleted, and only then the next one is registered. -/
def follow : Option (SchedulerId × Task) → Entry → Option (Option (SchedulerId × Task))
  | none, .registered t => some (some t)
  | some t, .scheduled u => if t = u then some none else none
  | some _, .deleted => some none
  | _, _ => none

@[simp] theorem entries_nil (fd : Fd) (e : Event) : entries fd e [] = [] := rfl

theorem entries_append (fd : Fd) (e : Event) (l₁ l₂ : List (Fd × Event × Entry)) :
    entries fd e (l₁ ++ l₂) = entries fd e l₁ ++ entries fd e l₂ := List.filterMap_append

theorem entries_held {f : Fd} (s : State) (fd : Fd) (m : Events) (e : Event) :
    entries f e ((held s fd m).map fun x => (x.fd, x.event, .scheduled (x.scheduler, x.task))) =
      if f = fd ∧ m.has e = true then ((s.ctx fd).getContext e).task.toList.map .scheduled else [] := by
  obtain ⟨r, w⟩ := m
  by_cases hf : f = fd
  · subst hf
    cases hread : ((s.ctx f).getContext .read).task <;> cases hwrite : ((s.ctx f).getContext .write).task <;>
      cases r <;> cases w <;> cases e <;> simp [held, entries, hread, hwrite, Events.has]
  · have hne : ¬ fd = f := fun he => hf he.symm
    cases r <;> cases w <;> simp [held, entries, hf, hne]

/-- Each event of a mask that is triggered schedules the task it had. -/
theorem follow_held {fd' : Fd} {m : Events} (h : Accounted s)
    (hm : ∀ e, m.has e = true → (s.ctx fd').events.has e = true) (fd : Fd) (e : Event) :
    (entries fd e ((held s fd' m).map fun x => (x.fd, x.event, .scheduled (x.scheduler, x.task)))).foldlM follow
      ((s.ctx fd).getContext e).task =
    some (((s.moved fd' ((s.ctx fd').clear m)).ctx fd).getContext e).task := by
  rw [entries_held]
  by_cases hf : fd = fd'
  · subst hf
    by_cases he : m.has e = true
    · obtain ⟨t, ht⟩ := (h.good fd).held e (hm e he)
      simp [he, ht, follow, State.moved]
    · simp [he, State.moved]
  · simp [hf, State.moved]

/-- The entries of one event in a step lead from the task it had to the one it has. -/
theorem Does.follows {op : Op} {r : State × Bool × List Scheduled} (h : Accounted s) (hd : Does s op r)
    (happly : apply s op = .ok r) (fd : Fd) (e : Event) :
    (entries fd e (log s op)).foldlM follow ((s.ctx fd).getContext e).task =
      some ((r.1.ctx fd).getContext e).task := by
  unfold log
  rw [happly]
  cases hd with
  | @idle op done hadd hdel =>
    cases op with
    | addEvent => simp [hadd _ _ _ _ _ _ rfl]
    | delEvent => simp [hdel _ _ _ rfl]
    | cancelEvent | cancelAll | dispatch => simp
  | @add fd' e' cb fiber scheduler hfd hfree =>
    have hempty := (h.good fd').free e' hfree
    -- the entry is one of this slot or of another one
    by_cases hslot : fd = fd' ∧ e = e'
    · obtain ⟨rfl, rfl⟩ := hslot
      simp [entries, hempty, follow, State.moved]
    · have hnot : ¬ (fd' = fd ∧ e' = e) := fun hs => hslot ⟨hs.1.symm, hs.2.symm⟩
      by_cases hf : fd = fd'
      · subst hf
        have he : e ≠ e' := fun he => hslot ⟨rfl, he⟩
        simp [entries, State.moved, he, he.symm]
      · have hf' : ¬ fd' = fd := fun hs => hf hs.symm
        simp [entries, State.moved, hf, hf']
  | @del fd' e' hfd hreg =>
    obtain ⟨t, ht⟩ := (h.good fd').held e' hreg
    by_cases hf : fd = fd'
    · subst hf
      by_cases he : e = e'
      · subst he
        simp [entries, ht, follow, State.moved]
      · have he' : ¬ e' = e := fun hs => he hs.symm
        simp [entries, State.moved, he, he']
    · have hf' : ¬ fd' = fd := fun hs => hf hs.symm
      simp [entries, State.moved, hf, hf']
  | @trigger op fd' m hok hadd hdel hfd hm =>
    have hheld := follow_held h hm fd e
    cases op with
    | addEvent => exact absurd rfl (hadd _ _ _ _ _ _)
    | delEvent => exact absurd rfl (hdel _ _ _)
    | cancelEvent | cancelAll | dispatch => exact hheld

/-! ## Runs -/

variable {size : Nat} {hist : List (State × Op)} {op : Op}

theorem step_does (h : Accounted s) (hs : step s op = some s') :
    ∃ r, apply s op = .ok r ∧ Does s op r ∧ r.1 = s' := by
  unfold step at hs
  split at hs
  · rename_i he
    obtain ⟨r, happly, hd⟩ := apply_does h he
    rw [happly] at hs
    exact ⟨r, happly, hd, Option.some.inj hs⟩
  · cases hs

theorem accounted_of_run (h : Run step (init size) hist s) : Accounted s := by
  refine h.always (accounted_init size) ?_
  intro s op s' hs hstep
  obtain ⟨r, -, hd, rfl⟩ := step_does hs hstep
  exact hd.accounted hs

theorem follows_of_run (h : Run step (init size) hist s) (fd : Fd) (e : Event) :
    (entries fd e (output log hist)).foldlM follow none = some ((s.ctx fd).getContext e).task := by
  induction h with
  | start => cases e <;> rfl
  | @next hist s s' op hrun hstep ih =>
    have hs := accounted_of_run hrun
    obtain ⟨r, happly, hd, rfl⟩ := step_does hs hstep
    have hlast := hd.follows hs happly fd e
    simp only [output, List.flatMap_append, List.flatMap_cons, List.flatMap_nil, List.append_nil,
      entries_append, List.foldlM_append] at ih ⊢
    rw [ih]
    exact hlast

/-! ## Growth -/

/-- Nothing is registered behind the end of the table. -/
def Bounded (s : State) : Prop := ∀ fd, s.size ≤ fd → s.ctx fd = .empty

theorem Bounded.moved (h : Bounded s) (hfd : fd < s.size) (c : FdContext) : Bounded (s.moved fd c) := by
  intro u hu
  have hne : u ≠ fd := fun he => Nat.not_le.2 hfd (he ▸ hu)
  simpa [State.moved, hne] using h u hu

theorem Does.bounded {r : State × Bool × List Scheduled} (h : Bounded s) (hd : Does s op r) : Bounded r.1 := by
  cases hd with
  | idle => exact h
  | add hfd => exact h.moved hfd _
  | del hfd => exact h.moved hfd _
  | trigger _ _ _ hfd => exact h.moved hfd _

theorem bounded_of_run (h : Run step (init size) hist s) : Bounded s := by
  have hboth : Accounted s ∧ Bounded s := by
    refine h.always (I := fun s => Accounted s ∧ Bounded s) ⟨accounted_init size, fun fd _ => rfl⟩ ?_
    intro s op s' hs hstep
    obtain ⟨r, -, hd, rfl⟩ := step_does hs.1 hstep
    exact ⟨hd.accounted hs.1, hd.bounded hs.2⟩
  exact hboth.2

/-- The table with a larger size. -/
def State.grown (s : State) (n : Nat) : State := { s with size := n }

theorem bits_grown {bit : Events → Bool} (h : Bounded s) (hbit : bit .none = false) {n : Nat}
    (hn : s.size ≤ n) :
    bits bit (s.grown n) = bits bit s := by
  unfold bits
  show (List.range n).countP _ = _
  obtain ⟨k, rfl⟩ := Nat.exists_eq_add_of_le hn
  rw [List.range_add, List.countP_append, List.countP_map]
  have hnew :
      (List.range k).countP ((fun fd => bit ((s.grown (s.size + k)).ctx fd).events) ∘ (s.size + ·)) = 0 := by
    refine List.countP_eq_zero.2 ?_
    intro i _
    have hempty : s.ctx (s.size + i) = .empty := h (s.size + i) (Nat.le_add_right _ _)
    simp [State.grown, hempty, FdContext.empty, hbit]
  rw [hnew]
  rfl

theorem Accounted.grown (h : Accounted s) (hb : Bounded s) {n : Nat} (hn : s.size ≤ n) :
    Accounted (s.grown n) := by
  refine ⟨h.good, h.kernel, ?_⟩
  have hpending := h.pending
  unfold total at hpending ⊢
  rw [bits_grown hb rfl hn, bits_grown hb rfl hn]
  exact hpending

theorem Bounded.grown (h : Bounded s) {n : Nat} (hn : s.size ≤ n) : Bounded (s.grown n) := by
  intro fd hfd
  exact h fd (Nat.le_trans hn hfd)

/-- `addEvent` with any table that the code can have: it returns, if it does not
fail, with the table of before, which may have grown, or with the task registered. -/
theorem addEvent_cases (h : Accounted s) (hb : Bounded s) {cb : Option CallbackId} {fiber : FiberId}
    {scheduler : SchedulerId} {ok : Bool} {rt : Int}
    (hadd : addEvent s fd e cb fiber (some scheduler) ok = .ok (s', rt)) :
    ∃ n, s.size ≤ n ∧ (s.ctx fd).events.has e = false ∧
      (s' = s.grown n ∧ rt = -1 ∨
        fd < n ∧ rt = 0 ∧ s' = (s.grown n).moved fd ((s.ctx fd).holding e (scheduler, taskOf cb fiber))) := by
  -- the table in which the descriptor is looked up
  obtain ⟨n, hn, hfd, hsame⟩ : ∃ n, s.size ≤ n ∧ fd < n ∧
      addEvent s fd e cb fiber (some scheduler) ok =
        addEvent (s.grown n) fd e cb fiber (some scheduler) ok := by
    by_cases hfd : fd < s.size
    · exact ⟨s.size, Nat.le_refl _, hfd, rfl⟩
    · have hlarge : ¬ s.size * 3 / 2 ≤ fd := by
        intro hle
        unfold addEvent at hadd
        simp only [hfd, if_false, hle, if_true, reduceCtorEq] at hadd
      have hfd' : fd < s.size * 3 / 2 := Nat.not_le.1 hlarge
      refine ⟨s.size * 3 / 2, by omega, hfd', ?_⟩
      unfold addEvent
      simp only [hfd, if_false, State.grown, hfd', if_true]
  -- adding an event twice runs into the assertion
  have hfree : (s.ctx fd).events.has e = false := by
    by_contra hreg
    have hhas : (s.ctx fd).events.has e = true := by simpa using hreg
    rw [hsame] at hadd
    unfold addEvent at hadd
    simp only [State.grown, hfd, if_true, Nat.not_le.2 hfd, if_false, hhas, reduceCtorEq] at hadd
  refine ⟨n, hn, hfree, ?_⟩
  rw [hsame] at hadd
  cases ok with
  | false =>
    unfold addEvent at hadd
    simp only [State.grown, hfd, if_true, Nat.not_le.2 hfd, if_false, hfree, epollCtl,
      Bool.false_eq_true, Except.ok.injEq, Prod.mk.injEq] at hadd
    exact .inl ⟨hadd.1.symm, hadd.2.symm⟩
  | true =>
    rw [addEvent_spec (h.grown hb hn) hfd hfree, Except.ok.injEq, Prod.mk.injEq] at hadd
    exact .inr ⟨hfd, hadd.2.symm, hadd.1.symm⟩

/-- What the table is between two operations. -/
structure Registered (s : State) : Prop where
  pending : s.pendingEventCount = total s
  kernel : ∀ fd, s.kernel fd = (s.ctx fd).events
  scheduler : ∀ fd e, (s.ctx fd).events.has e = true ↔ ((s.ctx fd).getContext e).scheduler ≠ none
  empty : ∀ fd e, (s.ctx fd).events.has e = false → (s.ctx fd).getContext e = .empty

theorem Accounted.registered (h : Accounted s) : Registered s := by
  refine ⟨h.pending, h.kernel, ?_, fun fd => (h.good fd).free⟩
  intro fd e
  constructor
  · intro he
    obtain ⟨⟨scheduler, cb | fiber⟩, ht⟩ := (h.good fd).held e he <;> simp [ht, EventContext.of]
  · intro hs
    by_contra he
    rw [(h.good fd).free e (by simpa using he)] at hs
    exact hs rfl

/-- A hang-up takes both events of a descriptor. Of two that come after, one is
deleted at the second attempt and one cancelled. -/
def hangUp : List Op :=
  [.addEvent 3 .read none 7 1 true, .addEvent 3 .write (some 9) 7 1 true,
    .dispatch 3 ⟨⟨true, false⟩, true⟩ true, .addEvent 3 .read none 8 1 true, .delEvent 3 .read false,
      .addEvent 4 .write none 8 1 true, .delEvent 3 .read true,
    .cancelAll 4 true, .addEvent 5 .read (some 6) 8 1 true]

end Linko.Io
