import Linko.Lib.CString
import Linko.Lib.Runs
import Mathlib.Data.List.Nodup
import Mathlib.Logic.Function.Basic
import Mathlib.Tactic.Simps.Basic
/-!
# Starting threads

The constructor of `Thread` and `Thread::run`, for any number of threads at a
time: each statement of `run` and each half of a constructor is a step. A
constructor waits on the semaphore of its object until `run` has taken what it
needs out of the object, which may be destroyed afterwards.
-/

namespace Linko.Threads

open CString Runs

/-- What `GetThreadId` gives: the id of a thread in the kernel. -/
abbrev Tid := Nat

abbrev ThreadId := Nat

abbrev CallbackId := Nat

/-- Where an object is in its life. -/
inductive Life where
  /-- Before `pthread_create`. -/
  | creating
  /-- `m_semaphore.wait()` in the constructor. -/
  | waiting
  | made
  /-- Destroyed, or never made since `pthread_create` has failed. -/
  | gone
  deriving DecidableEq, Repr

/-- `Thread`. An `m_id` of -1 and an `m_thread` of 0 are `none`. -/
structure Thread where
  id : Option Tid
  thread : Option Tid
  cb : Option CallbackId
  name : Bytes
  semaphore : Nat
  life : Life
  deriving DecidableEq, Repr

/-- The next statement of `run`. -/
inductive Place where
  /-- `t_thread = thread` -/
  | setThis
  /-- `t_thread_name = thread->getName()` -/
  | setName
  /-- `thread->m_id = linko::GetThreadId()` -/
  | setId
  /-- `pthread_setname_np` -/
  | label
  /-- `cb.swap(thread->m_cb)` -/
  | swap
  /-- `thread->m_semaphore.notify()` -/
  | notify
  /-- `cb()` -/
  | call
  /-- In the callback. -/
  | calling
  | ended
  deriving DecidableEq, Repr

/-- A thread in `run`: its argument, its thread-local variables, and its `cb`. -/
structure Running where
  arg : ThreadId
  place : Place
  tThread : Option ThreadId
  tThreadName : Bytes
  label : Bytes
  cb : Option CallbackId
  deriving DecidableEq, Repr

structure State where
  made : Nat
  objs : ThreadId → Thread
  running : Tid → Option Running
  /-- What `run` has called, and in which thread. -/
  calls : List (Tid × CallbackId)
  /-- An object has been used that is gone. -/
  fault : Bool

inductive Act where
  /-- `Thread(cb, name)`, up to `pthread_create`. -/
  | construct (cb : CallbackId) (name : Bytes)
  /-- `pthread_create`, with the new thread or an error. -/
  | create (i : ThreadId) (k : Option Tid)
  | wait (i : ThreadId)
  /-- The next statement of `run`. -/
  | go (k : Tid)
  /-- `Thread::SetName` in the callback. -/
  | setName (k : Tid) (name : Bytes)
  | join (i : ThreadId)
  /-- `~Thread` -/
  | destroy (i : ThreadId)
  deriving DecidableEq, Repr

def unknow : Bytes := ascii "UNKNOW"

def init : State where
  made := 0
  objs _ := ⟨none, none, none, [], 0, .gone⟩
  running _ := none
  calls := []
  fault := false

/-- The object of a constructor that has not called `pthread_create`. -/
def Thread.new (cb : CallbackId) (name : Bytes) : Thread :=
  ⟨none, none, some cb, if name = [] then unknow else name, 0, .creating⟩

namespace State

variable (s : State)

@[simps] def setObj (i : ThreadId) (o : Thread) : State := { s with objs := Function.update s.objs i o }

@[simps] def setRunning (k : Tid) (r : Running) : State := { s with running := Function.update s.running k (some r) }

@[simps] def addObj (o : Thread) : State := { s with made := s.made + 1, objs := Function.update s.objs s.made o }

/-- Through a pointer to `i`, which may be gone. -/
def useObj (i : ThreadId) (f : Thread → Thread) : State :=
  if (s.objs i).life = .gone then { s with fault := true } else s.setObj i (f (s.objs i))

/-- Through `t_thread`. -/
def useThis : Option ThreadId → (Thread → Thread) → State
  | some i, f => s.useObj i f
  | none, _ => s

/-- The next statement of `run` in thread `k`. -/
def go (k : Tid) (r : Running) : Option State :=
  match r.place with
  | .setThis => some (s.setRunning k { r with place := .setName, tThread := some r.arg })
  | .setName =>
    some ((s.setRunning k { r with place := .setId, tThreadName := (s.objs r.arg).name }).useObj r.arg id)
  | .setId => some ((s.setRunning k { r with place := .label }).useObj r.arg fun o => { o with id := some k })
  | .label =>
    some ((s.setRunning k { r with place := .swap, label := (s.objs r.arg).name.take 15 }).useObj r.arg id)
  | .swap =>
    some ((s.setRunning k { r with place := .notify, cb := (s.objs r.arg).cb }).useObj r.arg
      fun o => { o with cb := none })
  | .notify =>
    some ((s.setRunning k { r with place := .call }).useObj r.arg fun o => { o with semaphore := o.semaphore + 1 })
  | .call => r.cb.map fun c => { s.setRunning k { r with place := .calling } with calls := s.calls ++ [(k, c)] }
  | .calling => some (s.setRunning k { r with place := .ended })
  | .ended => none

end State

def step (s : State) : Act → Option State
  | .construct cb name => some (s.addObj (Thread.new cb name))
  | .create i none =>
    if i < s.made ∧ (s.objs i).life = .creating then some (s.setObj i { s.objs i with life := .gone }) else none
  | .create i (some k) =>
    if i < s.made ∧ (s.objs i).life = .creating ∧ s.running k = none then
      some ((s.setObj i { s.objs i with thread := some k, life := .waiting }).setRunning k
        ⟨i, .setThis, none, unknow, [], none⟩)
    else none
  | .wait i =>
    if i < s.made ∧ (s.objs i).life = .waiting ∧ 0 < (s.objs i).semaphore then
      some (s.setObj i { s.objs i with semaphore := (s.objs i).semaphore - 1, life := .made })
    else none
  | .go k => do s.go k (← s.running k)
  | .setName k name => do
    let r ← s.running k
    if r.place = .calling then
      some ((s.setRunning k { r with tThreadName := name }).useThis r.tThread fun o => { o with name := name })
    else none
  | .join i =>
    if i < s.made ∧ (s.objs i).life = .made then
      match (s.objs i).thread with
      | none => some s
      | some k =>
        if (s.running k).any (fun r => r.place = .ended) then some (s.setObj i { s.objs i with thread := none }) else none
    else none
  | .destroy i =>
    if i < s.made ∧ (s.objs i).life = .made then some (s.setObj i { s.objs i with life := .gone }) else none

/-! ## What holds at each place -/

/-- What the constructors have been given. -/
def given (s : State) : Act → List (ThreadId × CallbackId)
  | .construct cb _ => [(s.made, cb)]
  | _ => []

variable {s s' : State} {evs : List (ThreadId × CallbackId)} {i : ThreadId} {r r' : Running} {o o' : Thread}

/-- The thread still needs the object. -/
def Running.needs (r : Running) : Bool :=
  match r.place with
  | .call | .calling | .ended => false
  | _ => true

/-- What it has called. -/
def Running.called (r : Running) : Option CallbackId :=
  match r.place with
  | .calling | .ended => r.cb
  | _ => none

/-- Thread `k` at place `r` fits its object `o`. -/
structure Stage (evs : List (ThreadId × CallbackId)) (k : Tid) (r : Running) (o : Thread) : Prop where
  needed : r.needs = true → o.life = .waiting ∧ o.semaphore = 0
  done : r.needs = false → o.life = .waiting ∧ o.semaphore = 1 ∨ o.life = .made ∧ o.semaphore = 0 ∨ o.life = .gone
  id : r.place ≠ .setThis → r.place ≠ .setName → r.place ≠ .setId → o.id = some k
  cb : (∃ c, (r.arg, c) ∈ evs ∧ (o.cb = some c ∧ r.cb = none ∨ o.cb = none ∧ r.cb = some c)) ∧
    (o.cb ≠ none ↔ r.place = .setThis ∨ r.place = .setName ∨ r.place = .setId ∨ r.place = .label ∨ r.place = .swap)
  this : r.place ≠ .setThis → r.tThread = some r.arg

structure Good (s : State) (evs : List (ThreadId × CallbackId)) : Prop where
  made : evs.map Prod.fst = List.range s.made
  arg : ∀ k r, s.running k = some r → r.arg < s.made
  one : ∀ k k' r r', s.running k = some r → s.running k' = some r' → r.arg = r'.arg → k = k'
  creating : ∀ i, i < s.made → (s.objs i).life = .creating → (∀ k r, s.running k = some r → r.arg ≠ i) ∧
    (s.objs i).semaphore = 0 ∧ ∃ c, (s.objs i).cb = some c ∧ (i, c) ∈ evs
  runs : ∀ i, i < s.made → (s.objs i).life = .waiting ∨ (s.objs i).life = .made →
    ∃ k r, s.running k = some r ∧ r.arg = i
  stage : ∀ k r, s.running k = some r → Stage evs k r (s.objs r.arg)

/-- Each thread has called what it says it has, once. -/
structure Called (s : State) : Prop where
  calls : ∀ k c, (k, c) ∈ s.calls ↔ ∃ r, s.running k = some r ∧ r.called = some c
  once : (s.calls.map Prod.fst).Nodup

theorem good_init : Good init [] where
  made := rfl
  arg _ _ h := nomatch h
  one _ _ _ _ h := nomatch h
  creating _ h := absurd h (Nat.not_lt_zero _)
  runs _ h := absurd h (Nat.not_lt_zero _)
  stage _ _ h := nomatch h

theorem called_init : Called init where
  calls _ _ := ⟨fun h => absurd h List.not_mem_nil, fun ⟨_, h, _⟩ => nomatch h⟩
  once := List.nodup_nil

/-- An object changes, with its thread. -/
theorem Good.setObj (h : Good s evs) (hi : i < s.made) (hlife : o'.life ≠ .creating)
    (hruns : o'.life = .waiting ∨ o'.life = .made → ∃ k r, s.running k = some r ∧ r.arg = i)
    (hstage : ∀ k r, s.running k = some r → r.arg = i → Stage evs k r o') : Good (s.setObj i o') evs where
  made := h.made
  arg := h.arg
  one := h.one
  creating j hj hcreating := by
    rw [State.setObj_objs] at hcreating ⊢
    by_cases hji : j = i
    · subst hji
      rw [Function.update_self] at hcreating
      exact absurd hcreating hlife
    · rw [Function.update_of_ne hji] at hcreating ⊢
      exact h.creating j hj hcreating
  runs j hj hrun := by
    rw [State.setObj_objs] at hrun
    by_cases hji : j = i
    · subst hji
      rw [Function.update_self] at hrun
      exact hruns hrun
    · rw [Function.update_of_ne hji] at hrun
      exact h.runs j hj hrun
  stage k r hk := by
    rw [State.setObj_objs]
    by_cases hki : r.arg = i
    · rw [hki, Function.update_self]
      exact hstage k r hk hki
    · rw [Function.update_of_ne hki]
      exact h.stage k r hk

/-- A thread goes on and changes its object. -/
theorem Good.move {k : Tid} (h : Good s evs) (hk : s.running k = some r) (harg : r'.arg = r.arg)
    (hlife : o'.life = (s.objs r.arg).life) (hstage : Stage evs k r' o') :
    Good ((s.setRunning k r').setObj r.arg o') evs := by
  -- what the threads are in the new state
  have hnew : ∀ a x, Function.update s.running k (some r') a = some x →
      a = k ∧ x = r' ∨ a ≠ k ∧ s.running a = some x := by
    intro a x ha
    by_cases hak : a = k
    · subst hak
      rw [Function.update_self] at ha
      exact .inl ⟨rfl, (Option.some.inj ha).symm⟩
    · rw [Function.update_of_ne hak] at ha
      exact .inr ⟨hak, ha⟩
  have hobj : ∀ j, j ≠ r.arg → Function.update s.objs r.arg o' j = s.objs j := fun j hj => Function.update_of_ne hj ..
  have hkeeps : ∀ j, (Function.update s.objs r.arg o' j).life = (s.objs j).life := by
    intro j
    by_cases hj : j = r.arg
    · rw [hj, Function.update_self, hlife]
    · rw [hobj j hj]
  refine ⟨h.made, ?_, ?_, ?_, ?_, ?_⟩
  · intro a x ha
    rcases hnew a x ha with ⟨-, rfl⟩ | ⟨-, ha⟩
    · rw [harg]
      exact h.arg k r hk
    · exact h.arg a x ha
  · intro a b x y ha hb hxy
    rcases hnew a x ha with ⟨hak, hx⟩ | ⟨-, hx⟩ <;> rcases hnew b y hb with ⟨hbk, hy⟩ | ⟨-, hy⟩
    · exact hak.trans hbk.symm
    · rw [hx, harg] at hxy
      exact hak.trans (h.one k b r y hk hy hxy)
    · rw [hy, harg] at hxy
      exact (h.one a k x r hx hk hxy).trans hbk.symm
    · exact h.one a b x y hx hy hxy
  · intro j hj hcreating
    obtain ⟨hnone, hrest⟩ := h.creating j hj ((hkeeps j).symm.trans hcreating)
    refine ⟨fun a x ha => ?_, ?_⟩
    · rcases hnew a x ha with ⟨-, rfl⟩ | ⟨-, ha⟩
      · rw [harg]
        exact hnone k r hk
      · exact hnone a x ha
    · have hne : j ≠ r.arg := fun he => hnone k r hk he.symm
      show (Function.update s.objs r.arg o' j).semaphore = 0 ∧
        ∃ c, (Function.update s.objs r.arg o' j).cb = some c ∧ (j, c) ∈ evs
      rw [hobj j hne]
      exact hrest
  · intro j hj hrun
    obtain ⟨a, x, ha, hx⟩ := h.runs j hj (hkeeps j ▸ hrun)
    by_cases hak : a = k
    · subst hak
      rw [hk] at ha
      cases ha
      exact ⟨a, r', Function.update_self .., harg.trans hx⟩
    · exact ⟨a, x, (Function.update_of_ne hak ..).trans ha, hx⟩
  · intro a x ha
    show Stage evs a x (Function.update s.objs r.arg o' x.arg)
    rcases hnew a x ha with ⟨rfl, rfl⟩ | ⟨hak, ha⟩
    · rw [harg, Function.update_self]
      exact hstage
    · rw [hobj x.arg fun he => hak (h.one a k x r ha hk he)]
      exact h.stage a x ha

/-- A thread goes on without its object. -/
theorem Good.goOn {k : Tid} (h : Good s evs) (hk : s.running k = some r) (harg : r'.arg = r.arg)
    (hstage : Stage evs k r' (s.objs r.arg)) : Good (s.setRunning k r') evs := by
  have hmove := h.move hk harg rfl hstage
  have hsame : (s.setRunning k r').setObj r.arg (s.objs r.arg) = s.setRunning k r' := by
    show { s.setRunning k r' with objs := Function.update s.objs r.arg (s.objs r.arg) } = s.setRunning k r'
    rw [Function.update_eq_self]
    rfl
  exact hsame ▸ hmove

theorem Called.goOn {k : Tid} (h : Called s) (hk : s.running k = some r) (hcalled : r'.called = r.called) :
    Called (s.setRunning k r') where
  calls a c := by
    refine (h.calls a c).trans ?_
    rw [State.setRunning_running]
    by_cases hak : a = k
    · subst hak
      rw [Function.update_self, hk]
      simp [hcalled]
    · rw [Function.update_of_ne hak]
  once := h.once

theorem Called.call {k : Tid} {c : CallbackId} (h : Called s) (hk : s.running k = some r) (hnone : r.called = none)
    (hcalled : r'.called = some c) : Called { s.setRunning k r' with calls := s.calls ++ [(k, c)] } where
  calls a d := by
    show (a, d) ∈ s.calls ++ [(k, c)] ↔ ∃ x, Function.update s.running k (some r') a = some x ∧ x.called = some d
    rw [List.mem_append, List.mem_singleton, h.calls]
    by_cases hak : a = k
    · subst hak
      rw [Function.update_self, hk]
      simp [hnone, hcalled, eq_comm]
    · rw [Function.update_of_ne hak]
      simp [hak]
  once := by
    show ((s.calls ++ [(k, c)]).map Prod.fst).Nodup
    rw [List.map_append, List.map_singleton, List.nodup_append]
    refine ⟨h.once, by simp, fun a ha b hb => ?_⟩
    -- the thread has called nothing before
    rintro rfl
    obtain ⟨⟨a', d⟩, hmem, rfl⟩ := List.mem_map.1 ha
    obtain ⟨x, hx, hd⟩ := (h.calls a' d).1 hmem
    rw [List.mem_singleton] at hb
    subst hb
    rw [hk] at hx
    cases hx
    rw [hnone] at hd
    cases hd

theorem Called.of_eq (h : Called s) (hcalls : s'.calls = s.calls) (hrunning : s'.running = s.running) : Called s' where
  calls k c := by
    rw [hcalls, hrunning]
    exact h.calls k c
  once := hcalls ▸ h.once

@[simp] theorem useObj_calls (s : State) (i : ThreadId) (f : Thread → Thread) : (s.useObj i f).calls = s.calls := by
  unfold State.useObj
  split <;> rfl

@[simp] theorem useObj_running (s : State) (i : ThreadId) (f : Thread → Thread) :
    (s.useObj i f).running = s.running := by
  unfold State.useObj
  split <;> rfl

/-- An object that a thread needs is not gone. -/
theorem Good.useObj {k : Tid} {f : Thread → Thread} (h : Good s evs) (hk : s.running k = some r)
    (hneeds : r.needs = true) (harg : r'.arg = r.arg) (hlife : (f (s.objs r.arg)).life = (s.objs r.arg).life)
    (hstage : Stage evs k r' (f (s.objs r.arg))) :
    Good ((s.setRunning k r').useObj r.arg f) evs ∧ ((s.setRunning k r').useObj r.arg f).fault = s.fault := by
  have hwaiting := ((h.stage k r hk).needed hneeds).1
  have halive : ((s.setRunning k r').objs r.arg).life ≠ .gone := by
    rw [State.setRunning_objs, hwaiting]
    nofun
  rw [State.useObj, if_neg halive]
  exact ⟨h.move hk harg hlife hstage, rfl⟩

/-! ## The statements of `run` -/

theorem Good.go {k : Tid} (h : Good s evs) (hk : s.running k = some r) (hgo : s.go k r = some s') :
    Good s' evs ∧ s'.fault = s.fault := by
  obtain ⟨hneeded, hdone, hid, ⟨⟨c, hc, hcb⟩, hfull⟩, hthis⟩ := h.stage k r hk
  unfold State.go at hgo
  cases hplace : r.place <;> rw [hplace] at hgo <;> simp only [hplace] at hfull
  case setThis =>
    cases hgo
    obtain ⟨hlife, hsem⟩ := hneeded (by simp [Running.needs, hplace])
    refine ⟨h.goOn hk rfl ?_, rfl⟩
    exact ⟨fun _ => ⟨hlife, hsem⟩, nofun, nofun, ⟨⟨c, hc, hcb⟩, by simpa using hfull⟩, fun _ => rfl⟩
  case setName =>
    cases hgo
    have hneeds : r.needs = true := by simp [Running.needs, hplace]
    refine h.useObj hk hneeds rfl rfl ?_
    exact ⟨fun _ => hneeded hneeds, nofun, nofun, ⟨⟨c, hc, hcb⟩, by simpa using hfull⟩, fun _ => hthis (by simp [hplace])⟩
  case setId =>
    cases hgo
    have hneeds : r.needs = true := by simp [Running.needs, hplace]
    refine h.useObj hk hneeds rfl rfl ?_
    exact ⟨fun _ => hneeded hneeds, nofun, fun _ _ _ => rfl, ⟨⟨c, hc, hcb⟩, by simpa using hfull⟩,
      fun _ => hthis (by simp [hplace])⟩
  case label =>
    cases hgo
    have hneeds : r.needs = true := by simp [Running.needs, hplace]
    refine h.useObj hk hneeds rfl rfl ?_
    exact ⟨fun _ => hneeded hneeds, nofun, fun _ _ _ => hid (by simp [hplace]) (by simp [hplace]) (by simp [hplace]),
      ⟨⟨c, hc, hcb⟩, by simpa using hfull⟩, fun _ => hthis (by simp [hplace])⟩
  case swap =>
    cases hgo
    have hneeds : r.needs = true := by simp [Running.needs, hplace]
    have hsome : (s.objs r.arg).cb = some c := (hcb.resolve_right fun hnone => hfull.2 (by simp) hnone.1).1
    refine h.useObj hk hneeds rfl rfl ?_
    exact ⟨fun _ => hneeded hneeds, nofun, fun _ _ _ => hid (by simp [hplace]) (by simp [hplace]) (by simp [hplace]),
      ⟨⟨c, hc, .inr ⟨rfl, hsome⟩⟩, by simp⟩, fun _ => hthis (by simp [hplace])⟩
  case notify =>
    cases hgo
    have hneeds : r.needs = true := by simp [Running.needs, hplace]
    obtain ⟨hlife, hsem⟩ := hneeded hneeds
    refine h.useObj hk hneeds rfl rfl ?_
    exact ⟨nofun, fun _ => .inl ⟨hlife, congrArg (· + 1) hsem⟩,
      fun _ _ _ => hid (by simp [hplace]) (by simp [hplace]) (by simp [hplace]),
      ⟨⟨c, hc, hcb⟩, by simpa using hfull⟩, fun _ => hthis (by simp [hplace])⟩
  case call =>
    obtain ⟨d, -, hs'⟩ := Option.map_eq_some_iff.1 hgo
    subst hs'
    have hgood : Good (s.setRunning k { r with place := .calling }) evs := by
      refine h.goOn hk rfl ⟨nofun, fun _ => hdone (by simp [Running.needs, hplace]), ?_, ?_, ?_⟩
      · exact fun _ _ _ => hid (by simp [hplace]) (by simp [hplace]) (by simp [hplace])
      · exact ⟨⟨c, hc, hcb⟩, by simpa using hfull⟩
      · exact fun _ => hthis (by simp [hplace])
    exact ⟨⟨hgood.made, hgood.arg, hgood.one, hgood.creating, hgood.runs, hgood.stage⟩, rfl⟩
  case calling =>
    cases hgo
    refine ⟨h.goOn hk rfl ⟨nofun, fun _ => hdone (by simp [Running.needs, hplace]), ?_, ?_, ?_⟩, rfl⟩
    · exact fun _ _ _ => hid (by simp [hplace]) (by simp [hplace]) (by simp [hplace])
    · exact ⟨⟨c, hc, hcb⟩, by simpa using hfull⟩
    · exact fun _ => hthis (by simp [hplace])
  case ended => cases hgo

theorem Called.go {k : Tid} (h : Called s) (hg : Good s evs) (hk : s.running k = some r)
    (hgo : s.go k r = some s') : Called s' := by
  have hsilent := (hg.stage k r hk).cb.2
  unfold State.go at hgo
  cases hplace : r.place <;> rw [hplace] at hgo <;> simp only [hplace] at hsilent
  case call =>
    obtain ⟨d, hd, hs'⟩ := Option.map_eq_some_iff.1 hgo
    subst hs'
    exact h.call hk (by simp [Running.called, hplace]) hd
  case ended => cases hgo
  case setThis =>
    cases hgo
    exact h.goOn hk (by simp [Running.called, hplace])
  case calling =>
    cases hgo
    exact h.goOn hk (by simp [Running.called, hplace])
  all_goals
    cases hgo
    exact (h.goOn hk (by simp [Running.called, hplace])).of_eq (useObj_calls ..) (useObj_running ..)

/-! ## The other steps -/

theorem Good.construct (h : Good s evs) (cb : CallbackId) (name : Bytes) :
    Good (s.addObj (Thread.new cb name)) (evs ++ [(s.made, cb)]) := by
  have hold : ∀ j, j < s.made → (s.addObj (Thread.new cb name)).objs j = s.objs j :=
    fun j hj => Function.update_of_ne (Nat.ne_of_lt hj) ..
  have hlast : (s.addObj (Thread.new cb name)).objs s.made = Thread.new cb name := Function.update_self ..
  refine ⟨?_, fun k r hk => Nat.lt_succ_of_lt (h.arg k r hk), h.one, ?_, ?_, ?_⟩
  · rw [State.addObj_made, List.map_append, h.made, List.range_succ]
    rfl
  · intro j hj hcreating
    rcases Nat.lt_succ_iff_lt_or_eq.1 hj with hlt | rfl
    · rw [hold j hlt] at hcreating ⊢
      obtain ⟨hnone, hsem, c, hc, hmem⟩ := h.creating j hlt hcreating
      exact ⟨hnone, hsem, c, hc, List.mem_append_left _ hmem⟩
    · refine ⟨fun k r hk => Nat.ne_of_lt (h.arg k r hk), ?_⟩
      rw [hlast]
      exact ⟨rfl, cb, rfl, List.mem_append_right _ List.mem_cons_self⟩
  · intro j hj hrun
    rcases Nat.lt_succ_iff_lt_or_eq.1 hj with hlt | rfl
    · rw [hold j hlt] at hrun
      exact h.runs j hlt hrun
    · rw [hlast] at hrun
      rcases hrun with hrun | hrun <;> cases hrun
  · intro k r hk
    rw [hold r.arg (h.arg k r hk)]
    obtain ⟨hneeded, hdone, hid, ⟨⟨c, hc, hcb⟩, hfull⟩, hthis⟩ := h.stage k r hk
    exact ⟨hneeded, hdone, hid, ⟨⟨c, List.mem_append_left _ hc, hcb⟩, hfull⟩, hthis⟩

theorem Good.fail (h : Good s evs) (hi : i < s.made) (hcreating : (s.objs i).life = .creating) :
    Good (s.setObj i { s.objs i with life := .gone }) evs := by
  refine h.setObj hi nofun (fun hrun => ?_) fun k r hk hki => ?_
  · rcases hrun with hrun | hrun <;> cases hrun
  · exact absurd hki ((h.creating i hi hcreating).1 k r hk)

theorem Good.create {k : Tid} (h : Good s evs) (hi : i < s.made) (hcreating : (s.objs i).life = .creating)
    (hk : s.running k = none) :
    Good ((s.setObj i { s.objs i with thread := some k, life := .waiting }).setRunning k
      ⟨i, .setThis, none, unknow, [], none⟩) evs := by
  obtain ⟨hnone, hsem, c, hc, hmem⟩ := h.creating i hi hcreating
  have hnew : ∀ a x, Function.update s.running k (some ⟨i, .setThis, none, unknow, [], none⟩) a = some x →
      a = k ∧ x = ⟨i, .setThis, none, unknow, [], none⟩ ∨ a ≠ k ∧ s.running a = some x := by
    intro a x ha
    by_cases hak : a = k
    · subst hak
      rw [Function.update_self] at ha
      exact .inl ⟨rfl, (Option.some.inj ha).symm⟩
    · rw [Function.update_of_ne hak] at ha
      exact .inr ⟨hak, ha⟩
  refine ⟨h.made, ?_, ?_, ?_, ?_, ?_⟩
  · intro a x ha
    rcases hnew a x ha with ⟨-, rfl⟩ | ⟨-, ha⟩
    · exact hi
    · exact h.arg a x ha
  · intro a b x y ha hb hxy
    rcases hnew a x ha with ⟨hak, hx⟩ | ⟨-, hx⟩ <;> rcases hnew b y hb with ⟨hbk, hy⟩ | ⟨-, hy⟩
    · exact hak.trans hbk.symm
    · rw [hx] at hxy
      exact absurd hxy.symm (hnone b y hy)
    · rw [hy] at hxy
      exact absurd hxy (hnone a x hx)
    · exact h.one a b x y hx hy hxy
  · intro j hj hcr
    have hne : j ≠ i := by
      rintro rfl
      have hcr : (Function.update s.objs j _ j).life = .creating := hcr
      rw [Function.update_self] at hcr
      cases hcr
    have hcr : (Function.update s.objs i _ j).life = .creating := hcr
    rw [Function.update_of_ne hne] at hcr
    obtain ⟨hnone', hrest⟩ := h.creating j hj hcr
    refine ⟨fun a x ha => ?_, ?_⟩
    · rcases hnew a x ha with ⟨-, rfl⟩ | ⟨-, ha⟩
      · exact fun he => hne he.symm
      · exact hnone' a x ha
    · show (Function.update s.objs i _ j).semaphore = 0 ∧ ∃ c, (Function.update s.objs i _ j).cb = some c ∧ (j, c) ∈ evs
      rw [Function.update_of_ne hne]
      exact hrest
  · intro j hj hrun
    by_cases hji : j = i
    · exact ⟨k, _, Function.update_self .., hji.symm⟩
    · have hrun : (Function.update s.objs i _ j).life = .waiting ∨ (Function.update s.objs i _ j).life = .made := hrun
      rw [Function.update_of_ne hji] at hrun
      obtain ⟨a, x, ha, hx⟩ := h.runs j hj hrun
      have hak : a ≠ k := by
        rintro rfl
        rw [hk] at ha
        cases ha
      exact ⟨a, x, (Function.update_of_ne hak ..).trans ha, hx⟩
  · intro a x ha
    show Stage evs a x (Function.update s.objs i _ x.arg)
    rcases hnew a x ha with ⟨rfl, rfl⟩ | ⟨-, ha⟩
    · rw [Function.update_self]
      exact ⟨fun _ => ⟨rfl, hsem⟩, nofun, fun hne => absurd rfl hne, ⟨⟨c, hmem, .inl ⟨hc, rfl⟩⟩, by simp [hc]⟩,
        fun hne => absurd rfl hne⟩
    · rw [Function.update_of_ne (hnone a x ha)]
      exact h.stage a x ha

theorem Called.create {k : Tid} (h : Called s) (hk : s.running k = none) :
    Called (s.setRunning k ⟨i, .setThis, none, unknow, [], none⟩) where
  calls a c := by
    refine (h.calls a c).trans ?_
    rw [State.setRunning_running]
    by_cases hak : a = k
    · subst hak
      rw [Function.update_self, hk]
      simp [Running.called]
    · rw [Function.update_of_ne hak]
  once := h.once

theorem Good.wait (h : Good s evs) (hi : i < s.made) (hwaiting : (s.objs i).life = .waiting)
    (hsem : 0 < (s.objs i).semaphore) :
    Good (s.setObj i { s.objs i with semaphore := (s.objs i).semaphore - 1, life := .made }) evs := by
  refine h.setObj hi nofun (fun _ => h.runs i hi (.inl hwaiting)) fun k r hk hki => ?_
  subst hki
  obtain ⟨hneeded, hdone, hid, hcb, hthis⟩ := h.stage k r hk
  -- the semaphore has been notified, so `run` is done with the object
  have hneeds : r.needs ≠ true := fun hneeds => Nat.ne_of_gt hsem (hneeded hneeds).2
  refine ⟨fun hn => absurd hn hneeds, fun hn => .inr (.inl ⟨rfl, ?_⟩), hid, hcb, hthis⟩
  rcases hdone hn with ⟨-, hone⟩ | ⟨hmade, -⟩ | hgone
  · exact congrArg (· - 1) hone
  · rw [hwaiting] at hmade
    cases hmade
  · rw [hwaiting] at hgone
    cases hgone

/-- A made object is joined or destroyed. -/
theorem Good.afterwards (h : Good s evs) (hi : i < s.made) (hmade : (s.objs i).life = .made)
    (hlife : o'.life = .made ∨ o'.life = .gone) (hid : o'.id = (s.objs i).id) (hcb : o'.cb = (s.objs i).cb)
    (hsem : o'.semaphore = (s.objs i).semaphore) : Good (s.setObj i o') evs := by
  refine h.setObj hi (fun hne => ?_) (fun _ => h.runs i hi (.inr hmade)) fun k r hk hki => ?_
  · rw [hne] at hlife
    rcases hlife with hlife | hlife <;> cases hlife
  · subst hki
    have hstage := h.stage k r hk
    have hneeds : r.needs ≠ true := by
      intro hneeds
      have hwaiting := (hstage.needed hneeds).1
      rw [hmade] at hwaiting
      cases hwaiting
    refine ⟨fun hn => absurd hn hneeds, fun hn => ?_, hid ▸ hstage.id, hcb ▸ hstage.cb, hstage.this⟩
    have hzero : o'.semaphore = 0 := by
      rcases hstage.done hn with ⟨hwaiting, -⟩ | ⟨-, hzero⟩ | hgone
      · rw [hmade] at hwaiting
        cases hwaiting
      · exact hsem.trans hzero
      · rw [hmade] at hgone
        cases hgone
    rcases hlife with hlife | hlife
    · exact .inr (.inl ⟨hlife, hzero⟩)
    · exact .inr (.inr hlife)

/-- `SetName` uses the object through `t_thread`. -/
theorem Good.setName {k : Tid} {name : Bytes} (h : Good s evs) (hk : s.running k = some r) :
    Good ((s.setRunning k { r with tThreadName := name }).useObj r.arg fun o => { o with name := name }) evs ∧
      (((s.setRunning k { r with tThreadName := name }).useObj r.arg fun o => { o with name := name }).fault = true →
        s.fault = true ∨ (s.objs r.arg).life = .gone) := by
  obtain ⟨hneeded, hdone, hid, hcb, hthis⟩ := h.stage k r hk
  have hstage : ∀ o : Thread, o.life = (s.objs r.arg).life → o.semaphore = (s.objs r.arg).semaphore →
      o.id = (s.objs r.arg).id → o.cb = (s.objs r.arg).cb → Stage evs k { r with tThreadName := name } o := by
    intro o hl hs hi hc
    exact ⟨hl ▸ hs ▸ hneeded, hl ▸ hs ▸ hdone, hi ▸ hid, hc ▸ hcb, hthis⟩
  unfold State.useObj
  split
  · rename_i hgone
    have hgood : Good (s.setRunning k { r with tThreadName := name }) evs :=
      h.goOn hk rfl (hstage _ rfl rfl rfl rfl)
    exact ⟨⟨hgood.made, hgood.arg, hgood.one, hgood.creating, hgood.runs, hgood.stage⟩, fun _ => .inr hgone⟩
  · have hgood : Good ((s.setRunning k { r with tThreadName := name }).setObj r.arg
        { s.objs r.arg with name := name }) evs :=
      h.move hk rfl rfl (hstage _ rfl rfl rfl rfl)
    exact ⟨hgood, .inl⟩

/-- `SetName` in a thread whose object is gone. -/
def Late (s : State) (a : Act) : Prop :=
  ∃ k name r, a = .setName k name ∧ s.running k = some r ∧ (s.objs r.arg).life = .gone

theorem step_good {a : Act} (h : Good s evs) (hc : Called s) (ha : step s a = some s') :
    Good s' (evs ++ given s a) ∧ Called s' ∧ (s'.fault = true → s.fault = true ∨ Late s a) := by
  cases a with
  | construct cb name =>
    cases ha
    exact ⟨h.construct cb name, hc.of_eq rfl rfl, .inl⟩
  | create i k =>
    rw [show given s (.create i k) = [] from rfl, List.append_nil]
    cases k with
    | none =>
      simp only [step] at ha
      split at ha
      · rename_i hpre
        cases ha
        exact ⟨h.fail hpre.1 hpre.2, hc.of_eq rfl rfl, .inl⟩
      · cases ha
    | some k =>
      simp only [step] at ha
      split at ha
      · rename_i hpre
        cases ha
        exact ⟨h.create hpre.1 hpre.2.1 hpre.2.2, (hc.create hpre.2.2).of_eq rfl rfl, .inl⟩
      · cases ha
  | wait i =>
    rw [show given s (.wait i) = [] from rfl, List.append_nil]
    simp only [step] at ha
    split at ha
    · rename_i hpre
      cases ha
      exact ⟨h.wait hpre.1 hpre.2.1 hpre.2.2, hc.of_eq rfl rfl, .inl⟩
    · cases ha
  | go k =>
    rw [show given s (.go k) = [] from rfl, List.append_nil]
    obtain ⟨r, hk, hgo⟩ := Option.bind_eq_some_iff.1 ha
    obtain ⟨hgood, hfault⟩ := h.go hk hgo
    exact ⟨hgood, hc.go h hk hgo, fun hf => .inl (hfault ▸ hf)⟩
  | setName k name =>
    rw [show given s (.setName k name) = [] from rfl, List.append_nil]
    obtain ⟨r, hk, hset⟩ := Option.bind_eq_some_iff.1 ha
    split at hset
    · rename_i hplace
      have huse : ∀ (s : State) f, s.useThis r.tThread f = s.useObj r.arg f := by
        intro s f
        rw [(h.stage k r hk).this (by rw [hplace]; nofun)]
        rfl
      rw [huse] at hset
      cases hset
      obtain ⟨hgood, hfault⟩ := @Good.setName s evs r k name h hk
      have hcalled : Called (s.setRunning k { r with tThreadName := name }) := hc.goOn hk rfl
      exact ⟨hgood, hcalled.of_eq (useObj_calls ..) (useObj_running ..),
        fun hf => (hfault hf).imp id fun hgone => ⟨k, name, r, rfl, hk, hgone⟩⟩
    · cases hset
  | join i =>
    rw [show given s (.join i) = [] from rfl, List.append_nil]
    simp only [step] at ha
    split at ha
    · rename_i hpre
      split at ha
      · cases ha
        exact ⟨h, hc, .inl⟩
      · split at ha
        · cases ha
          exact ⟨h.afterwards hpre.1 hpre.2 (.inl hpre.2) rfl rfl rfl, hc.of_eq rfl rfl, .inl⟩
        · cases ha
    · cases ha
  | destroy i =>
    rw [show given s (.destroy i) = [] from rfl, List.append_nil]
    simp only [step] at ha
    split at ha
    · rename_i hpre
      cases ha
      exact ⟨h.afterwards hpre.1 hpre.2 (.inr rfl) rfl rfl rfl, hc.of_eq rfl rfl, .inl⟩
    · cases ha

/-! ## Every run -/

variable {hist : List (State × Act)} {s : State}

theorem run_good (h : Run step init hist s) :
    Good s (output given hist) ∧ Called s ∧ (s.fault = true → ∃ x ∈ hist, Late x.1 x.2) := by
  induction h with
  | start => exact ⟨good_init, called_init, nofun⟩
  | @next hist s s' a _ ha ih =>
    obtain ⟨hgood, hcalled, hfault⟩ := ih
    obtain ⟨hgood', hcalled', hfault'⟩ := step_good hgood hcalled ha
    rw [output_concat]
    refine ⟨hgood', hcalled', fun hf => ?_⟩
    rcases hfault' hf with hf | hlate
    · obtain ⟨x, hx, hlate⟩ := hfault hf
      exact ⟨x, List.mem_append_left _ hx, hlate⟩
    · exact ⟨(s, a), List.mem_append_right _ List.mem_cons_self, hlate⟩

end Linko.Threads
