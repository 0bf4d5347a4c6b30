import Linko.Lib.Refine
import Linko.Timer.Expiry
/-!
# The timer manager as a table of alarms

What the manager is for: an alarm counts from its start, rings when its time is
over, and then starts again or is off. The ordered set, the addresses in its
order and the probe of `listExpiredCb` do not appear in the table; what the
operations return does.
-/

namespace Linko.Timers

open Runs

/-- One alarm. An alarm without a callback is off. -/
structure Alarm where
  recurring : Bool
  ms : UInt64
  start : UInt64
  cb : Option CallbackId
  deriving DecidableEq, Repr

def Alarm.isOn (a : Alarm) : Prop := a.cb ≠ none

def Alarm.deadline (a : Alarm) : UInt64 := a.start + a.ms

structure Table where
  made : Nat
  alarm : TimerId → Alarm
  /-- When the alarms have been looked at last. -/
  looked : UInt64

/-- What an operation returns. -/
inductive Reply where
  | timer (t : TimerId)
  | done (ok : Bool)
  | callbacks (cbs : List (TimerId × Option CallbackId))
  | wait (ms : UInt64)
  | nothing
  deriving DecidableEq, Repr

namespace Table

variable (T : Table)

/-- The table of a manager that is constructed at `now`. -/
def new (now : UInt64) : Table := ⟨0, fun _ => ⟨false, 0, 0, none⟩, now⟩

def put (t : TimerId) (a : Alarm) : Table := { T with alarm := Function.update T.alarm t a }

/-- The clock has gone back since, by more than an hour; at all, if that was in
its first hour, where the subtraction wraps. -/
def ClockBack (now : UInt64) : Prop := now < T.looked ∧ now < T.looked - 60 * 60 * 1000

/-- The alarms that ring at `now`. -/
def Rings (now : UInt64) (t : TimerId) : Prop :=
  (T.alarm t).isOn ∧ (T.ClockBack now ∨ (T.alarm t).deadline ≤ now)

end Table

/-- A ringing alarm starts again, or goes off for good. -/
def Alarm.rung (a : Alarm) (now : UInt64) : Alarm :=
  if a.recurring then { a with start := now } else { a with cb := none }

/-- The operations on the table. -/
def Table.Serves (T : Table) : Op → Reply → Table → Prop
  | .addTimer ms cb recurring _ now, r, T' =>
    r = .timer T.made ∧ T' = { T.put T.made ⟨recurring, ms, now, some cb⟩ with made := T.made + 1 }
  | .cancel t, r, T' =>
    (T.alarm t).isOn ∧ r = .done true ∧ T' = T.put t { T.alarm t with cb := none } ∨
      ¬ (T.alarm t).isOn ∧ r = .done false ∧ T' = T
  | .refresh t now, r, T' =>
    (T.alarm t).isOn ∧ r = .done true ∧ T' = T.put t { T.alarm t with start := now } ∨
      ¬ (T.alarm t).isOn ∧ r = .done false ∧ T' = T
  | .reset t ms fromNow now, r, T' =>
    ms = (T.alarm t).ms ∧ fromNow = false ∧ r = .done true ∧ T' = T ∨
      ¬ (ms = (T.alarm t).ms ∧ fromNow = false) ∧
        ((T.alarm t).isOn ∧ r = .done true ∧
            T' = T.put t { T.alarm t with ms := ms, start := if fromNow then now else (T.alarm t).start } ∨
          ¬ (T.alarm t).isOn ∧ r = .done false ∧ T' = T)
  | .listExpiredCb now _, r, T' =>
    ∃ rung : List TimerId, rung.Nodup ∧ (∀ t, t ∈ rung ↔ T.Rings now t) ∧
      rung.Pairwise (fun t u => (T.alarm t).deadline ≤ (T.alarm u).deadline) ∧
      r = .callbacks (rung.map fun t => (t, (T.alarm t).cb)) ∧ T'.made = T.made ∧
      (∀ t, T.Rings now t → T'.alarm t = (T.alarm t).rung now) ∧
      (∀ t, ¬ T.Rings now t → T'.alarm t = T.alarm t) ∧
      ((∃ t, (T.alarm t).isOn) → T'.looked = now) ∧ ((¬ ∃ t, (T.alarm t).isOn) → T'.looked = T.looked)
  | .getNextTimer now, r, T' =>
    T' = T ∧ ((¬ ∃ t, (T.alarm t).isOn) ∧ r = .wait (~~~0) ∨
      ∃ t, (T.alarm t).isOn ∧ (∀ u, (T.alarm u).isOn → (T.alarm t).deadline ≤ (T.alarm u).deadline) ∧
        r = .wait (if (T.alarm t).deadline ≤ now then 0 else (T.alarm t).deadline - now))
  | .destroy _, r, T' => r = .nothing ∧ T' = T

/-! ## From the manager to the table -/

/-- The alarm of a timer has started its period before its deadline. -/
def Timer.alarm (v : Timer) : Alarm := ⟨v.recurring, v.ms, v.next - v.ms, v.cb⟩

def State.table (s : State) : Table := ⟨s.created, fun t => (s.timer t).alarm, s.previousTime⟩

/-- What the code returns; after a fault nothing. -/
def State.reply (s : State) : Op → Reply
  | .addTimer ms cb recurring addr now => .timer (addTimer s ms cb recurring addr now).2.1
  | .cancel t => (cancel s t).toOption.elim .nothing fun r => .done r.2
  | .refresh t now => (refresh s t now).toOption.elim .nothing fun r => .done r.2
  | .reset t ms fromNow now => (reset s t ms fromNow now).toOption.elim .nothing fun r => .done r.2.1
  | .listExpiredCb now addr => (listExpiredCb s now addr).toOption.elim .nothing fun r => .callbacks r.2
  | .getNextTimer now => .wait (getNextTimer s now).2
  | .destroy _ => .nothing

variable {s s' : State} {t : TimerId}

@[simp] theorem table_alarm (s : State) (t : TimerId) : s.table.alarm t = (s.timer t).alarm := rfl

@[simp] theorem alarm_deadline (v : Timer) : v.alarm.deadline = v.next := UInt64.sub_add_cancel v.next v.ms

/-- A timer whose deadline is set has an alarm that starts where one thinks. -/
theorem alarm_next (v : Timer) (ms start : UInt64) :
    ({ v with ms := ms, next := start + ms } : Timer).alarm = { v.alarm with ms := ms, start := start } := by
  unfold Timer.alarm
  simp

theorem alarm_fired (v : Timer) (now : UInt64) : (v.fired now).alarm = v.alarm.rung now := by
  unfold Timer.fired Alarm.rung
  cases hr : v.recurring <;> simp [Timer.alarm, hr]

theorem table_put {v : Timer} {a : Alarm} (hcreated : s'.created = s.created)
    (hprevious : s'.previousTime = s.previousTime) (htimer : s'.timer = Function.update s.timer t v)
    (hv : v.alarm = a) : s'.table = s.table.put t a := by
  unfold State.table Table.put
  rw [hcreated, hprevious, htimer, ← hv]
  congr 1
  funext u
  by_cases hu : u = t
  · subst hu
    simp
  · simp [hu]

theorem table_init (now : UInt64) : (init now).table = Table.new now := by
  unfold State.table Table.new init Timer.alarm
  simp

theorem isOn_iff (h : Holds [] s) : (s.table.alarm t).isOn ↔ t ∈ s.timers := by
  rw [h.mem_iff t]
  simp [Alarm.isOn, Timer.alarm]

/-! ## The clock that is remembered -/

@[simp] theorem addLocked_previousTime (s : State) (t : TimerId) :
    (addLocked s t).1.previousTime = s.previousTime := by
  unfold addLocked
  dsimp only
  split <;> rfl

theorem handOut_previousTime {now : UInt64} {r r' : State × List (TimerId × Option CallbackId)}
    (h : handOut now r t = .ok r') : r'.1.previousTime = r.1.previousTime := by
  unfold handOut State.setNext at h
  dsimp only at h
  split at h
  · split at h
    · cases h
    · cases h
      rfl
  · cases h
    rfl

theorem handOuts_previousTime {now : UInt64} {ts : List TimerId}
    {r r' : State × List (TimerId × Option CallbackId)} (h : ts.foldlM (handOut now) r = .ok r') :
    r'.1.previousTime = r.1.previousTime := by
  induction ts generalizing r with
  | nil =>
    cases h
    rfl
  | cons t ts ih =>
    rw [List.foldlM_cons] at h
    cases hr : handOut now r t with
    | error e =>
      rw [hr] at h
      cases h
    | ok r₁ =>
      rw [hr] at h
      rw [ih h, handOut_previousTime hr]

/-- With no timers the clock is not even compared. -/
theorem listExpiredCb_previousTime {now : UInt64} {addr : Nat} {cbs : List (TimerId × Option CallbackId)}
    (h : listExpiredCb s now addr = .ok (s', cbs)) :
    s'.previousTime = if s.timers = [] then s.previousTime else now := by
  unfold listExpiredCb at h
  split at h
  · rename_i hnil
    cases h
    rw [if_pos hnil]
  · rename_i front rest hfront
    have hne : s.timers ≠ [] := by
      rw [hfront]
      exact List.cons_ne_nil _ _
    rw [if_neg hne]
    dsimp only at h
    split at h
    · cases h
      rfl
    · exact handOuts_previousTime h

/-! ## Each operation -/

theorem serves_addTimer (s : State) (ms : UInt64) (cb : CallbackId) (recurring : Bool) (addr : Nat) (now : UInt64) :
    s.table.Serves (.addTimer ms cb recurring addr now) (s.reply (.addTimer ms cb recurring addr now))
      (addTimer s ms cb recurring addr now).1.table := by
  refine ⟨rfl, ?_⟩
  rw [addTimer_eq]
  unfold State.table Table.put
  dsimp only
  rw [addLocked_timer, addLocked_created, addLocked_previousTime]
  congr 1
  funext u
  by_cases hu : u = s.created
  · subst hu
    simp [State.newTimer, Timer.alarm]
  · simp [State.newTimer, hu]

theorem serves_cancel (h : Holds [] s) (hs : apply s (.cancel t) = .ok s') :
    s.table.Serves (.cancel t) (s.reply (.cancel t)) s'.table := by
  simp only [apply, State.reply] at hs ⊢
  by_cases hcb : (s.timer t).cb = none
  · rw [cancel_idle hcb] at hs ⊢
    cases hs
    exact .inr ⟨not_not.2 hcb, rfl, rfl⟩
  · rw [(cancel_spec h hcb).1] at hs ⊢
    cases hs
    exact .inl ⟨hcb, rfl, table_put rfl rfl rfl rfl⟩

theorem serves_refresh (h : Holds [] s) {now : UInt64} (hs : apply s (.refresh t now) = .ok s') :
    s.table.Serves (.refresh t now) (s.reply (.refresh t now)) s'.table := by
  simp only [apply, State.reply] at hs ⊢
  by_cases hcb : (s.timer t).cb = none
  · rw [refresh_idle hcb] at hs ⊢
    cases hs
    exact .inr ⟨not_not.2 hcb, rfl, rfl⟩
  · rw [(refresh_spec h hcb now).1] at hs ⊢
    cases hs
    refine .inl ⟨hcb, rfl, table_put rfl rfl rfl ?_⟩
    exact alarm_next (s.timer t) (s.timer t).ms now

theorem serves_reset (h : Holds [] s) {ms now : UInt64} {fromNow : Bool}
    (hs : apply s (.reset t ms fromNow now) = .ok s') :
    s.table.Serves (.reset t ms fromNow now) (s.reply (.reset t ms fromNow now)) s'.table := by
  simp only [apply, State.reply] at hs ⊢
  by_cases hsame : ms = (s.timer t).ms ∧ fromNow = false
  · rw [reset_same hsame] at hs ⊢
    cases hs
    exact .inl ⟨hsame.1, hsame.2, rfl, rfl⟩
  · refine .inr ⟨hsame, ?_⟩
    by_cases hcb : (s.timer t).cb = none
    · rw [reset_dead hsame hcb] at hs ⊢
      cases hs
      exact .inr ⟨not_not.2 hcb, rfl, rfl⟩
    · rw [(reset_spec h hcb hsame now).1] at hs ⊢
      cases hs
      refine .inl ⟨hcb, rfl, ?_⟩
      refine table_put (addLocked_created _ _) (addLocked_previousTime _ _) (addLocked_timer _ _) ?_
      exact alarm_next (s.timer t) ms (resetStart s t fromNow now)

theorem rings_iff (h : Holds [] s) (now : UInt64) : t ∈ expiredAt s now ↔ s.table.Rings now t := by
  unfold Table.Rings
  rw [mem_expiredAt, isOn_iff h, table_alarm, alarm_deadline]
  simp [detectClockRollover, Table.ClockBack, State.table]

theorem serves_listExpiredCb (h : Holds [] s) {now : UInt64} {addr : Nat}
    (hs : apply s (.listExpiredCb now addr) = .ok s') :
    s.table.Serves (.listExpiredCb now addr) (s.reply (.listExpiredCb now addr)) s'.table := by
  obtain ⟨s₁, hok, hfired⟩ := listExpiredCb_spec h now addr
  have hclock := listExpiredCb_previousTime hok
  simp only [apply, State.reply] at hs ⊢
  rw [hok] at hs ⊢
  obtain rfl : s₁ = s' := Except.ok.inj hs
  have hon : (∃ t, (s.table.alarm t).isOn) ↔ s.timers ≠ [] := by
    simp only [isOn_iff h]
    refine ⟨?_, List.exists_mem_of_ne_nil s.timers⟩
    rintro ⟨t, ht⟩
    exact List.ne_nil_of_mem ht
  refine ⟨expiredAt s now, (expiredAt_sublist s now).nodup h.nodup, fun t => rings_iff h now, ?_, rfl,
    hfired.created, ?_, ?_, ?_, ?_⟩
  · refine (expiredAt_ordered h now).imp ?_
    intro t u htu
    rw [table_alarm, table_alarm, alarm_deadline, alarm_deadline]
    rcases htu with hlt | ⟨heq, -⟩
    · exact UInt64.le_of_lt hlt
    · exact UInt64.le_of_eq heq
  · intro t ht
    rw [table_alarm, hfired.timer t, if_pos ((rings_iff h now).2 ht), alarm_fired]
    rfl
  · intro t ht
    rw [table_alarm, hfired.timer t, if_neg fun hm => ht ((rings_iff h now).1 hm)]
    rfl
  · intro hsome
    exact hclock.trans (if_neg (hon.1 hsome))
  · intro hnone
    exact hclock.trans (if_pos (not_not.1 fun hne => hnone (hon.2 hne)))

theorem serves_getNextTimer (h : Holds [] s) (now : UInt64) :
    s.table.Serves (.getNextTimer now) (s.reply (.getNextTimer now)) (getNextTimer s now).1.table := by
  refine ⟨?_, ?_⟩
  · rw [getNextTimer_state]
    rfl
  · simp only [isOn_iff h, State.reply]
    unfold getNextTimer
    dsimp only
    cases hs : s.timers with
    | nil => exact .inl ⟨by simp, rfl⟩
    | cons t rest =>
      refine .inr ⟨t, List.mem_cons_self, ?_, ?_⟩
      · intro u hu
        rw [table_alarm, table_alarm, alarm_deadline, alarm_deadline]
        have hsorted := h.sorted
        rw [hs] at hsorted
        rcases hsorted.head_le hu with rfl | hlt
        · exact UInt64.le_refl _
        · exact less_next hlt
      · rw [table_alarm, alarm_deadline]
        by_cases hdue : (s.timer t).next ≤ now
        · simp [hdue]
        · simp [hdue]

/-- One operation of the manager is one of the table. -/
theorem step_serves {op : Op} (h : Holds [] s) (hs : step s op = some s') :
    s.table.Serves op (s.reply op) s'.table := by
  obtain ⟨-, hok, -⟩ := step_spec h hs
  cases op with
  | addTimer ms cb recurring addr now =>
    cases hok
    exact serves_addTimer s ms cb recurring addr now
  | cancel t => exact serves_cancel h hok
  | refresh t now => exact serves_refresh h hok
  | reset t ms fromNow now => exact serves_reset h hok
  | listExpiredCb now addr => exact serves_listExpiredCb h hok
  | getNextTimer now =>
    cases hok
    exact serves_getNextTimer h now
  | destroy t =>
    cases hok
    exact ⟨rfl, rfl⟩

/-! ## Runs -/

end Linko.Timers
