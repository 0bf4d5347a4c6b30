import Linko.Timer.Invariant
/-!
# What a timer's own operations return

Who holds a timer learns from `cancel`, `refresh` and `reset` whether it was
still scheduled. `reset` has a way out in front of that question: when neither
the period nor the start changes it returns true at once.
-/

namespace Linko.Timers

open Runs

variable {s s' : State} {t u : TimerId}

inductive Call where
  | cancel
  | refresh (now : UInt64)
  | reset (ms : UInt64) (fromNow : Bool) (now : UInt64)
  deriving DecidableEq, Repr

/-- The state after the call and what it returns. -/
def Call.on (s : State) (t : TimerId) : Call → Except Fault (State × Bool)
  | .cancel => Timers.cancel s t
  | .refresh now => Timers.refresh s t now
  | .reset ms fromNow now => do
    let (s, ok, _) ← Timers.reset s t ms fromNow now
    .ok (s, ok)

/-- True when the timer was in the set, and nothing done otherwise. -/
def Truthful (s : State) (t : TimerId) (call : Call) : Prop :=
  ∃ s' ok, call.on s t = .ok (s', ok) ∧ (ok = true ↔ t ∈ s.timers) ∧ (ok = false → s' = s)

/-- `ms == m_ms && !from_now`. -/
def Call.Unchanged (s : State) (t : TimerId) : Call → Prop
  | .reset ms fromNow _ => ms = (s.timer t).ms ∧ fromNow = false
  | _ => False

theorem mem_timers (h : Holds [] s) (t : TimerId) : t ∈ s.timers ↔ (s.timer t).cb ≠ none := by
  rw [h.mem_iff t]
  simp

theorem on_unchanged {call : Call} (h : call.Unchanged s t) : call.on s t = .ok (s, true) := by
  cases call with
  | cancel => cases h
  | refresh now => cases h
  | reset ms fromNow now =>
    simp only [Call.on, reset_same h]
    rfl

/-- A timer without a callback is left alone. -/
theorem on_dead {call : Call} (h : ¬ call.Unchanged s t) (hcb : (s.timer t).cb = none) :
    call.on s t = .ok (s, false) := by
  cases call with
  | cancel => exact cancel_idle hcb
  | refresh now => exact refresh_idle hcb now
  | reset ms fromNow now =>
    simp only [Call.on, reset_dead h hcb]
    rfl

theorem on_live {call : Call} (hs : Holds [] s) (h : ¬ call.Unchanged s t) (hcb : (s.timer t).cb ≠ none) :
    ∃ s', call.on s t = .ok (s', true) := by
  cases call with
  | cancel => exact ⟨_, (cancel_spec hs hcb).1⟩
  | refresh now => exact ⟨_, (refresh_spec hs hcb now).1⟩
  | reset ms fromNow now =>
    simp only [Call.on, (reset_spec hs hcb h now).1]
    exact ⟨_, rfl⟩

/-- A one-shot timer that fires and a recurring one that stays. -/
def firedAndPending : List Op :=
  [.addTimer 5 1 false 8 100, .addTimer 3 2 true 16 100, .listExpiredCb 105 24]

end Linko.Timers
