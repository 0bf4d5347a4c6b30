import Linko.Timer.Invariant
/-!
# Expiry is exact

`listExpiredCb` cuts the set at a probe timer of its own, whose address may lie
before or behind those of the timers with the same deadline, and then goes on
over these. What it takes out are the timers that are due, or all of them when
the clock has gone back, and what it puts back are the recurring ones.
-/

namespace Linko.Timers

open OrderedSet Runs

variable {s s' : State} {t u : TimerId}

/-- What `listExpiredCb` leaves behind. -/
structure Expired (now : UInt64) (s s' : State) : Prop where
  holds : Holds [] s'
  oneShot : ∀ t ∈ expiredAt s now, (s.timer t).recurring = false →
    t ∉ s'.timers ∧ s'.timer t = { s.timer t with cb := none }
  recurring : ∀ t ∈ expiredAt s now, (s.timer t).recurring = true →
    t ∈ s'.timers ∧ s'.timer t = { s.timer t with next := now + (s.timer t).ms }
  others : ∀ t, t ∉ expiredAt s now → s'.timer t = s.timer t ∧ (t ∈ s'.timers ↔ t ∈ s.timers)

theorem mem_expiredAt (s : State) (now : UInt64) (t : TimerId) :
    t ∈ expiredAt s now ↔ t ∈ s.timers ∧ (detectClockRollover s now = true ∨ (s.timer t).next ≤ now) := by
  unfold expiredAt
  split
  · rename_i hroll
    simp [hroll]
  · rename_i hroll
    simp [hroll]

/-- The order of the set. -/
theorem expiredAt_ordered (h : Holds [] s) (now : UInt64) :
    (expiredAt s now).Pairwise fun t u => (s.timer t).next < (s.timer u).next ∨
      (s.timer t).next = (s.timer u).next ∧ (s.timer t).addr < (s.timer u).addr :=
  h.registered.ordered.sublist (expiredAt_sublist s now)

theorem Fired.expired (h : Holds [] s) {now : UInt64} (hfired : Fired now (expiredAt s now) s s') :
    Expired now s s' := by
  have hcb : ∀ t ∈ expiredAt s now, (s.timer t).cb ≠ none := fun t ht =>
    ((h.mem_iff t).1 ((expiredAt_sublist s now).subset ht)).1
  have hmem : ∀ t, t ∈ s'.timers ↔ (s'.timer t).cb ≠ none := fun t => by
    rw [hfired.holds.mem_iff t]
    simp
  refine ⟨hfired.holds, ?_, ?_, ?_⟩
  · intro t ht hrec
    have hnow : s'.timer t = { s.timer t with cb := none } := by
      rw [hfired.timer t, if_pos ht, Timer.fired, if_neg (Bool.eq_false_iff.1 hrec)]
    refine ⟨?_, hnow⟩
    rw [hmem t, hnow]
    exact not_not.2 rfl
  · intro t ht hrec
    have hnow : s'.timer t = { s.timer t with next := now + (s.timer t).ms } := by
      rw [hfired.timer t, if_pos ht, Timer.fired, if_pos hrec]
    refine ⟨?_, hnow⟩
    rw [hmem t, hnow]
    exact hcb t ht
  · intro t ht
    have hnow : s'.timer t = s.timer t := by rw [hfired.timer t, if_neg ht]
    refine ⟨hnow, ?_⟩
    rw [hmem t, hnow, h.mem_iff t]
    simp

/-- The callbacks of the timers that are due, of all after a rollover, in the
order of the set, each once, whatever the address of the probe. -/
theorem listExpiredCb_exact (h : Holds [] s) (now : UInt64) (addr : Nat) :
    ∃ s', listExpiredCb s now addr = .ok (s', (expiredAt s now).map fun t => (t, (s.timer t).cb)) ∧
      (∀ t, t ∈ expiredAt s now ↔
        t ∈ s.timers ∧ (detectClockRollover s now = true ∨ (s.timer t).next ≤ now)) ∧
      (expiredAt s now).Nodup ∧
      ((expiredAt s now).Pairwise fun t u => (s.timer t).next < (s.timer u).next ∨
        (s.timer t).next = (s.timer u).next ∧ (s.timer t).addr < (s.timer u).addr) ∧
      Expired now s s' := by
  obtain ⟨s', hok, hfired⟩ := listExpiredCb_spec h now addr
  exact ⟨s', hok, mem_expiredAt s now, (expiredAt_sublist s now).nodup h.nodup, expiredAt_ordered h now,
    hfired.expired h⟩

/-- Four timers; two are due now, and the address of the probe is between
theirs. -/
def tiedTimers : List Op :=
  [.addTimer 5 1 false 16 100, .addTimer 3 2 false 40 100, .addTimer 5 3 true 24 100,
    .addTimer 50 4 false 8 100]

theorem listExpiredCb_exact_tied :
    ∃ hist s s', Run step (init 100) hist s ∧
      listExpiredCb s 105 20 = .ok (s', [(1, some 2), (0, some 1), (2, some 3)]) ∧ Expired 105 s s' := by
  obtain ⟨hist, s, hrun, hp⟩ : ∃ hist s, Run step (init 100) hist s ∧
      decide ((expiredAt s 105).map (fun t => (t, (s.timer t).cb)) =
        [(1, some 2), (0, some 1), (2, some 3)]) = true :=
    exists_run tiedTimers (by decide +kernel)
  obtain ⟨s', hok, -, -, -, hexp⟩ := listExpiredCb_exact (holds_of_run hrun) 105 20
  rw [of_decide_eq_true hp] at hok
  exact ⟨hist, s, s', hrun, hok, hexp⟩

end Linko.Timers
