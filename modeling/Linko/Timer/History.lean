import Mathlib.Data.List.Nodup
import Linko.Timer.Invariant
/-!
# When a callback is handed out

The history of a run says which callbacks `listExpiredCb` has handed out and
which calls of `cancel` have returned true. Either event clears the callback of
a one-shot timer, and nothing sets one again.
-/

namespace Linko.Timers

open Runs

variable {s s' : State} {t u : TimerId} {op : Op}

/-- The timers whose callbacks a step hands out. -/
def handed (s : State) : Op → List TimerId
  | .listExpiredCb now addr =>
    match listExpiredCb s now addr with
    | .ok (_, cbs) => cbs.map Prod.fst
    | .error _ => []
  | _ => []

/-- The timer on which a step has `cancel` return true. -/
def cancelled (s : State) : Op → List TimerId
  | .cancel t =>
    match cancel s t with
    | .ok (_, true) => [t]
    | _ => []
  | _ => []

def events (s : State) (op : Op) : List TimerId := handed s op ++ cancelled s op

theorem handed_listExpiredCb (h : Holds [] s) (now : UInt64) (addr : Nat) :
    ∃ s', apply s (.listExpiredCb now addr) = .ok s' ∧ Fired now (handed s (.listExpiredCb now addr)) s s' ∧
      (handed s (.listExpiredCb now addr)).Nodup ∧ ∀ t ∈ handed s (.listExpiredCb now addr), t ∈ s.timers := by
  obtain ⟨s', hok, hfired⟩ := listExpiredCb_spec h now addr
  have hsub := expiredAt_sublist s now
  have hhanded : handed s (.listExpiredCb now addr) = expiredAt s now := by
    simp [handed, hok, Function.comp_def]
  rw [hhanded]
  refine ⟨s', ?_, hfired, hsub.nodup h.nodup, fun t ht => hsub.subset ht⟩
  simp only [apply, hok]
  rfl

theorem cancelled_cancel (h : Holds [] s) :
    (s.timer u).cb = none ∧ cancelled s (.cancel u) = [] ∨
      (s.timer u).cb ≠ none ∧ cancelled s (.cancel u) = [u] ∧
        apply s (.cancel u) = .ok ((s.without u).setCb u none) := by
  by_cases hcb : (s.timer u).cb = none
  · refine .inl ⟨hcb, ?_⟩
    simp only [cancelled, cancel_idle hcb]
  · refine .inr ⟨hcb, ?_⟩
    simp only [cancelled, apply, (cancel_spec h hcb).1]
    exact ⟨trivial, rfl⟩

/-- What is handed out or cancelled had a callback until then. -/
theorem live_of_event (h : Holds [] s) (ht : t ∈ events s op) : t < s.created ∧ (s.timer t).cb ≠ none := by
  have hlive : (s.timer t).cb ≠ none := by
    cases op with
    | listExpiredCb now addr =>
      obtain ⟨s', -, -, -, hin⟩ := handed_listExpiredCb h now addr
      exact ((h.mem_iff t).1 (hin t (by simpa [events, cancelled] using ht))).1
    | cancel u =>
      rcases cancelled_cancel (u := u) h with ⟨-, hc⟩ | ⟨hcb, hc, -⟩
      · simp [events, handed, hc] at ht
      · obtain rfl : t = u := by simpa [events, handed, hc] using ht
        exact hcb
    | addTimer | refresh | reset | getNextTimer | destroy => simp [events, handed, cancelled] at ht
  exact ⟨h.created t (h.alive t hlive), hlive⟩

/-- One step has one event of a timer at most. -/
theorem count_events (h : Holds [] s) : (events s op).count t ≤ 1 := by
  cases op with
  | listExpiredCb now addr =>
    obtain ⟨s', -, -, hnodup, -⟩ := handed_listExpiredCb h now addr
    simpa [events, cancelled] using List.nodup_iff_count_le_one.1 hnodup t
  | cancel u =>
    rcases cancelled_cancel (u := u) h with ⟨-, hc⟩ | ⟨-, hc, -⟩
    · simp [events, handed, hc]
    · rw [events, hc]
      exact List.nodup_iff_count_le_one.1 (List.nodup_singleton u) t
  | addTimer | refresh | reset | getNextTimer | destroy => simp [events, handed, cancelled]

/-! ## A timer whose callback is gone -/

/-- The timer was created and its callback is gone. -/
def Spent (s : State) (t : TimerId) : Prop := t < s.created ∧ (s.timer t).cb = none

theorem Spent.keeps (h : Spent s t) (hk : Keeps s s') : Spent s' t :=
  ⟨Nat.lt_of_lt_of_le h.1 hk.created, hk.cleared t h.1 h.2⟩

theorem Spent.not_mem (hs : Spent s t) (h : Holds [] s) : t ∉ events s op := by
  intro ht
  exact (live_of_event h ht).2 hs.2

theorem spent_of_cancelled (h : Holds [] s) (hstep : step s op = some s') (ht : t ∈ cancelled s op) :
    Spent s' t := by
  obtain ⟨hcreated, -⟩ := live_of_event h (List.mem_append_right (handed s op) ht)
  obtain ⟨-, hok, -, hk⟩ := step_spec h hstep
  refine ⟨Nat.lt_of_lt_of_le hcreated hk.created, ?_⟩
  cases op with
  | cancel u =>
    rcases cancelled_cancel (u := u) h with ⟨-, hc⟩ | ⟨-, hc, happly⟩
    · simp [hc] at ht
    · rw [happly] at hok
      obtain rfl := Except.ok.inj hok
      obtain rfl : t = u := by simpa [hc] using ht
      simp [State.setCb]
  | addTimer | refresh | reset | listExpiredCb | getNextTimer | destroy => simp [cancelled] at ht

theorem spent_of_handed (h : Holds [] s) (hstep : step s op = some s') (ht : t ∈ handed s op)
    (honce : (s.timer t).recurring = false) : Spent s' t := by
  obtain ⟨hcreated, -⟩ := live_of_event h (List.mem_append_left (cancelled s op) ht)
  obtain ⟨-, hok, -, hk⟩ := step_spec h hstep
  refine ⟨Nat.lt_of_lt_of_le hcreated hk.created, ?_⟩
  cases op with
  | listExpiredCb now addr =>
    obtain ⟨s₁, happly, hfired, -, -⟩ := handed_listExpiredCb h now addr
    rw [happly] at hok
    obtain rfl := Except.ok.inj hok
    rw [hfired.timer t, if_pos ht, Timer.fired, honce]
    rfl
  | addTimer | refresh | reset | cancel | getNextTimer | destroy => simp [handed] at ht

/-! ## Runs -/

variable {now : UInt64} {hist h₁ h₂ : List (State × Op)}

/-- A one-shot timer has had one event at most, and then its callback is gone.
Before it is created a timer counts as one. -/
theorem events_of_run (h : Run step (init now) hist s) (t : TimerId)
    (honce : (s.timer t).recurring = false ∨ s.created ≤ t) :
    (output events hist).count t ≤ 1 ∧ ((output events hist).count t = 1 → Spent s t) := by
  induction h with
  | start => simp [output]
  | @next hist s s' op hrun hstep ih =>
    have hs := holds_of_run hrun
    have hk := (step_spec hs hstep).2.2.2
    have hbefore : (s.timer t).recurring = false ∨ s.created ≤ t := by
      by_cases ht : s.created ≤ t
      · exact .inr ht
      · rw [← hk.recurring t (by omega)]
        exact .inl (honce.resolve_right (by have := hk.created; omega))
    obtain ⟨hle, hspent⟩ := ih hbefore
    have hsplit :
        (output events (hist ++ [(s, op)])).count t = (output events hist).count t + (events s op).count t := by
      simp [output]
    rw [hsplit]
    by_cases hone : (output events hist).count t = 1
    · have hsp := hspent hone
      rw [List.count_eq_zero.2 (hsp.not_mem hs), hone]
      exact ⟨Nat.le_refl 1, fun _ => hsp.keeps hk⟩
    · have hzero : (output events hist).count t = 0 := by omega
      rw [hzero, Nat.zero_add]
      refine ⟨count_events hs, ?_⟩
      intro hcount
      rcases List.mem_append.1 (List.count_pos_iff.1 (by omega) : t ∈ events s op) with ht | ht
      · have hnew : ¬ s.created ≤ t :=
          Nat.not_le.2 (live_of_event hs (List.mem_append_left (cancelled s op) ht)).1
        exact spent_of_handed hs hstep ht (hbefore.resolve_right hnew)
      · exact spent_of_cancelled hs hstep ht

/-- Behind a step that has `cancel` return true the callback stays gone, and
the timer has no event any more. -/
theorem cancelled_of_run (h : Run step (init now) hist s) {x : State × Op} (hsplit : hist = h₁ ++ x :: h₂)
    (ht : t ∈ cancelled x.1 x.2) : Spent s t ∧ t ∉ output events h₂ := by
  induction h generalizing h₂ with
  | start => simp at hsplit
  | @next hist s s' op hrun hstep ih =>
    have hs := holds_of_run hrun
    have hk := (step_spec hs hstep).2.2.2
    rcases List.eq_nil_or_concat h₂ with rfl | ⟨h₂, y, rfl⟩
    · obtain ⟨-, rfl⟩ := List.concat_inj.1 (show hist.concat (s, op) = h₁.concat x by simpa using hsplit)
      exact ⟨spent_of_cancelled hs hstep ht, by simp [output]⟩
    · obtain ⟨rfl, rfl⟩ : hist = h₁ ++ x :: h₂ ∧ (s, op) = y :=
        List.concat_inj.1 (by simpa using hsplit)
      obtain ⟨hsp, hnone⟩ := ih rfl
      refine ⟨hsp.keeps hk, ?_⟩
      have hlast : t ∉ events s op := hsp.not_mem hs
      simpa [output, hlast] using hnone

theorem count_output (hist : List (State × Op)) (t : TimerId) :
    (output events hist).count t = (output handed hist).count t + (output cancelled hist).count t := by
  induction hist with
  | nil => rfl
  | cons x hist ih =>
    simp only [output, events, List.flatMap_cons, List.count_append] at ih ⊢
    omega

/-- In every run a one-shot timer is handed out or cancelled once at most, and
no timer is handed out after `cancel` returned true on it. -/
theorem fires_once (h : Run step (init now) hist s) (t : TimerId) :
    ((s.timer t).recurring = false → (output handed hist).count t + (output cancelled hist).count t ≤ 1) ∧
      ∀ h₁ x h₂, hist = h₁ ++ x :: h₂ → t ∈ cancelled x.1 x.2 → t ∉ output handed h₂ := by
  constructor
  · intro honce
    rw [← count_output]
    exact (events_of_run h t (.inl honce)).1
  · intro h₁ x h₂ hsplit ht hmem
    refine (cancelled_of_run h hsplit ht).2 ?_
    obtain ⟨y, hy, hty⟩ := List.mem_flatMap.1 hmem
    exact List.mem_flatMap.2 ⟨y, hy, List.mem_append_left _ hty⟩

/-- A one-shot timer is handed out, and then reset and cancelled in vain. A
recurring one is handed out twice and cancelled. -/
def oneShotAndRecurring : List Op :=
  [.addTimer 5 1 false 8 100, .addTimer 3 2 true 16 100, .listExpiredCb 105 24, .reset 0 1 true 106,
    .refresh 0 106, .cancel 0, .listExpiredCb 108 24, .cancel 1, .listExpiredCb 120 24]

theorem fires_once_both : ∃ hist s, Run step (init 100) hist s ∧ output handed hist = [1, 0, 1] ∧
    output cancelled hist = [1] ∧ (output handed hist).count 0 + (output cancelled hist).count 0 ≤ 1 := by
  obtain ⟨hist, s, hrun, hp⟩ : ∃ hist s, Run step (init 100) hist s ∧
      decide (output handed hist = [1, 0, 1] ∧ output cancelled hist = [1] ∧
        (s.timer 0).recurring = false) = true :=
    exists_run oneShotAndRecurring (by decide +kernel)
  obtain ⟨hhanded, hcancelled, honce⟩ := of_decide_eq_true hp
  exact ⟨hist, s, hrun, hhanded, hcancelled, (fires_once hrun 0).1 honce⟩

end Linko.Timers
