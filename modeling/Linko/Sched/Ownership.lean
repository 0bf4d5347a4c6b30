import Linko.Sched.Step
/-!
# Who works on a fiber

The only guard against two threads on one fiber is the `EXEC` check under the
lock. It looks at `m_state`, which a yielding fiber sets before its context is
saved and which `run` sets again after the switch, so a fiber can be taken
while a thread is still busy with it. As long as that never happens, no fiber
is ever on two threads.
-/

namespace Linko.Sched

open Runs

variable {s s' : State} {t u : ThreadId} {f : FiberId}

/-! ## What must never happen -/

/-- The places where `run`, in its own code or in `swapIn` and `reset`, writes
an `m_state`. -/
def Pc.writes : Pc → Option FiberId
  | .setExec _ f | .setInit f _ | .setHold _ f => some f
  | _ => none

/-- A thread has resumed a fiber, which has not given it up again. -/
def Pc.resumed : Pc → Option FiberId
  | .save _ f | .enter _ f | .running _ f => some f
  | _ => none

/-- No fiber is on the stacks of two threads or about to be, and no thread is
about to write the state of a fiber that another one has resumed. -/
structure Safe (s : State) : Prop where
  inside : ∀ t u f, t < s.size → u < s.size → (s.threads t).pc.stack = some f →
    (s.threads u).pc.stack = some f → t = u
  enters : ∀ t u k f, t < s.size → u < s.size → (s.threads t).pc = .enter k f →
    (s.threads u).pc.stack = some f → t = u
  writes : ∀ t u f, t < s.size → u < s.size → (s.threads t).pc.writes = some f →
    (s.threads u).pc.resumed = some f →
    t = u

/-- Thread `t` still works on `f`: from taking it to the last access in `run`.
The fiber for callbacks is kept from one callback to the next, the idle fiber
for good. -/
def busy (s : State) (t : ThreadId) (f : FiberId) : Bool :=
  (s.threads t).pc.fiber = some f || (s.threads t).cbFiber = some f || f = t

/-- No fiber is taken out of the queue while another thread is busy with it. -/
def takesFree (s : State) : Action → Bool
  | .advance t =>
    match (s.threads t).pc, scan s.state t s.queue with
    | .pick, .took ft _ => ft.fiber.all fun f => (List.range s.size).all fun u => u = t || !busy s u f
    | _, _ => true
  | _ => true

/-! ## The invariant -/

structure Owned (s : State) : Prop where
  size_le : s.size ≤ s.fibers
  queued : ∀ e ∈ s.queue, ∀ f, e.fiber = some f → f < s.fibers
  constructed : ∀ t f, t < s.size → busy s t f → f < s.fibers
  alone : ∀ t u f, t < s.size → u < s.size → busy s t f → busy s u f → t = u

theorem busy_iff : busy s t f ↔ (s.threads t).pc.fiber = some f ∨ (s.threads t).cbFiber = some f ∨ f = t := by
  simp [busy, or_assoc]

theorem owned_init (n : Nat) : Owned (init n) := by
  have hb {t f} (h : busy (init n) t f) : f = t := by
    rcases busy_iff.1 h with h | h | h
    · cases h
    · cases h
    · exact h
  refine ⟨Nat.le_refl n, nofun, fun t f ht h => ?_, fun t u f _ _ h₁ h₂ => ?_⟩
  · rw [hb h]
    exact ht
  · rw [← hb h₁, ← hb h₂]

theorem busy_others (h : s'.threads u = s.threads u) : busy s' u f = busy s u f := by
  rw [busy, busy, h]

/-- What a thread is busy with it was busy with before, has just taken or has
just constructed. -/
theorem Effect.busy (h : Effect s t s') (hb : busy s' t f) :
    busy s t f ∨ (∃ ft rest, (s.threads t).pc = .pick ∧ scan s.state t s.queue = .took ft rest ∧
      ft.fiber = some f) ∨
      (f = s.fibers ∧ s'.fibers = s.fibers + 1) := by
  rw [busy_iff] at hb ⊢
  cases h with
  | abort => exact .inl hb
  | @take ft rest hpc hscan =>
    simp only [State.goto_threads, Function.update_self] at hb
    rcases hb with h | h
    · exact .inr (.inl ⟨ft, rest, hpc, hscan, h⟩)
    · exact .inl (.inr h)
  | @jump q pc v hpc _ _ hf =>
    simp only [State.goto_threads, Function.update_self] at hb
    rw [hpc]
    rcases hb with h | h
    · exact .inl ((hf f h).imp id .inl)
    · exact .inl (.inr h)
  | release hpc | requeue hpc =>
    simp only [State.goto_threads, State.release_threads, Function.update_self, State.write_threads,
      State.schedule_threads] at hb
    -- the fiber has been let go, and only one that a callback made may stay
    rcases hb with h | h | h
    · cases h
    · split at h
      · cases h
      · exact .inl (.inr (.inl h))
    · exact .inl (.inr (.inr h))
  | construct hpc hcb =>
    simp only [State.goto_threads, State.setCbFiber_threads, Function.update_self] at hb
    rcases hb with h | h | h
    · exact .inr (.inr ⟨(Option.some.inj h).symm, rfl⟩)
    · exact .inr (.inr ⟨(Option.some.inj h).symm, rfl⟩)
    · exact .inl (.inr (.inr h))
  | @endActive q pc hpc _ _ _ hf =>
    simp only [State.goto_threads, Function.update_self] at hb
    rw [hpc]
    rcases hb with h | h
    · exact .inl (.inl (hf f h))
    · exact .inl (.inr h)
  | beginIdle hpc =>
    simp only [State.goto_threads, Function.update_self] at hb
    rcases hb with h | h
    · exact .inl (.inr (.inr (Option.some.inj h).symm))
    · exact .inl (.inr h)
  | endIdle hpc =>
    simp only [State.goto_threads, Function.update_self] at hb
    rw [hpc]
    exact .inl hb

/-- What is in the queue was there before or is what a thread was busy with. -/
theorem Effect.queued (h : Effect s t s') {e : FiberAndThread} (he : e ∈ s'.queue) :
    e ∈ s.queue ∨ ∀ f, e.fiber = some f → Sched.busy s t f := by
  cases h with
  | @take ft rest hpc hscan => exact .inl ((scan_perm hscan).mem_iff.2 (List.mem_cons_of_mem ft he))
  | @requeue k f hpc =>
    simp only [State.goto_queue, State.release_queue, State.schedule_queue] at he
    rcases List.mem_append.1 he with he | he
    · exact .inl he
    · have heq : e = ⟨some f, none, none⟩ := List.mem_singleton.1 (List.mem_of_mem_filter he)
      refine .inr fun g hg => busy_iff.2 (.inl ?_)
      rw [hpc, ← hg, heq]
      rfl
  | _ => exact .inl he

theorem owned_advance (hi : Owned s) (ht : t < s.size) (hfree : takesFree s (.advance t) = true)
    (h : Effect s t s') :
    Owned s' := by
  have hsize := h.size
  have hfibers : s.fibers ≤ s'.fibers := by
    rcases h.fibers with h | h <;> omega
  -- what `t` gets hold of by the step, no other thread is busy with
  have hbusy {u f} (hu : u < s.size) (hb : busy s' u f) :
      busy s u f ∨ (u = t ∧ f < s'.fibers ∧ ∀ v, v < s.size → v ≠ t → ¬ busy s v f) := by
    by_cases hut : u = t
    · subst hut
      rcases h.busy hb with hb | ⟨ft, rest, hpc, hscan, hf⟩ | ⟨rfl, hnew⟩
      · exact .inl hb
      · refine .inr ⟨rfl, ?_, fun v hv hvu hbv => ?_⟩
        · exact Nat.lt_of_lt_of_le (hi.queued ft ((scan_perm hscan).mem_iff.2 List.mem_cons_self) f hf) hfibers
        · simp only [takesFree, hpc, hscan, hf, Option.all_some, List.all_eq_true, List.mem_range] at hfree
          have := hfree v hv
          simp [hvu, hbv] at this
      · exact .inr ⟨rfl, hnew ▸ Nat.lt_succ_self _,
          fun v hv _ hbv => absurd (hi.constructed v _ hv hbv) (Nat.lt_irrefl _)⟩
    · rw [busy_others (h.others hut)] at hb
      exact .inl hb
  refine ⟨by rw [hsize]; exact Nat.le_trans hi.size_le hfibers, fun e he f hf => ?_, fun u f hu hb => ?_,
    fun u v f hu hv hbu hbv => ?_⟩
  · rcases h.queued he with he | hb
    · exact Nat.lt_of_lt_of_le (hi.queued e he f hf) hfibers
    · exact Nat.lt_of_lt_of_le (hi.constructed t f ht (hb f hf)) hfibers
  · rw [hsize] at hu
    rcases hbusy hu hb with hb | ⟨-, hlt, -⟩
    · exact Nat.lt_of_lt_of_le (hi.constructed u f hu hb) hfibers
    · exact hlt
  · rw [hsize] at hu hv
    rcases hbusy hu hbu with hbu | ⟨rfl, -, hno⟩
    -- one of the two threads has just got hold of the fiber
    · rcases hbusy hv hbv with hbv | ⟨rfl, -, hno⟩
      · exact hi.alone u v f hu hv hbu hbv
      · by_contra hne
        exact hno u hu hne hbu
    · rcases hbusy hv hbv with hbv | ⟨rfl, -, -⟩
      · by_contra hne
        exact hno v hv (Ne.symm hne) hbv
      · rfl

/-- A step that changes no thread's work and constructs no fiber away. -/
theorem owned_same (hi : Owned s) (hsize : s'.size = s.size) (hfibers : s.fibers ≤ s'.fibers)
    (hqueue : ∀ e ∈ s'.queue, ∀ f, e.fiber = some f → f < s'.fibers) (hbusy : ∀ u f, busy s' u f = busy s u f) :
    Owned s' := by
  have hsize_le : s'.size ≤ s'.fibers := by
    rw [hsize]
    exact Nat.le_trans hi.size_le hfibers
  refine ⟨hsize_le, hqueue, fun u f hu hb => ?_, fun u v f hu hv hbu hbv => ?_⟩
  · rw [hsize] at hu
    rw [hbusy] at hb
    exact Nat.lt_of_lt_of_le (hi.constructed u f hu hb) hfibers
  · rw [hsize] at hu hv
    rw [hbusy] at hbu hbv
    exact hi.alone u v f hu hv hbu hbv

theorem owned_step {a : Action} (hi : Owned s) (hfree : takesFree s a = true)
    (h : step s a = some s') : Owned s' := by
  rcases step_cases h with ⟨rfl, rfl⟩ | ⟨tasks, rfl, htasks, rfl⟩ | ⟨t, rfl, ht, hadv⟩ |
    ⟨t, v, k, g, rfl, ht, hpc, rfl⟩
  · exact owned_same hi rfl (Nat.le_succ _)
      (fun e he f hf => Nat.lt_succ_of_lt (hi.queued e he f hf)) fun u f => rfl
  · refine owned_same hi rfl (Nat.le_refl _) (fun e he f hf => ?_) fun u f => rfl
    rcases List.mem_append.1 he with he | he
    · exact hi.queued e he f hf
    · exact htasks e (List.mem_of_mem_filter he) f hf
  · exact owned_advance hi ht hfree (advance_effect hadv)
  · refine owned_same hi rfl (Nat.le_refl _) hi.queued fun u f => ?_
    by_cases hut : u = t
    · subst hut
      simp [busy, hpc, Pc.fiber]
    · exact busy_others (by simp [hut])

theorem Owned.safe (hi : Owned s) : Safe s := by
  have stack {q : Pc} {f} (h : q.stack = some f) : q.fiber = some f := by
    cases q <;> first | exact h | cases h
  have writes {q : Pc} {f} (h : q.writes = some f) : q.fiber = some f := by
    cases q <;> first | exact h | cases h
  have resumed {q : Pc} {f} (h : q.resumed = some f) : q.fiber = some f := by
    cases q <;> first | exact h | cases h
  have alone {t u f} (ht : t < s.size) (hu : u < s.size) (h₁ : (s.threads t).pc.fiber = some f)
      (h₂ : (s.threads u).pc.fiber = some f) : t = u :=
    hi.alone t u f ht hu (busy_iff.2 (.inl h₁)) (busy_iff.2 (.inl h₂))
  exact ⟨fun t u f ht hu h₁ h₂ => alone ht hu (stack h₁) (stack h₂),
    fun t u k f ht hu h₁ h₂ => alone ht hu (by rw [h₁]; rfl) (stack h₂),
    fun t u f ht hu h₁ h₂ => alone ht hu (writes h₁) (resumed h₂)⟩

/-! ## Runs -/

/-- A task that runs a fiber, on any thread. -/
def task (f : FiberId) : FiberAndThread := ⟨some f, none, none⟩

/-- Thread 0 runs a fiber up to its `YieldToHold` and back into `run`, and then
thread 1 takes it up. -/
def handover : List Action :=
  [.create, .schedule [task 2]] ++ List.replicate 7 (.advance 0) ++ [.suspend 0 .hold] ++
    List.replicate 7 (.advance 0) ++ [.schedule [task 2]] ++ List.replicate 7 (.advance 1)

/-- An event schedules the fiber while thread 0 still runs it. `YieldToHold`
sets its state to `HOLD`, and before its context is saved thread 1 has taken
and entered it. -/
def earlyWake : List Action :=
  [.create, .schedule [task 2]] ++ List.replicate 7 (.advance 0) ++ [.schedule [task 2], .suspend 0 .hold] ++
    List.replicate 7 (.advance 1)

end Linko.Sched
