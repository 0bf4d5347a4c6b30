import Linko.Sched.Step
/-!
# Tasks and counters

What goes into the queue comes out of it once or is still there, a thread
takes the first entry it may take, and the two counters count the threads that
are between picking an entry, or going idle, and coming back.
-/

namespace Linko.Sched

open Runs

variable {s s' : State} {t u : ThreadId}

/-! ## The queue -/

/-- The tasks that a step hands to `scheduleNoLock`. -/
def submitted (s : State) : Action → List FiberAndThread
  | .schedule tasks => tasks
  | .advance t =>
    match (s.threads t).pc with
    | .readReady _ f => if s.state f = .ready then [⟨some f, none, none⟩] else []
    | _ => []
  | _ => []

/-- Those of them that have a fiber or a callback. -/
def entered (s : State) (a : Action) : List FiberAndThread := (submitted s a).filter FiberAndThread.nonNull

/-- The entry that a step takes out of the queue. -/
def picked (s : State) : Action → List FiberAndThread
  | .advance t =>
    match (s.threads t).pc, scan s.state t s.queue with
    | .pick, .took ft _ => [ft]
    | _, _ => []
  | _ => []

/-- A step that picks nothing adds what it schedules at the end. -/
theorem advance_queue (h : advance s t = some s') :
    (∃ ft rest, (s.threads t).pc = .pick ∧ scan s.state t s.queue = .took ft rest ∧ s'.queue = rest) ∨
      (picked s (.advance t) = [] ∧ s'.queue = s.queue ++ entered s (.advance t)) := by
  cases hpc : (s.threads t).pc with
  | pick =>
    simp only [advance, hpc] at h
    split at h <;> cases h
    · rename_i hscan
      exact .inr ⟨by simp [picked, hpc, hscan], by simp [entered, submitted, hpc]⟩
    · rename_i hscan
      exact .inr ⟨by simp [picked, hpc, hscan], by simp [entered, submitted, hpc]⟩
    · exact .inl ⟨_, _, rfl, ‹_›, rfl⟩
  | readReady k f =>
    simp only [advance, hpc] at h
    split at h <;> cases h
    · rename_i hr
      exact .inr ⟨by simp [picked, hpc], by simp [entered, submitted, hpc, hr]⟩
    · rename_i hr
      exact .inr ⟨by simp [picked, hpc], by simp [entered, submitted, hpc, hr]⟩
  | _ =>
    have hnone : entered s (.advance t) = [] := by simp [entered, submitted, hpc]
    refine .inr ⟨by simp [picked, hpc], ?_⟩
    rw [hnone, List.append_nil]
    cases advance_effect h <;> first | rfl | simp_all

/-- What a thread puts into the queue is a fiber that yielded to `READY`. -/
theorem entered_ready {e : FiberAndThread} (he : e ∈ entered s (.advance t)) :
    ∃ k f, (s.threads t).pc = .readReady k f ∧ s.state f = .ready ∧ e = ⟨some f, none, none⟩ := by
  have hmem := List.mem_of_mem_filter he
  unfold submitted at hmem
  dsimp only at hmem
  split at hmem
  · rename_i k f hpc
    split at hmem
    · rename_i hready
      exact ⟨k, f, hpc, hready, List.mem_singleton.1 hmem⟩
    · cases hmem
  · cases hmem

theorem step_queue {a : Action} (h : step s a = some s') :
    (s.queue ++ entered s a).Perm (picked s a ++ s'.queue) := by
  rcases step_cases h with ⟨rfl, rfl⟩ | ⟨tasks, rfl, -, rfl⟩ | ⟨t, rfl, -, hadv⟩ | ⟨t, v, k, f, rfl, -, -, rfl⟩
  · simp [entered, submitted, picked]
  · exact List.Perm.refl _
  · rcases advance_queue hadv with ⟨ft, rest, hpc, hscan, hq⟩ | ⟨hp, hq⟩
    · have hp : picked s (.advance t) = [ft] := by simp [picked, hpc, hscan]
      have he : entered s (.advance t) = [] := by simp [entered, submitted, hpc]
      rw [hp, he, hq, List.append_nil]
      exact scan_perm hscan
    · rw [hp, hq]
      exact List.Perm.refl _
  · simp [entered, submitted, picked]

def NonNull (s : State) : Prop := ∀ e ∈ s.queue, e.nonNull = true

theorem nonNull_step {a : Action} (hi : NonNull s) (h : step s a = some s') : NonNull s' := by
  intro e he
  have hmem := (step_queue h).mem_iff.2 (List.mem_append_right (picked s a) he)
  rcases List.mem_append.1 hmem with he | he
  · exact hi e he
  · exact List.of_mem_filter he

/-- Thread `t` has picked: the first entry it may take is gone from the queue
and the others stand as before, or there was none. -/
def Picks (s : State) (t : ThreadId) (s' : State) : Prop :=
  (∃ pre ft post, s.queue = pre ++ ft :: post ∧ (∀ e ∈ pre, ¬ Eligible s.state t e) ∧ Eligible s.state t ft ∧
    s'.queue = pre ++ post ∧ (s'.threads t).pc = .taken ft) ∨
  ((∀ e ∈ s.queue, ¬ Eligible s.state t e) ∧ s'.queue = s.queue ∧ (s'.threads t).pc = .noTask)

theorem picks_of_advance (hi : NonNull s) (hpc : (s.threads t).pc = .pick) (h : advance s t = some s') :
    Picks s t s' := by
  rcases @scan_cases s.state t s.queue hi with ⟨hscan, hno⟩ | ⟨pre, ft, post, hq, hpre, hft, hscan⟩
  · simp only [advance, hpc, hscan, Option.some.injEq] at h
    subst h
    exact .inr ⟨hno, rfl, by simp⟩
  · simp only [advance, hpc, hscan, Option.some.injEq] at h
    subst h
    exact .inl ⟨pre, ft, post, hq, hpre, hft, rfl, by simp⟩

/-! ## The counters -/

def count (p : Pc → Bool) (s : State) : Nat := (List.range s.size).countP fun t => p (s.threads t).pc

/-- Each counter is the number of threads at the places it stands for. -/
structure Counted (s : State) : Prop where
  active : s.activeThreadCount = count Pc.active s
  idle : s.idleThreadCount = count Pc.idling s

theorem counted_init (n : Nat) : Counted (init n) := by
  have hzero (p : Pc → Bool) (hp : p .pick = false) : count p (init n) = 0 :=
    List.countP_eq_zero.2 fun t _ => by simp [init, hp]
  exact ⟨by rw [hzero _ rfl]; rfl, by rw [hzero _ rfl]; rfl⟩

theorem Effect.active (h : Effect s t s') : s'.activeThreadCount + (s.threads t).pc.active.toInt =
    s.activeThreadCount + (s'.threads t).pc.active.toInt := by
  cases h with
  | abort => rfl
  | take hpc _ | release hpc | requeue hpc | construct hpc _ | beginIdle hpc | endIdle hpc =>
    simp [hpc, Pc.active]
  | jump hpc ha _ _ => simp [hpc, ha]
  | endActive hpc hq ha _ _ => simp [hpc, hq, ha]

theorem Effect.idle (h : Effect s t s') : s'.idleThreadCount + (s.threads t).pc.idling.toInt =
    s.idleThreadCount + (s'.threads t).pc.idling.toInt := by
  cases h with
  | abort => rfl
  | take hpc _ | release hpc | requeue hpc | construct hpc _ | beginIdle hpc | endIdle hpc =>
    simp [hpc, Pc.idling]
  | jump hpc _ hi _ => simp [hpc, hi]
  | endActive hpc _ _ hi _ => simp [hpc, hi]

/-- A step of thread `t` that changes each counter as it changes the place of
`t`. -/
theorem counted_change (hi : Counted s) (ht : t < s.size) (hsize : s'.size = s.size)
    (hothers : ∀ u, u ≠ t → s'.threads u = s.threads u)
    (hactive : s'.activeThreadCount + (s.threads t).pc.active.toInt =
      s.activeThreadCount + (s'.threads t).pc.active.toInt)
    (hidle : s'.idleThreadCount + (s.threads t).pc.idling.toInt =
      s.idleThreadCount + (s'.threads t).pc.idling.toInt) : Counted s' := by
  have hcount (p : Pc → Bool) : (count p s' : Int) + (p (s.threads t).pc).toInt =
      count p s + (p (s'.threads t).pc).toInt := by
    rw [count, count, hsize]
    exact @countP_change (fun u => p (s'.threads u).pc) (fun u => p (s.threads u).pc) t s.size ht
      fun u hu => by rw [hothers u hu]
  have ha := hcount Pc.active
  have hd := hcount Pc.idling
  exact ⟨by have := hi.active; omega, by have := hi.idle; omega⟩

theorem counted_step {a : Action} (hi : Counted s) (h : step s a = some s') : Counted s' := by
  rcases step_cases h with ⟨rfl, rfl⟩ | ⟨tasks, rfl, -, rfl⟩ | ⟨t, rfl, ht, hadv⟩ |
    ⟨t, v, k, f, rfl, ht, hpc, rfl⟩
  · exact ⟨hi.active, hi.idle⟩
  · exact ⟨hi.active, hi.idle⟩
  · have he := advance_effect hadv
    exact counted_change hi ht he.size (fun u hu => he.others hu) he.active he.idle
  · refine counted_change hi ht rfl (fun u hu => by simp [hu]) ?_ ?_
    · simp [hpc, Pc.active]
    · simp [hpc, Pc.idling]

/-! ## Runs -/

/-- Over every run: each task with a fiber or a callback that was scheduled has
been picked once or is still in the queue, the next pick takes the first entry
that the thread may take, and `m_activeThreadCount` is the number of threads
that have picked an entry and not yet returned from it. -/
theorem accounting {n : Nat} {hist : List (State × Action)} (h : Run step (init n) hist s) :
    (output entered hist).Perm (output picked hist ++ s.queue) ∧
      (∀ t s', (s.threads t).pc = .pick → step s (.advance t) = some s' → Picks s t s') ∧
      s.activeThreadCount = count Pc.active s ∧ 0 ≤ s.activeThreadCount := by
  have hnull : NonNull s :=
    h.always (fun _ he => absurd he List.not_mem_nil) fun _ _ _ hi hs => nonNull_step hi hs
  have hcount := h.always (counted_init n) fun _ _ _ hi hs => counted_step hi hs
  have hbal :=
    h.balance (I := fun _ => True) trivial (fun _ _ _ _ _ => trivial) rfl fun _ _ _ _ hs => step_queue hs
  refine ⟨hbal, fun t s' hpc hs => ?_, hcount.active, ?_⟩
  · rcases step_cases hs with ⟨he, -⟩ | ⟨tasks, he, -⟩ | ⟨u, he, -, hadv⟩ | ⟨u, v, k, f, he, -⟩ <;> cases he
    exact picks_of_advance hnull hpc hadv
  · rw [hcount.active]
    exact Int.natCast_nonneg _

/-- A null task, a callback pinned to thread 1 and a fiber: thread 0 takes the
fiber past the callback. -/
def mixedTasks : List Action :=
  [.create, .schedule [⟨none, none, none⟩, ⟨none, some 7, some 1⟩, ⟨some 2, none, none⟩], .advance 0,
    .advance 0]

theorem accounting_mixedTasks : ∃ hist s, Run step (init 2) hist s ∧ s.queue = [⟨none, some 7, some 1⟩] ∧
    (output entered hist).Perm (output picked hist ++ s.queue) ∧ s.activeThreadCount = count Pc.active s ∧
    s.activeThreadCount = 1 := by
  obtain ⟨hist, s, hrun, hp⟩ : ∃ hist s, Run step (init 2) hist s ∧
      decide (s.queue = [⟨none, some 7, some 1⟩] ∧ s.activeThreadCount = 1) = true :=
    exists_run mixedTasks (by decide +kernel)
  obtain ⟨hq, hone⟩ := of_decide_eq_true hp
  obtain ⟨hperm, -, hcount, -⟩ := accounting hrun
  exact ⟨hist, s, hrun, hq, hperm, hcount, hone⟩

end Linko.Sched
