import Linko.Sched.Model
/-!
# The steps of a thread

A thread takes some twenty kinds of steps, but few of them matter to the queue,
to the counters or to who works on which fiber. `Effect` sorts them by that,
and every invariant is proved from it.
-/

namespace Linko.Sched

variable {s s' : State} {t u : ThreadId}

/-! ## Places of the code -/

/-- The fiber that a place of the code is about. -/
def Pc.fiber : Pc → Option FiberId
  | .taken ft => ft.fiber
  | .notTerm _ f | .reset f _ | .setInit f _ | .swapIn _ f | .setExec _ f | .save _ f | .enter _ f | .running _ f
  | .leave _ f | .resume _ f | .back _ f | .readReady _ f | .readFirst _ f | .readSecond _ f | .setHold _ f => some f
  | _ => none

/-- The fiber on whose stack a thread executes: it has entered it, and its
`swapOut` has not yet saved the context. -/
def Pc.stack : Pc → Option FiberId
  | .running _ f | .leave _ f => some f
  | _ => none

/-- An entry has been picked and the thread has not yet returned from it. -/
def Pc.active : Pc → Bool
  | .taken _ | .notTerm _ _ | .giveUp | .prepare _ => true
  | .reset _ again | .setInit _ again => again
  | .swapIn k _ | .setExec k _ | .save k _ | .enter k _ | .running k _ | .leave k _ | .resume k _ | .back k _ => k ≠ .idle
  | _ => false

/-- The thread has gone to its idle fiber and not yet returned from it. -/
def Pc.idling : Pc → Bool
  | .swapIn k _ | .setExec k _ | .save k _ | .enter k _ | .running k _ | .leave k _ | .resume k _ | .back k _ => k = .idle
  | _ => false

theorem otherwise_cases (e : FiberAndThread) : (∃ c, e.otherwise = .prepare c) ∨ e.otherwise = .giveUp := by
  unfold FiberAndThread.otherwise
  split
  · exact .inl ⟨_, rfl⟩
  · exact .inr rfl

theorem finished_cases (k : Kind) (f : FiberId) : k.finished f = .reset f false ∨ k.finished f = .pick := by
  cases k
  · exact .inr rfl
  · exact .inl rfl
  · exact .inr rfl

/-! ## Kinds of steps -/

/-- The steps of thread `t` by what they change. -/
inductive Effect (s : State) (t : ThreadId) : State → Prop where
  | abort : Effect s t s.abort
  | take {ft : FiberAndThread} {rest : List FiberAndThread} : (s.threads t).pc = .pick →
      scan s.state t s.queue = .took ft rest →
      Effect s t ({ s with queue := rest, activeThreadCount := s.activeThreadCount + 1 }.goto t (.taken ft))
  /-- A read or a write of an `m_state`, or half of a switch. -/
  | jump {q pc : Pc} {v : FiberId → FiberState} : (s.threads t).pc = q → pc.active = q.active →
      pc.idling = q.idling → (∀ f, pc.fiber = some f → q.fiber = some f ∨ (s.threads t).cbFiber = some f) →
      Effect s t ({ s with state := v }.goto t pc)
  | release {k : Kind} {f : FiberId} : (s.threads t).pc = .setHold k f →
      Effect s t (((s.write f .hold).release k t).goto t .pick)
  | requeue {k : Kind} {f : FiberId} : (s.threads t).pc = .readReady k f →
      Effect s t (((s.schedule [⟨some f, none, none⟩]).release k t).goto t .pick)
  | construct {c : CallbackId} : (s.threads t).pc = .prepare c → (s.threads t).cbFiber = none →
      Effect s t ((({ s with fibers := s.fibers + 1 }.write s.fibers .init).setCbFiber t (some s.fibers)).goto t
        (.swapIn .cb s.fibers))
  /-- `--m_activeThreadCount` -/
  | endActive {q pc : Pc} : (s.threads t).pc = q → q.active = true → pc.active = false → pc.idling = q.idling →
      (∀ f, pc.fiber = some f → q.fiber = some f) →
      Effect s t ({ s with activeThreadCount := s.activeThreadCount - 1 }.goto t pc)
  | beginIdle : (s.threads t).pc = .countIdle →
      Effect s t ({ s with idleThreadCount := s.idleThreadCount + 1 }.goto t (.swapIn .idle t))
  | endIdle {f : FiberId} : (s.threads t).pc = .back .idle f →
      Effect s t ({ s with idleThreadCount := s.idleThreadCount - 1 }.goto t (.readFirst .idle f))

theorem advance_effect (h : advance s t = some s') : Effect s t s' := by
  -- a jump that only reads
  have read {q pc : Pc} (hq : (s.threads t).pc = q) (ha : pc.active = q.active) (hi : pc.idling = q.idling)
      (hf : ∀ f, pc.fiber = some f → q.fiber = some f ∨ (s.threads t).cbFiber = some f) :
      Effect s t (s.goto t pc) :=
    .jump (v := s.state) hq ha hi hf
  have otherwise {q : Pc} (ft : FiberAndThread) (hq : (s.threads t).pc = q) (ha : q.active = true)
      (hi : q.idling = false) : Effect s t (s.goto t ft.otherwise) := by
    rcases otherwise_cases ft with ⟨c, hc⟩ | hc <;> rw [hc] <;> exact read hq ha.symm hi.symm nofun
  have finished {q : Pc} (k : Kind) (f : FiberId) (hq : (s.threads t).pc = q) (ha : q.active = false)
      (hi : q.idling = false) (hf : q.fiber = some f) : Effect s t (s.goto t (k.finished f)) := by
    rcases finished_cases k f with hk | hk <;> rw [hk]
    · exact read hq ha.symm hi.symm fun g hg => .inl (hf.trans hg)
    · exact read hq ha.symm hi.symm nofun
  cases hpc : (s.threads t).pc with
  | running k f | exited => simp [advance, hpc] at h
  | pick =>
    simp only [advance, hpc] at h
    split at h <;> cases h
    · exact read hpc rfl rfl nofun
    · exact .abort
    · exact .take hpc ‹_›
  | taken ft =>
    simp only [advance, hpc] at h
    split at h <;> cases h
    · rename_i f hf
      split
      · exact otherwise ft hpc rfl rfl
      · exact read hpc rfl rfl fun g hg => .inl (hf.trans hg)
    · exact otherwise ft hpc rfl rfl
  | notTerm ft f =>
    simp only [advance, hpc, Option.some.injEq] at h
    subst h
    split
    · exact otherwise ft hpc rfl rfl
    · exact read hpc rfl rfl fun g hg => .inl hg
  | prepare c =>
    simp only [advance, hpc] at h
    split at h <;> cases h
    · rename_i f hf
      exact read hpc rfl rfl fun g hg => .inr (hf.trans hg)
    · exact .construct hpc ‹_›
  | reset f again | swapIn k f =>
    simp only [advance, hpc] at h
    split at h <;> cases h <;> first
      | exact .abort
      | exact read hpc rfl rfl fun g hg => .inl hg
  | setInit f again =>
    simp only [advance, hpc, Option.some.injEq] at h
    subst h
    cases again
    · exact .jump hpc rfl rfl nofun
    · exact .jump hpc rfl rfl fun g hg => .inl hg
  | noTask =>
    simp only [advance, hpc, Option.some.injEq] at h
    subst h
    split <;> exact read hpc rfl rfl nofun
  | giveUp =>
    simp only [advance, hpc, Option.some.injEq] at h
    subst h
    exact .endActive hpc rfl rfl rfl nofun
  | countIdle =>
    simp only [advance, hpc, Option.some.injEq] at h
    subst h
    exact .beginIdle hpc
  | back k f =>
    cases k <;> simp only [advance, hpc, Option.some.injEq] at h <;> subst h
    · exact .endActive hpc rfl rfl rfl fun g hg => hg
    · exact .endActive hpc rfl rfl rfl fun g hg => hg
    · exact .endIdle hpc
  | readReady k f =>
    simp only [advance, hpc] at h
    split at h <;> cases h
    · exact .requeue hpc
    · exact read hpc rfl rfl fun g hg => .inl hg
  | readFirst k f | readSecond k f =>
    simp only [advance, hpc, Option.some.injEq] at h
    subst h
    split
    · exact finished k f hpc rfl rfl rfl
    · exact read hpc rfl rfl fun g hg => .inl hg
  | setHold k f =>
    simp only [advance, hpc, Option.some.injEq] at h
    subst h
    exact .release hpc
  | setExec k f | save k f | enter k f | leave k f | resume k f =>
    simp only [advance, hpc, Option.some.injEq] at h
    subst h
    exact .jump hpc rfl rfl fun g hg => .inl hg

/-- The other threads are not touched. -/
theorem Effect.others (h : Effect s t s') (hu : u ≠ t) : s'.threads u = s.threads u := by
  cases h <;> simp [hu]

theorem Effect.size (h : Effect s t s') : s'.size = s.size := by
  cases h <;> rfl

theorem Effect.fibers (h : Effect s t s') : s'.fibers = s.fibers ∨ s'.fibers = s.fibers + 1 := by
  cases h <;> simp

/-- The steps of the system. -/
theorem step_cases {a : Action} (h : step s a = some s') :
    (a = .create ∧ s' = { s with fibers := s.fibers + 1 }.write s.fibers .init) ∨
    (∃ tasks, a = .schedule tasks ∧ (∀ e ∈ tasks, ∀ f, e.fiber = some f → f < s.fibers) ∧
      s' = s.schedule tasks) ∨
    (∃ t, a = .advance t ∧ t < s.size ∧ advance s t = some s') ∨
    (∃ t v k f, a = .suspend t v ∧ t < s.size ∧ (s.threads t).pc = .running k f ∧
      s' = (s.write f v).goto t (.leave k f)) := by
  unfold step at h
  split at h
  · cases h
  · cases a with
    | create => exact .inl ⟨rfl, (Option.some.inj h).symm⟩
    | schedule tasks =>
      simp only at h
      split at h
      · exact .inr (.inl ⟨tasks, rfl, ‹_›, (Option.some.inj h).symm⟩)
      · cases h
    | advance t =>
      simp only at h
      split at h
      · exact .inr (.inr (.inl ⟨t, rfl, ‹_›, h⟩))
      · cases h
    | suspend t v =>
      simp only at h
      split at h
      · rename_i k f hpc
        split at h
        · rename_i hv
          exact .inr (.inr (.inr ⟨t, v, k, f, rfl, hv.1, hpc, (Option.some.inj h).symm⟩))
        · cases h
      · cases h

end Linko.Sched
