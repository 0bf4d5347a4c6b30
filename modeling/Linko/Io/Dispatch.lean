import Linko.Io.Registration
/-!
# Stale reports

Between the return of `epoll_wait` and the lock of the context other threads can
change what is registered. `idle` skips a report of which nothing is left. A
report of which one event is left and the other is gone triggers both.
-/

namespace Linko.Io

open Runs

variable {s s' : State} {fd : Fd} {e : Event} {m : Events} {report : Report} {ok : Bool} {size : Nat}

/-- `idle` has a report for a descriptor of the table, of events that were
registered, and holds the lock after other steps. -/
def Reported (size : Nat) (fd : Fd) (report : Report) (s : State) : Prop :=
  ∃ hist s₀ hist', Run step (init size) hist s₀ ∧ fd < s₀.size ∧
    (∀ e, report.events.has e = true → (s₀.ctx fd).events.has e = true) ∧ Run step s₀ hist' s

/-- `idle` triggers only what is registered, and counts only that. -/
def Tolerates (s : State) (fd : Fd) (report : Report) (ok : Bool) : Prop :=
  ∃ s' out, dispatch s fd report ok = .ok (s', out) ∧
    (∀ x ∈ out, x.fd = fd ∧ (s.ctx fd).events.has x.event = true) ∧
    s'.pendingEventCount = s.pendingEventCount - out.length

theorem accounted_from {s₀ : State} {hist : List (State × Op)} (h₀ : Accounted s₀) (h : Run step s₀ hist s) :
    Accounted s := by
  refine h.always h₀ ?_
  intro s op s' hs hstep
  obtain ⟨r, -, hd, rfl⟩ := step_does hs hstep
  exact hd.accounted hs

theorem Reported.accounted (h : Reported size fd report s) : Accounted s := by
  obtain ⟨hist, s₀, hist', hrun, -, -, hrun'⟩ := h
  exact accounted_from (accounted_of_run hrun) hrun'

/-! ## What is left of a report -/

theorem real_registered {events : Events} (h : ∀ e, report.events.has e = true → events.has e = true)
    (e : Event)
    (he : (realEvents events report).has e = true) : events.has e = true := by
  unfold realEvents at he
  split at he
  · rw [Events.has_union, Bool.or_eq_true] at he
    exact he.elim (h e) id
  · exact h e he

theorem reported_real {events : Events} (he : report.events.has e = true) :
    (realEvents events report).has e = true := by
  unfold realEvents
  split
  · simp [he]
  · exact he

theorem length_held (hg : (s.ctx fd).Good) (hm : ∀ e, m.has e = true → (s.ctx fd).events.has e = true) :
    (held s fd m).length = m.count := by
  obtain ⟨r, w⟩ := m
  have htask : ∀ e, (⟨r, w⟩ : Events).has e = true → ∃ t, ((s.ctx fd).getContext e).task = some t := by
    intro e he
    obtain ⟨t, ht⟩ := hg.held e (hm e he)
    exact ⟨t, by simp [ht]⟩
  cases r <;> cases w
  · rfl
  · obtain ⟨t, ht⟩ := htask .write rfl
    simp [held, ht, Events.count]
  · obtain ⟨t, ht⟩ := htask .read rfl
    simp [held, ht, Events.count]
  · obtain ⟨t, ht⟩ := htask .read rfl
    obtain ⟨u, hu⟩ := htask .write rfl
    simp [held, ht, hu, Events.count]

theorem tolerates_registered (h : Accounted s)
    (hall : ∀ e, report.events.has e = true → (s.ctx fd).events.has e = true)
    (hsome : (s.ctx fd).events.inter (realEvents (s.ctx fd).events report) ≠ .none) :
    Tolerates s fd report true := by
  have hreal := real_registered hall
  refine ⟨_, _, dispatch_spec h hreal hsome, ?_, ?_⟩
  · intro x hx
    obtain ⟨hfd, hevent⟩ := mem_held hx
    exact ⟨hfd, hreal _ hevent⟩
  · have hcount := Events.count_diff hreal
    rw [length_held (h.good fd) hreal]
    simp only [State.moved, FdContext.events_clear]
    omega

/-- An event that is taken and not registered fails the assertion of
`triggerEvent`. -/
theorem dispatch_fails (h : Accounted s) (he : (realEvents (s.ctx fd).events report).has e = true)
    (hgone : (s.ctx fd).events.has e = false)
    (hsome : (s.ctx fd).events.inter (realEvents (s.ctx fd).events report) ≠ .none) :
    dispatch s fd report true = .error .notRegistered := by
  unfold dispatch
  dsimp only
  rw [if_neg hsome]
  generalize realEvents (s.ctx fd).events report = m at he hsome ⊢
  simp only [epollCtl_left]
  have hfail : ∀ (s : State) e, (s.ctx fd).events.has e = false →
    triggerIf s fd e true = .error .notRegistered := by
    intro s e hnot
    simp [triggerIf, FdContext.triggerEvent, hnot, bind, Except.bind]
  cases e with
  | read =>
    have hm : m.read = true := he
    have hfirst := hfail { s with kernel := Function.update s.kernel fd ((s.ctx fd).events.diff m) } .read hgone
    rw [hm, hfirst]
    rfl
  | write =>
    have hm : m.write = true := he
    -- the read event comes first, and it is registered as something is left
    have hread : m.read = true → (s.ctx fd).events.has .read = true := by
      intro hr
      by_contra hnot
      refine hsome (Events.ext_has ?_)
      intro f
      cases f <;> simp_all
    have hfirst :=
      @triggerIf_spec
        { s with kernel := Function.update s.kernel fd ((s.ctx fd).events.diff m) } fd .read m.read
        (h.good fd) hread
    rw [hfirst, hm]
    simp only [bind, Except.bind]
    rw [hfail _ .write]
    rw [fired_ctx]
    split <;> simp [hgone]

/-- `idle` tolerates a report exactly if `epoll_ctl` fails, or nothing that it
takes from the report is registered, or all events of the report still are. -/
theorem dispatch_tolerates_iff (h : Reported size fd report s) (ok : Bool) :
    Tolerates s fd report ok ↔
      ok = false ∨ (s.ctx fd).events.inter (realEvents (s.ctx fd).events report) = .none ∨
      ∀ e, report.events.has e = true → (s.ctx fd).events.has e = true := by
  have hs := h.accounted
  have hskip : dispatch s fd report ok = .ok (s, []) → Tolerates s fd report ok := by
    intro hd
    exact ⟨s, [], hd, nofun, by simp⟩
  by_cases hsome : (s.ctx fd).events.inter (realEvents (s.ctx fd).events report) = .none
  · refine ⟨fun _ => .inr (.inl hsome), fun _ => hskip ?_⟩
    unfold dispatch
    dsimp only
    rw [if_pos hsome]
  · cases ok with
    | false =>
      refine ⟨fun _ => .inl rfl, fun _ => hskip ?_⟩
      unfold dispatch
      dsimp only
      rw [if_neg hsome]
      rfl
    | true =>
      constructor
      · rintro ⟨s', out, hd, -⟩
        refine .inr (.inr ?_)
        intro e he
        by_contra hgone
        rw [dispatch_fails hs (reported_real he) (by simpa using hgone) hsome] at hd
        cases hd
      · rintro (hf | hnone | hall)
        · cases hf
        · exact absurd hnone hsome
        · exact tolerates_registered hs hall hsome

/-- Both events of descriptor 3 are registered and reported. -/
def bothRegistered : List Op := [.addEvent 3 .read none 7 1 true, .addEvent 3 .write none 8 1 true]

def bothReported : Report := ⟨⟨true, true⟩, false⟩

/-- Both are registered, and other steps leave a mask of them. -/
def leaves (later : List Op) (left : Events) (s : State) : Bool :=
  decide ((s.ctx 3).events = ⟨true, true⟩) && decide (3 < s.size) &&
    (go step [] s later).any fun r => decide ((r.2.ctx 3).events = left)

theorem exists_reported {later : List Op} {left : Events}
    (h : ((go step [] (init 32) bothRegistered).any fun r => leaves later left r.2) = true) :
    ∃ s, Reported 32 3 bothReported s ∧ (s.ctx 3).events = left := by
  obtain ⟨hist, s₀, hrun, hp⟩ :=
    @exists_run _ _ step (init 32) bothRegistered (fun _ s => leaves later left s) h
  simp only [leaves, Bool.and_eq_true, decide_eq_true_eq] at hp
  obtain ⟨⟨hboth, hsize⟩, hgo⟩ := hp
  obtain ⟨hist', s, hrun', hleft⟩ :=
    @exists_run _ _ step s₀ later (fun _ s => decide ((s.ctx 3).events = left)) hgo
  refine ⟨s, ⟨hist, s₀, hist', hrun, hsize, ?_, hrun'⟩, of_decide_eq_true hleft⟩
  intro e _
  rw [hboth]
  cases e <;> rfl

/-- Two steps of another thread take both away, and nothing is left. -/
theorem dispatch_tolerates_cancelled : ∃ s, Reported 32 3 bothReported s ∧ Tolerates s 3 bothReported true := by
  obtain ⟨s, hreported, hleft⟩ :=
    @exists_reported [.delEvent 3 .write true, .cancelAll 3 true] .none (by decide +kernel)
  refine ⟨s, hreported, (dispatch_tolerates_iff hreported true).2 (.inr (.inl ?_))⟩
  rw [hleft]
  rfl

/-- One step of another thread takes one of them away, and it is triggered all
the same. -/
theorem dispatch_fails_deleted :
    ¬ ∀ size fd report s ok, Reported size fd report s → Tolerates s fd report ok := by
  intro htolerates
  obtain ⟨s, hreported, hleft⟩ := @exists_reported [.delEvent 3 .write true] ⟨true, false⟩ (by decide +kernel)
  obtain ⟨s', out, hd, -⟩ := htolerates 32 3 bothReported s true hreported
  have hgone : (s.ctx 3).events.has .write = false := by
    rw [hleft]
    rfl
  have hsome : (s.ctx 3).events.inter (realEvents (s.ctx 3).events bothReported) ≠ .none := by
    rw [hleft]
    decide
  rw [dispatch_fails hreported.accounted rfl hgone hsome] at hd
  cases hd

end Linko.Io
