import Mathlib.Data.List.Basic
import Mathlib.Data.List.Count
/-!
# Runs

A system is a partial step function. A `Run` is a finite run of it with its
history: the steps taken, each with the state it was taken in. What one step
preserves, a run preserves.
-/

namespace Runs

variable {σ α β : Type} {step : σ → α → Option σ} {init s s' : σ} {hist : List (σ × α)}

/-- The runs from `init`: the steps taken and the last state. -/
inductive Run (step : σ → α → Option σ) (init : σ) : List (σ × α) → σ → Prop where
  | start : Run step init [] init
  | next {hist : List (σ × α)} {s s' : σ} {a : α} : Run step init hist s → step s a = some s' →
      Run step init (hist ++ [(s, a)]) s'

/-- An invariant of the steps that meet a condition holds after every run all
of whose steps meet it. -/
theorem Run.invariant {I : σ → Prop} {ok : σ → α → Prop} (h₀ : I init)
    (hstep : ∀ s a s', I s → ok s a → step s a = some s' → I s') (h : Run step init hist s)
    (hok : ∀ x ∈ hist, ok x.1 x.2) : I s := by
  induction h with
  | start => exact h₀
  | @next hist s s' a _ ha ih =>
    have hlast := hok (s, a) (List.mem_append_right hist List.mem_cons_self)
    exact hstep s a s' (ih fun x hx => hok x (List.mem_append_left _ hx)) hlast ha

/-- An invariant of every step. -/
theorem Run.always {I : σ → Prop} (h₀ : I init) (hstep : ∀ s a s', I s → step s a = some s' → I s')
    (h : Run step init hist s) : I s := by
  induction h with
  | start => exact h₀
  | @next hist s s' a _ ha ih => exact hstep s a s' ih ha

/-- What the steps of a run put out, one after the other. -/
def output (out : σ → α → List β) (hist : List (σ × α)) : List β := hist.flatMap fun x => out x.1 x.2

/-- If every step puts in what it puts out and what it adds to a stock, so does
every run. -/
theorem Run.balance {put take : σ → α → List β} {stock : σ → List β} {I : σ → Prop} (h₀ : I init)
    (hstep : ∀ s a s', I s → step s a = some s' → I s') (hempty : stock init = [])
    (hbal : ∀ s a s', I s → step s a = some s' → (stock s ++ put s a).Perm (take s a ++ stock s'))
    (h : Run step init hist s) : (output put hist).Perm (output take hist ++ stock s) := by
  induction h with
  | start => rw [hempty]; exact List.Perm.refl _
  | @next hist s s' a hr ha ih =>
    have hs := hbal s a s' (hr.always h₀ hstep) ha
    simp only [output, List.flatMap_append, List.flatMap_cons, List.flatMap_nil, List.append_nil] at ih ⊢
    refine (ih.append_right _).trans ?_
    rw [List.append_assoc, List.append_assoc]
    exact hs.append_left _

/-- An entry of a longer history is its last one or one of the history before. -/
theorem split_concat {evs pre post : List β} {e x : β} (h : evs ++ [e] = pre ++ x :: post) :
    (pre = evs ∧ x = e ∧ post = []) ∨ ∃ post', post = post' ++ [e] ∧ evs = pre ++ x :: post' := by
  rcases List.eq_nil_or_concat post with rfl | ⟨post', y, rfl⟩
  · obtain ⟨hevs, he⟩ := List.append_inj' h rfl
    exact .inl ⟨hevs.symm, (List.singleton_inj.1 he).symm, rfl⟩
  · have hy : evs ++ [e] = (pre ++ x :: post') ++ [y] := by simpa using h
    obtain ⟨hevs, he⟩ := List.append_inj' hy rfl
    obtain rfl := List.singleton_inj.1 he
    exact .inr ⟨post', by simp, hevs⟩

theorem output_concat (out : σ → α → List β) (hist : List (σ × α)) (x : σ × α) :
    output out (hist ++ [x]) = output out hist ++ out x.1 x.2 := by
  simp [output]

/-- An invariant of the state and of what has been put out so far, for runs all
of whose steps meet a condition `C`. -/
theorem Run.recorded {P : σ → List β → Prop} {C : σ → α → Prop} {out : σ → α → List β} (h₀ : P init [])
    (hstep : ∀ s a s' evs, P s evs → C s a → step s a = some s' → P s' (evs ++ out s a))
    (h : Run step init hist s) (hok : ∀ x ∈ hist, C x.1 x.2) : P s (output out hist) := by
  induction h with
  | start => exact h₀
  | @next hist s s' a _ ha ih =>
    rw [output_concat]
    have hlast := hok (s, a) (List.mem_append_right hist List.mem_cons_self)
    exact hstep s a s' _ (ih fun x hx => hok x (List.mem_append_left _ hx)) hlast ha

/-- For a step that is given together with what it puts out. -/
theorem exec_of_step {exec : σ → α → Option (σ × List β)} {a : α} (h : (exec s a).map Prod.fst = some s') :
    exec s a = some (s', ((exec s a).map Prod.snd).getD []) := by
  obtain ⟨⟨s₁, new⟩, hexec, rfl⟩ := Option.map_eq_some_iff.1 h
  rw [hexec]
  rfl

/-- The run that takes the given steps. -/
def go (step : σ → α → Option σ) : List (σ × α) → σ → List α → Option (List (σ × α) × σ)
  | hist, s, [] => some (hist, s)
  | hist, s, a :: as =>
    match step s a with
    | none => none
    | some s' => go step (hist ++ [(s, a)]) s' as

theorem run_of_go {as : List α} {hist' : List (σ × α)} (h : Run step init hist s)
    (hgo : go step hist s as = some (hist', s')) : Run step init hist' s' := by
  induction as generalizing hist s with
  | nil =>
    rw [go, Option.some.injEq, Prod.mk.injEq] at hgo
    obtain ⟨rfl, rfl⟩ := hgo
    exact h
  | cons a as ih =>
    rw [go] at hgo
    split at hgo
    · cases hgo
    · rename_i s₁ ha
      exact ih (h.next ha) hgo

/-- A run with a property that can be checked by taking its steps. -/
theorem exists_run (as : List α) {p : List (σ × α) → σ → Bool}
    (h : (go step [] init as).any (fun r => p r.1 r.2) = true) :
    ∃ hist s, Run step init hist s ∧ p hist s = true := by
  cases hgo : go step [] init as with
  | none =>
    rw [hgo] at h
    cases h
  | some r =>
    rw [hgo] at h
    exact ⟨r.1, r.2, run_of_go .start hgo, h⟩

/-! ## Counting -/

/-- When a property changes at one place only, so does the number of places
that have it. -/
theorem countP_change {p q : Nat → Bool} {t n : Nat} (ht : t < n) (h : ∀ u, u ≠ t → p u = q u) :
    ((List.range n).countP p : Int) + (q t).toInt = (List.range n).countP q + (p t).toInt := by
  induction n with
  | zero => exact absurd ht (Nat.not_lt_zero t)
  | succ n ih =>
    rw [List.range_succ, List.countP_append, List.countP_append, List.countP_singleton, List.countP_singleton]
    by_cases hn : t = n
    · have hsame : (List.range t).countP p = (List.range t).countP q :=
        List.countP_congr fun u hu => by rw [h u (Nat.ne_of_lt (List.mem_range.1 hu))]
      subst hn
      rw [hsame]
      cases p t <;> cases q t <;> simp
    · have := ih (by omega)
      rw [h n (Ne.symm hn)]
      push_cast
      omega

end Runs
