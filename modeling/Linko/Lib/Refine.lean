import Linko.Lib.Runs
/-!
# Refinement

A system that gives a reply to each step refines a specification, a relation
between two abstract states, an operation and its reply: each run of the system
is one of the specification, with the same operations and the same replies.
-/

namespace Runs

variable {σ τ α β : Type} {step : σ → α → Option σ} {init s s' : σ} {hist : List (σ × α)}

/-- The runs of a specification: the operations with their replies, and the last state. -/
inductive Follows (spec : τ → α → β → τ → Prop) (start : τ) : List (α × β) → τ → Prop where
  | start : Follows spec start [] start
  | next {calls : List (α × β)} {t t' : τ} {a : α} {b : β} : Follows spec start calls t → spec t a b t' →
      Follows spec start (calls ++ [(a, b)]) t'

/-- The operations of a run with their replies. -/
def calls (reply : σ → α → β) (hist : List (σ × α)) : List (α × β) := hist.map fun x => (x.2, reply x.1 x.2)

/-- A simulation under an invariant: it is enough to look at one step. -/
theorem Run.refines {spec : τ → α → β → τ → Prop} {abs : σ → τ} {reply : σ → α → β} {I : σ → Prop} (h₀ : I init)
    (hinv : ∀ s a s', I s → step s a = some s' → I s')
    (hstep : ∀ s a s', I s → step s a = some s' → spec (abs s) a (reply s a) (abs s'))
    (h : Run step init hist s) : Follows spec (abs init) (calls reply hist) (abs s) := by
  induction h with
  | start => exact .start
  | @next hist s s' a hr ha ih =>
    have hcalls : calls reply (hist ++ [(s, a)]) = calls reply hist ++ [(a, reply s a)] := by
      rw [calls, List.map_append]
      rfl
    rw [hcalls]
    exact ih.next (hstep s a s' (hr.always h₀ hinv) ha)

end Runs
