import Mathlib.Tactic.Common

/-!
# Runs of a state machine

The states reached when every step also meets a condition on the state and the action, and
the rule that carries an invariant along such runs.
-/
namespace Runs

variable {σ α : Type}

inductive Reachable (start : σ → Prop) (step : σ → α → σ → Prop) (allowed : σ → α → Prop) :
    σ → Prop where
  | start {s : σ} : start s → Reachable start step allowed s
  | step {s s' : σ} {a : α} : Reachable start step allowed s → allowed s a → step s a s' →
      Reachable start step allowed s'

variable {start : σ → Prop} {step : σ → α → σ → Prop} {allowed wider : σ → α → Prop}

/-- What holds at the start and is kept by every allowed step holds in every state reached. -/
theorem Reachable.invariant {I : σ → Prop} {s : σ} (h : Reachable start step allowed s)
    (init : ∀ s, start s → I s)
    (keep : ∀ s a s', I s → allowed s a → step s a s' → I s') : I s := by
  induction h with
  | start first => exact init _ first
  | step _ ok next ih => exact keep _ _ _ ih ok next

/-- A weaker condition reaches more states. -/
theorem Reachable.mono {s : σ} (h : Reachable start step allowed s)
    (weaker : ∀ s a, allowed s a → wider s a) : Reachable start step wider s := by
  induction h with
  | start first => exact .start first
  | step _ ok next ih => exact .step ih (weaker _ _ ok) next

end Runs
