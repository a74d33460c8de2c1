import Mathlib.Logic.Basic

/-!
# Machines given by a partial step function

A machine is a function `step : σ → α → Option σ`, where `none` says that the
action is not enabled in the state.  The environment of the machine is
restricted by a policy `ok : σ → α → Prop`, which says in which states an action
may be tried.  Keeping the policy apart from the step lets one machine be
studied under several environments.

`Reach step ok s₀` is the set of states of all runs from `s₀` under the policy,
and `Reach.invariant` is the rule every safety result uses.  `execOk` performs a
given list of actions and checks the policy on the way, so that a concrete run is
found by evaluation.
-/

namespace Lib
namespace Machine

variable {σ α : Type}

/-- The states of all runs from `s₀` whose actions the policy admits. -/
inductive Reach (step : σ → α → Option σ) (ok : σ → α → Prop) (s₀ : σ) : σ → Prop
  | start : Reach step ok s₀ s₀
  | next {s s' : σ} {a : α} :
      Reach step ok s₀ s → ok s a → step s a = some s' → Reach step ok s₀ s'

variable {step : σ → α → Option σ} {ok : σ → α → Prop} {s₀ : σ}

/-- What holds at the start and is kept by every admitted step holds in every
state of every run.  The step may use that its source is itself reached. -/
theorem Reach.invariant {P : σ → Prop} (hstart : P s₀)
    (hstep : ∀ s a s', Reach step ok s₀ s → P s → ok s a → step s a = some s' → P s')
    {s : σ} (h : Reach step ok s₀ s) : P s := by
  induction h with
  | start => exact hstart
  | next hr hok hs ih => exact hstep _ _ _ hr ih hok hs

theorem Reach.mono {ok' : σ → α → Prop} (himp : ∀ s a, ok s a → ok' s a) {s : σ}
    (h : Reach step ok s₀ s) : Reach step ok' s₀ s := by
  induction h with
  | start => exact .start
  | next _ hok hs ih => exact .next ih (himp _ _ hok) hs

/-- A policy may be widened where an invariant of the runs under it allows. -/
theorem Reach.widen {ok' : σ → α → Prop} {P : σ → Prop} (hstart : P s₀)
    (hstep : ∀ s a s', P s → ok s a → step s a = some s' → P s')
    (himp : ∀ s a, P s → ok s a → ok' s a) {s : σ} (h : Reach step ok s₀ s) :
    Reach step ok' s₀ s := by
  induction h with
  | start => exact .start
  | next hr hok hs ih =>
      have hP := hr.invariant hstart fun s a s' _ => hstep s a s'
      exact .next ih (himp _ _ hP hok) hs

theorem Reach.trans {s₁ s : σ} (h₁ : Reach step ok s₀ s₁) (h : Reach step ok s₁ s) :
    Reach step ok s₀ s := by
  induction h with
  | start => exact h₁
  | next _ hok hs ih => exact .next ih hok hs

/-- A run seen through a function, when each step is seen as nothing or as a step. -/
theorem Reach.map {τ β : Type} {step' : τ → β → Option τ} {ok' : τ → β → Prop} (f : σ → τ)
    (hstep : ∀ s a s', ok s a → step s a = some s' →
      f s' = f s ∨ ∃ b, ok' (f s) b ∧ step' (f s) b = some (f s'))
    {s : σ} (h : Reach step ok s₀ s) : Reach step' ok' (f s₀) (f s) := by
  induction h with
  | start => exact .start
  | next _ hok hs ih =>
      obtain hsame | ⟨b, hb, hs'⟩ := hstep _ _ _ hok hs
      · rw [hsame]
        exact ih
      · exact .next ih hb hs'

/-- Perform a list of actions in order, giving up at the first one that the
policy rejects or that is not enabled. -/
def execOk (step : σ → α → Option σ) (ok : σ → α → Prop) [∀ s a, Decidable (ok s a)] :
    σ → List α → Option σ
  | s, [] => some s
  | s, a :: rest =>
      if ok s a then (step s a).bind fun s' => execOk step ok s' rest else none

theorem Reach.of_execOk [∀ s a, Decidable (ok s a)] {acts : List α} {s s' : σ}
    (h : execOk step ok s acts = some s') : Reach step ok s s' := by
  induction acts generalizing s with
  | nil =>
      simp only [execOk, Option.some.injEq] at h
      exact h ▸ .start
  | cons a rest ih =>
      simp only [execOk] at h
      by_cases hok : ok s a
      · rw [if_pos hok] at h
        obtain ⟨s₁, hs₁, hrest⟩ := Option.bind_eq_some_iff.mp h
        exact Reach.trans (.next .start hok hs₁) (ih hrest)
      · rw [if_neg hok] at h
        cases h

/-- A run whose last state passes a test shows that such a state is reached. -/
theorem exists_reach_of_execOk (step : σ → α → Option σ) (ok : σ → α → Prop)
    [∀ s a, Decidable (ok s a)] (s : σ) (acts : List α) (p : σ → Bool)
    (h : (execOk step ok s acts).map p = some true) :
    ∃ s', Reach step ok s s' ∧ p s' = true := by
  obtain ⟨s', hs', hp⟩ := Option.map_eq_some_iff.mp h
  exact ⟨s', Reach.of_execOk hs', hp⟩

end Machine
end Lib
