import Mathlib.Data.List.Basic

/-!
# Runs of a machine

A machine is a step function: what an action makes of a state, or `none` where the action
cannot happen there. The actions of every party, an adversary's among them, are one type, so
a list of actions is one interleaving.

`Meets` says that every step of a run meets a condition on the state before it and the
action taken. `run_induction` is the rule of the library: what holds at the start, and what
every step that meets the condition keeps, holds where the run ends.
-/

set_option autoImplicit false

namespace Library

universe u v

variable {σ : Type u} {α : Type v}

/-- The state a list of actions leads to, when each of them can happen. -/
def run (step : σ → α → Option σ) : σ → List α → Option σ
  | s, [] => some s
  | s, a :: actions => (step s a).bind fun next => run step next actions

/-- Every step that a list of actions takes meets a condition. -/
def Meets (step : σ → α → Option σ) (condition : σ → α → Prop) : σ → List α → Prop
  | _, [] => True
  | s, a :: actions =>
      condition s a ∧
        match step s a with
        | none => True
        | some next => Meets step condition next actions

section

variable {step : σ → α → Option σ}

@[simp]
theorem run_nil (s : σ) : run step s [] = some s := rfl

/-- A run is its first step and the run from there. -/
theorem run_cons {s s' : σ} {a : α} {actions : List α} :
    run step s (a :: actions) = some s' ↔
      ∃ next, step s a = some next ∧ run step next actions = some s' := by
  simp [run, Option.bind_eq_some_iff]

/-- A run of two lists is a run of the one and then of the other. -/
theorem run_append (first second : List α) (s : σ) :
    run step s (first ++ second) = (run step s first).bind fun next => run step next second := by
  induction first generalizing s with
  | nil => rfl
  | cons a first ih =>
      cases hstep : step s a with
      | none => simp [run, hstep]
      | some next => simpa [run, hstep] using ih next

@[simp]
theorem meets_nil (condition : σ → α → Prop) (s : σ) : Meets step condition s [] := trivial

/-- A run whose end passes a test ends somewhere. -/
theorem exists_run_of_any {test : σ → Bool} {s : σ} {actions : List α}
    (h : (run step s actions).any test = true) :
    ∃ s', run step s actions = some s' ∧ test s' = true := by
  cases hrun : run step s actions with
  | none => simp [hrun] at h
  | some s' => exact ⟨s', rfl, by simpa [hrun] using h⟩

/-- The condition at the first step, and at every later one. -/
theorem meets_cons {condition : σ → α → Prop} {s next : σ} {a : α} {actions : List α}
    (hstep : step s a = some next) :
    Meets step condition s (a :: actions) ↔ condition s a ∧ Meets step condition next actions := by
  simp [Meets, hstep]

instance decidableMeets (condition : σ → α → Prop) [∀ s a, Decidable (condition s a)] :
    (s : σ) → (actions : List α) → Decidable (Meets step condition s actions)
  | _, [] => isTrue trivial
  | s, a :: actions =>
      match hstep : step s a with
      | none => decidable_of_iff (condition s a) (by simp [Meets, hstep])
      | some next =>
          have : Decidable (Meets step condition next actions) :=
            decidableMeets condition next actions
          decidable_of_iff _ (meets_cons hstep).symm

/-- What holds at the start, and what each step that meets the condition keeps, holds where a run
of such steps ends. -/
theorem run_induction {condition : σ → α → Prop} {inv : σ → Prop}
    (hstep : ∀ s a next, inv s → condition s a → step s a = some next → inv next)
    {s s' : σ} {actions : List α} (hstart : inv s) (hmeets : Meets step condition s actions)
    (hrun : run step s actions = some s') : inv s' := by
  induction actions generalizing s with
  | nil =>
      cases hrun
      exact hstart
  | cons a actions ih =>
      obtain ⟨next, hnext, hrest⟩ := run_cons.mp hrun
      obtain ⟨hcondition, hlater⟩ := (meets_cons hnext).mp hmeets
      exact ih (hstep s a next hstart hcondition hnext) hlater hrest

/-- What every step keeps, without a condition. -/
theorem run_invariant {inv : σ → Prop}
    (hstep : ∀ s a next, inv s → step s a = some next → inv next)
    {s s' : σ} {actions : List α} (hstart : inv s) (hrun : run step s actions = some s') :
    inv s' := by
  induction actions generalizing s with
  | nil =>
      cases hrun
      exact hstart
  | cons a actions ih =>
      obtain ⟨next, hnext, hrest⟩ := run_cons.mp hrun
      exact ih (hstep s a next hstart hnext) hrest

/-- Two conditions are met by the same runs when they say the same wherever an invariant holds that
each step under the one keeps. -/
theorem meets_congr {P Q : σ → α → Prop} {inv : σ → Prop}
    (hsame : ∀ s a, inv s → (P s a ↔ Q s a))
    (hstep : ∀ s a next, inv s → Q s a → step s a = some next → inv next) {s : σ}
    (actions : List α) (hstart : inv s) : Meets step P s actions ↔ Meets step Q s actions := by
  induction actions generalizing s with
  | nil => exact Iff.rfl
  | cons a actions ih =>
      rw [Meets, Meets, hsame s a hstart]
      apply and_congr_right
      intro hq
      cases hnext : step s a with
      | none => exact Iff.rfl
      | some next => exact ih (hstep s a next hstart hq hnext)

end

end Library
