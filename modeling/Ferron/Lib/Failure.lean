import Mathlib.Data.List.Induction

/-!
# Computations that may fail

What a computation in `Except` has done when it succeeds: the steps of a sequence have succeeded
(`exists_of_bind_ok`), and a fold has succeeded on all elements before the last one (`foldlM_concat_ok`), so
what every successful step keeps holds at its end (`foldlM_ok_invariant`).
-/

set_option autoImplicit false

namespace Ferron.Lib

variable {ε α β σ : Type}

theorem exists_of_bind_ok {x : Except ε α} {f : α → Except ε β} {b : β} (h : x >>= f = .ok b) :
    ∃ a, x = .ok a ∧ f a = .ok b := by
  cases x with
  | error => exact absurd h (by simp [Bind.bind, Except.bind])
  | ok a => exact ⟨a, rfl, h⟩

section Folds

variable {step : σ → α → Except ε σ}

/-- The first step of a fold. -/
theorem foldlM_cons_ok {state after : σ} {action : α} {actions : List α}
    (h : (action :: actions).foldlM step state = .ok after) :
    ∃ next, step state action = .ok next ∧ actions.foldlM step next = .ok after := by
  rw [List.foldlM_cons] at h
  exact exists_of_bind_ok h

/-- The last step of a fold. -/
theorem foldlM_concat_ok {state after : σ} {actions : List α} {last : α}
    (h : (actions ++ [last]).foldlM step state = .ok after) :
    ∃ before, actions.foldlM step state = .ok before ∧ step before last = .ok after := by
  rw [List.foldlM_append] at h
  obtain ⟨before, hbefore, hlast⟩ := exists_of_bind_ok h
  obtain ⟨after', hafter, hdone⟩ := foldlM_cons_ok hlast
  cases hdone
  exact ⟨before, hbefore, hafter⟩

/-- What every successful step keeps, knowing the actions before it, holds at the end of a fold. -/
theorem foldlM_ok_invariant {Inv : List α → σ → Prop}
    (hstep : ∀ before state action after, Inv before state → step state action = .ok after →
      Inv (before ++ [action]) after)
    {state after : σ} (h : Inv [] state) {actions : List α}
    (hrun : actions.foldlM step state = .ok after) : Inv actions after := by
  induction actions using List.reverseRecOn generalizing after with
  | nil =>
      cases hrun
      exact h
  | append_singleton actions last ih =>
      obtain ⟨before, hbefore, hlast⟩ := foldlM_concat_ok hrun
      exact hstep actions before last after (ih hbefore) hlast

end Folds

end Ferron.Lib
