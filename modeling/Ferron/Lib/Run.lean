import Mathlib.Data.List.Basic

/-!
# Runs of a state machine

A state machine takes one action after the other. What every step keeps, as long as the steps are as
they should be, holds at the end of a run (`run_invariant`). A run with a step that is not as it should
be has a first one (`exists_first_of_not_allSteps`).
-/

set_option autoImplicit false

namespace Ferron.Lib.Run

variable {σ α : Type} (step : σ → α → σ)

/-- The state after some actions. -/
def run (state : σ) (actions : List α) : σ := actions.foldl step state

/-- Every step of a run is as it should be. -/
def AllSteps (ok : σ → α → Prop) (state : σ) : List α → Prop
  | [] => True
  | action :: actions => ok state action ∧ AllSteps ok (step state action) actions

instance AllSteps.decidable {ok : σ → α → Prop} [∀ state action, Decidable (ok state action)] :
    (state : σ) → (actions : List α) → Decidable (AllSteps step ok state actions)
  | _, [] => .isTrue trivial
  | state, action :: actions =>
      have : Decidable (AllSteps step ok (step state action) actions) :=
        AllSteps.decidable (step state action) actions
      inferInstanceAs (Decidable (_ ∧ _))

@[simp] theorem run_nil (state : σ) : run step state [] = state := rfl

@[simp] theorem run_cons (state : σ) (action : α) (actions : List α) :
    run step state (action :: actions) = run step (step state action) actions := rfl

theorem run_append (state : σ) (first second : List α) :
    run step state (first ++ second) = run step (run step state first) second :=
  List.foldl_append

variable {step}

/-- What every step keeps holds after a run. -/
theorem run_invariant {ok : σ → α → Prop} {Inv : σ → Prop}
    (hstep : ∀ state action, ok state action → Inv state → Inv (step state action))
    {actions : List α} {state : σ} (h : Inv state) (hall : AllSteps step ok state actions) :
    Inv (run step state actions) := by
  induction actions generalizing state with
  | nil => exact h
  | cons action actions ih =>
      rw [run_cons]
      exact ih (hstep state action hall.1 h) hall.2

/-- What every step keeps, whatever it is, holds after a run. -/
theorem run_invariant' {Inv : σ → Prop} (hstep : ∀ state action, Inv state → Inv (step state action))
    (actions : List α) {state : σ} (h : Inv state) : Inv (run step state actions) := by
  induction actions generalizing state with
  | nil => exact h
  | cons action actions ih =>
      rw [run_cons]
      exact ih (hstep state action h)

/-- Where what every step keeps makes the steps what they should be, all of them are. -/
theorem allSteps_of_invariant {ok : σ → α → Prop} {Inv : σ → Prop} {P : α → Prop}
    (hok : ∀ state action, P action → Inv state → ok state action)
    (hstep : ∀ state action, P action → Inv state → Inv (step state action))
    {actions : List α} (hactions : ∀ action ∈ actions, P action) {state : σ} (h : Inv state) :
    AllSteps step ok state actions := by
  induction actions generalizing state with
  | nil => trivial
  | cons action actions ih =>
      have haction := hactions action List.mem_cons_self
      refine ⟨hok state action haction h, ih ?_ (hstep state action haction h)⟩
      exact fun other hother => hactions other (List.mem_cons_of_mem _ hother)

/-- What every step keeps that an action of some kind makes holds after a run of such actions. -/
theorem run_invariant_of_mem {Inv : σ → Prop} {P : α → Prop}
    (hstep : ∀ state action, P action → Inv state → Inv (step state action))
    {actions : List α} (hactions : ∀ action ∈ actions, P action) {state : σ} (h : Inv state) :
    Inv (run step state actions) :=
  run_invariant hstep h (allSteps_of_invariant (fun _ _ haction _ => haction) hstep hactions h)

/-- The steps are as they should be, and their actions are of one kind. -/
theorem allSteps_and_of_mem {ok : σ → α → Prop} {P : α → Prop} {actions : List α} {state : σ}
    (hall : AllSteps step ok state actions) (hactions : ∀ action ∈ actions, P action) :
    AllSteps step (fun state action => ok state action ∧ P action) state actions := by
  induction actions generalizing state with
  | nil => trivial
  | cons action actions ih =>
      refine ⟨⟨hall.1, hactions action List.mem_cons_self⟩, ih hall.2 ?_⟩
      exact fun other hother => hactions other (List.mem_cons_of_mem _ hother)

/-- In a run with steps that are not as they should be there is a first one. -/
theorem exists_first_of_not_allSteps {ok : σ → α → Prop} {actions : List α} {state : σ}
    (h : ¬AllSteps step ok state actions) :
    ∃ before action after, actions = before ++ action :: after ∧
      AllSteps step ok state before ∧ ¬ok (run step state before) action := by
  induction actions generalizing state with
  | nil => exact absurd trivial h
  | cons action actions ih =>
      by_cases hok : ok state action
      · obtain ⟨before, bad, after, rfl, hbefore, hbad⟩ := ih fun hall => h ⟨hok, hall⟩
        exact ⟨action :: before, bad, after, rfl, ⟨hok, hbefore⟩, hbad⟩
      · exact ⟨[], action, actions, rfl, trivial, hok⟩

/-! ## Tasks -/

/-- A task is exchanged for another one. -/
theorem countP_set {τ : Type} (p : τ → Bool) {tasks : List τ} {index : Nat} {old : τ}
    (h : tasks[index]? = some old) (new : τ) :
    (tasks.set index new).countP p + (if p old then 1 else 0) =
      tasks.countP p + if p new then 1 else 0 := by
  induction tasks generalizing index with
  | nil => exact absurd h (by simp)
  | cons task tasks ih =>
      cases index with
      | zero =>
          rw [List.getElem?_cons_zero, Option.some.injEq] at h
          rw [h, List.set_cons_zero, List.countP_cons, List.countP_cons]
          omega
      | succ index =>
          rw [List.getElem?_cons_succ] at h
          rw [List.set_cons_succ, List.countP_cons, List.countP_cons]
          have htail := ih h
          omega

end Ferron.Lib.Run
