import Ferron.Lib.Run
import Mathlib.Order.WellFounded

/-!
# Fair runs

A schedule is an infinite sequence of actions, and a run under it is fair to an action that comes up again
and again. When each step lowers a measure or changes nothing, and a state in which no fair action changes
anything is one that is looked for, every fair run comes to such a state (`exists_done_of_fair`).
-/

set_option autoImplicit false

namespace Ferron.Lib.FairRun

open Ferron.Lib.Run

variable {σ α : Type} {step : σ → α → σ} {start : σ} {schedule : Nat → α}

/-- The state after the first actions of a schedule. -/
def stateAt (step : σ → α → σ) (start : σ) (schedule : Nat → α) (time : Nat) : σ :=
  run step start ((List.range time).map schedule)

/-- An action comes up again and again. -/
def Recurs (schedule : Nat → α) (action : α) : Prop := ∀ time, ∃ later, time ≤ later ∧ schedule later = action

@[simp] theorem stateAt_zero : stateAt step start schedule 0 = start := rfl

theorem stateAt_succ (time : Nat) : stateAt step start schedule (time + 1) =
    step (stateAt step start schedule time) (schedule time) := by
  rw [stateAt, List.range_succ, List.map_append, run_append]
  rfl

/-- What every step that is scheduled keeps holds at every time. -/
theorem stateAt_invariant {Inv : σ → Prop} {Scheduled : α → Prop} (hinit : Inv start)
    (hscheduled : ∀ time, Scheduled (schedule time))
    (hstep : ∀ state action, Scheduled action → Inv state → Inv (step state action)) (time : Nat) :
    Inv (stateAt step start schedule time) := by
  refine run_invariant_of_mem hstep (fun action haction => ?_) hinit
  obtain ⟨earlier, -, rfl⟩ := List.mem_map.1 haction
  exact hscheduled earlier

/-- In a fair run whose steps lower a measure or change nothing the machine comes to a state that is
looked for. -/
theorem exists_done_of_fair (measure : σ → Nat) (Inv Done : σ → Prop)
    (Scheduled Fair : α → Prop) (hinit : Inv start)
    (hscheduled : ∀ time, Scheduled (schedule time))
    (hstep : ∀ state action, Scheduled action → Inv state → Inv (step state action))
    (hdecrease : ∀ state action, Scheduled action → Inv state → ¬Done state → ¬Done (step state action) →
      step state action = state ∨ measure (step state action) < measure state)
    (hstuck : ∀ state, Inv state → (∀ action, Fair action → step state action = state) → Done state)
    (hfair : ∀ action, Fair action → Recurs schedule action) :
    ∃ time, Done (stateAt step start schedule time) := by
  by_contra hnever
  have hnotDone (time : Nat) : ¬Done (stateAt step start schedule time) := fun h => hnever ⟨time, h⟩
  have hinv (time : Nat) : Inv (stateAt step start schedule time) :=
    stateAt_invariant hinit hscheduled hstep time
  -- the measure takes its least value at some time
  obtain ⟨least, ⟨time, rfl⟩, hleast⟩ :=
    WellFounded.has_min (wellFounded_lt (α := Nat))
      (Set.range fun time => measure (stateAt step start schedule time)) ⟨_, 0, rfl⟩
  -- from then on the state stays what it is
  have hsame (later : Nat) (hlater : time ≤ later) :
      stateAt step start schedule later = stateAt step start schedule time := by
    induction later, hlater using Nat.le_induction with
    | base => rfl
    | succ later _ ih =>
        have hnext := hnotDone (later + 1)
        rw [stateAt_succ] at hnext ⊢
        rcases hdecrease _ _ (hscheduled later) (hinv later) (hnotDone later) hnext with hstill | hlower
        · rw [hstill, ih]
        · rw [ih] at hlower
          refine absurd ?_ (hleast _ ⟨later + 1, rfl⟩)
          dsimp only
          rwa [stateAt_succ, ih]
  -- every fair action comes up and changes nothing, so the state is looked for
  refine hnotDone time (hstuck _ (hinv time) fun action haction => ?_)
  obtain ⟨later, hlater, hcomes⟩ := hfair action haction time
  have hnext := hsame (later + 1) (by omega)
  rwa [stateAt_succ, hsame later hlater, hcomes] at hnext

end Ferron.Lib.FairRun
