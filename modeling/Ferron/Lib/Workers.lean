import Mathlib.Data.List.Basic

/-!
# Workers that are asked one after another

A worker has a state of its own. It is given inputs, notes something about each of them, and gives a result
or fails. In a round some workers are given one input, one after another, up to the first one that fails.

A worker sees nothing of the other workers, so what it does in a round is what it does alone
(`round_of_succeeds`), and a round fails where the first of them would (`round_of_firstFailure`).
-/

set_option autoImplicit false

namespace Ferron.Lib.Workers

variable {σ ι ν α ε : Type}

/-- A worker: its state, and its note, its result and its next state for an input. -/
structure Worker (σ ι ν α ε : Type) where
  state : σ
  work : σ → ι → ν × Except ε α × σ

namespace Worker

variable (worker : Worker σ ι ν α ε) (input : ι)

/-- What the worker notes about an input. -/
def note : ν := (worker.work worker.state input).1

/-- What the worker gives for an input. -/
def result : Except ε α := (worker.work worker.state input).2.1

/-- The worker behind an input. -/
def next : Worker σ ι ν α ε := { worker with state := (worker.work worker.state input).2.2 }

/-- The worker behind some inputs. -/
def after (worker : Worker σ ι ν α ε) (inputs : List ι) : Worker σ ι ν α ε := inputs.foldl next worker

/-- The worker does not fail. -/
def Succeeds : Prop := ∃ a, worker.result input = .ok a

theorem after_append_singleton (inputs : List ι) :
    worker.after (inputs ++ [input]) = (worker.after inputs).next input := by
  rw [after, List.foldl_append]
  rfl

/-- A worker fails when it does not succeed. -/
theorem succeeds_or_error : worker.Succeeds input ∨ ∃ e, worker.result input = .error e := by
  cases hresult : worker.result input with
  | ok a => exact Or.inl ⟨a, hresult⟩
  | error e => exact Or.inr ⟨e, rfl⟩

end Worker

/-- A round: the workers behind it, their notes, what they gave and the error that ended it. -/
structure Round (σ ι ν α ε : Type) where
  workers : List (Worker σ ι ν α ε)
  notes : List ν
  results : List α
  error : Option ε

/-- Gives an input to some workers. -/
def round (input : ι) : List (Worker σ ι ν α ε) → Round σ ι ν α ε
  | [] => ⟨[], [], [], none⟩
  | worker :: workers =>
      match worker.result input with
      | .error e => ⟨worker.next input :: workers, [worker.note input], [], some e⟩
      | .ok a =>
          let rest := round input workers
          ⟨worker.next input :: rest.workers, worker.note input :: rest.notes, a :: rest.results,
            rest.error⟩

/-- The first of some workers that fails. -/
def FirstFailure (workers : List (Worker σ ι ν α ε)) (input : ι) (e : ε) : Prop :=
  ∃ front worker back, workers = front ++ worker :: back ∧ (∀ other ∈ front, other.Succeeds input) ∧
    worker.result input = .error e

variable {workers : List (Worker σ ι ν α ε)} {input : ι}

theorem round_cons_of_ok {worker : Worker σ ι ν α ε} {a : α} (h : worker.result input = .ok a) :
    round input (worker :: workers) =
      ⟨worker.next input :: (round input workers).workers,
        worker.note input :: (round input workers).notes, a :: (round input workers).results,
        (round input workers).error⟩ := by
  rw [round, h]

theorem round_cons_of_error {worker : Worker σ ι ν α ε} {e : ε} (h : worker.result input = .error e) :
    round input (worker :: workers) =
      ⟨worker.next input :: workers, [worker.note input], [], some e⟩ := by
  rw [round, h]

/-- When none of them fails, every worker gives what it gives alone. -/
theorem round_of_succeeds (h : ∀ worker ∈ workers, worker.Succeeds input) :
    round input workers = ⟨workers.map fun worker => worker.next input,
      workers.map fun worker => worker.note input,
      workers.filterMap fun worker => (worker.result input).toOption, none⟩ := by
  induction workers with
  | nil => rfl
  | cons worker workers ih =>
      obtain ⟨⟨a, ha⟩, hrest⟩ := List.forall_mem_cons.1 h
      rw [round_cons_of_ok ha, ih hrest, List.filterMap_cons, ha]
      rfl

theorem round_of_firstFailure {e : ε} (h : FirstFailure workers input e) :
    (round input workers).error = some e := by
  obtain ⟨front, worker, back, rfl, hfront, hworker⟩ := h
  induction front with
  | nil => rw [List.nil_append, round_cons_of_error hworker]
  | cons first front ih =>
      obtain ⟨⟨a, ha⟩, hrest⟩ := List.forall_mem_cons.1 hfront
      rw [List.cons_append, round_cons_of_ok ha]
      exact ih hrest

/-- None of some workers fails, or there is a first one that does. -/
theorem succeeds_or_firstFailure (workers : List (Worker σ ι ν α ε)) (input : ι) :
    (∀ worker ∈ workers, worker.Succeeds input) ∨ ∃ e, FirstFailure workers input e := by
  induction workers with
  | nil => exact Or.inl fun _ h => absurd h List.not_mem_nil
  | cons worker workers ih =>
      rcases worker.succeeds_or_error input with hworker | ⟨e, he⟩
      · rcases ih with hrest | ⟨e, front, failing, back, rfl, hfront, hfailing⟩
        · exact Or.inl (List.forall_mem_cons.2 ⟨hworker, hrest⟩)
        · exact Or.inr ⟨e, worker :: front, failing, back, rfl, List.forall_mem_cons.2 ⟨hworker, hfront⟩,
            hfailing⟩
      · exact Or.inr ⟨e, [], worker, workers, rfl, fun _ h => absurd h List.not_mem_nil, he⟩

/-! ## Several inputs -/

/-- None of some workers fails on a list of inputs, each of them alone. -/
def AllSucceed (workers : List (Worker σ ι ν α ε)) (inputs : List ι) : Prop :=
  ∀ before input behind, inputs = before ++ input :: behind →
    ∀ worker ∈ workers, (worker.after before).Succeeds input

theorem allSucceed_nil (workers : List (Worker σ ι ν α ε)) : AllSucceed workers [] := by
  intro before input behind h
  exact absurd h.symm (List.append_ne_nil_of_right_ne_nil _ (List.cons_ne_nil _ _))

/-- One more input at the end. -/
theorem allSucceed_append_singleton_iff {inputs : List ι} :
    AllSucceed workers (inputs ++ [input]) ↔ AllSucceed workers inputs ∧
      ∀ worker ∈ workers.map fun worker => worker.after inputs, worker.Succeeds input := by
  rw [List.forall_mem_map]
  constructor
  · intro h
    refine ⟨fun before other behind heq => h before other (behind ++ [input]) ?_, h inputs input [] rfl⟩
    rw [heq, List.append_assoc, List.cons_append]
  · rintro ⟨hinputs, hlast⟩ before other behind heq
    rcases List.eq_nil_or_concat behind with rfl | ⟨front, last, rfl⟩
    · obtain ⟨rfl, hsame⟩ := List.append_inj' heq rfl
      rw [← List.head_eq_of_cons_eq hsame]
      exact hlast
    · rw [List.concat_eq_append, ← List.cons_append, ← List.append_assoc] at heq
      exact hinputs before other front (List.append_inj' heq rfl).1

end Ferron.Lib.Workers
