import Mathlib.Data.List.Perm.Basic
import Mathlib.Tactic

/-!
# Updates under a lock

Tasks change a store under one lock. A task takes the lock, reads something from the store, writes what comes
of it, and gives the lock back. New tasks may come at any time, and the steps of the tasks may be mixed in any
way.

No update is lost: the store is what the updates that have been written make of the first one, one after the
other (`Updated.store_eq`), and each task that has written has written once (`Updated.perm`).
-/

set_option autoImplicit false

namespace Ferron.Lib.LockedUpdates

/-- Where a task is. -/
inductive Phase (ρ : Type) where
  | waiting
  | locked
  | hasRead (value : ρ)
  | hasWritten
  | unlocked

namespace Phase

variable {ρ : Type}

/-- The task has the lock. -/
def holds : Phase ρ → Bool
  | locked | hasRead _ | hasWritten => true
  | waiting | unlocked => false

/-- The task has written. -/
def wrote : Phase ρ → Bool
  | hasWritten | unlocked => true
  | waiting | locked | hasRead _ => false

end Phase

/-- The store, the tasks in the order in which they came, and those that have written, in the order in which
they did. -/
structure State (σ τ ρ : Type) where
  store : σ
  tasks : List (τ × Phase ρ)
  written : List τ

variable {σ τ ρ : Type}

/-- Before the first task. -/
def State.new (store : σ) : State σ τ ρ := ⟨store, [], []⟩

/-- The tasks that have written. -/
def wroteTasks (tasks : List (τ × Phase ρ)) : List τ :=
  (tasks.filter fun task => task.2.wrote).map Prod.fst

/-- The tasks that have the lock. -/
def holders (tasks : List (τ × Phase ρ)) : List (τ × Phase ρ) := tasks.filter fun task => task.2.holds

variable (read : σ → τ → ρ) (write : σ → τ → ρ → σ)

/-- What a task makes of a store when it is alone. -/
def update (store : σ) (task : τ) : σ := write store task (read store task)

/-- A task is put in a new phase. -/
def State.move (state : State σ τ ρ) (before after : List (τ × Phase ρ)) (task : τ) (phase : Phase ρ) :
    State σ τ ρ :=
  { state with tasks := before ++ (task, phase) :: after }

/-- A task comes. -/
def State.spawn (state : State σ τ ρ) (task : τ) : State σ τ ρ :=
  { state with tasks := state.tasks ++ [(task, .waiting)] }

/-- A step of a task. -/
inductive Step (state : State σ τ ρ) : State σ τ ρ → Prop
  | lock {before after : List (τ × Phase ρ)} {task : τ}
      (tasks : state.tasks = before ++ (task, .waiting) :: after) (free : holders state.tasks = []) :
      Step state (state.move before after task .locked)
  | read {before after : List (τ × Phase ρ)} {task : τ}
      (tasks : state.tasks = before ++ (task, .locked) :: after) :
      Step state (state.move before after task (.hasRead (read state.store task)))
  | write {before after : List (τ × Phase ρ)} {task : τ} {value : ρ}
      (tasks : state.tasks = before ++ (task, .hasRead value) :: after) :
      Step state { state.move before after task .hasWritten with
        store := write state.store task value
        written := state.written ++ [task] }
  | unlock {before after : List (τ × Phase ρ)} {task : τ}
      (tasks : state.tasks = before ++ (task, .hasWritten) :: after) :
      Step state (state.move before after task .unlocked)

/-- The store has the updates of the tasks that have written. -/
structure Updated (store : σ) (state : State σ τ ρ) : Prop where
  store_eq : state.store = state.written.foldl (update read write) store
  perm : state.written.Perm (wroteTasks state.tasks)
  /-- At most one task has the lock. -/
  one : (holders state.tasks).length ≤ 1
  /-- What a task has read is still there. -/
  fresh : ∀ task value, (task, Phase.hasRead value) ∈ state.tasks → value = read state.store task

section Tasks

variable (before after : List (τ × Phase ρ)) (task : τ) (phase : Phase ρ)

theorem wroteTasks_append_cons :
    wroteTasks (before ++ (task, phase) :: after) =
      wroteTasks before ++ (if phase.wrote then [task] else []) ++ wroteTasks after := by
  unfold wroteTasks
  rw [List.filter_append, List.filter_cons]
  split <;> simp

theorem holders_append_cons :
    holders (before ++ (task, phase) :: after) =
      holders before ++ (if phase.holds then [(task, phase)] else []) ++ holders after := by
  unfold holders
  rw [List.filter_append, List.filter_cons]
  split <;> simp

theorem mem_holders_of_hasRead {tasks : List (τ × Phase ρ)} {value : ρ}
    (h : (task, Phase.hasRead value) ∈ tasks) : (task, Phase.hasRead value) ∈ holders tasks :=
  List.mem_filter.2 ⟨h, rfl⟩

end Tasks

namespace Updated

variable {read write} {store : σ} {state after : State σ τ ρ}

theorem new : Updated read write store (State.new store : State σ τ ρ) :=
  ⟨rfl, .refl _, Nat.zero_le _, fun _ _ h => absurd h List.not_mem_nil⟩

/-- When a task has the lock, no other one has read anything. -/
theorem others (h : Updated read write store state) {before behind : List (τ × Phase ρ)} {task : τ}
    {phase : Phase ρ} (htasks : state.tasks = before ++ (task, phase) :: behind)
    (hholds : phase.holds = true) : holders before = [] ∧ holders behind = [] := by
  have hone := h.one
  rw [htasks, holders_append_cons, if_pos hholds] at hone
  simp only [List.length_append, List.length_singleton] at hone
  exact ⟨List.eq_nil_of_length_eq_zero (by omega), List.eq_nil_of_length_eq_zero (by omega)⟩

/-- A task that moves without writing keeps the updates. -/
theorem move (h : Updated read write store state) {before behind : List (τ × Phase ρ)} {task : τ}
    {phase next : Phase ρ} (htasks : state.tasks = before ++ (task, phase) :: behind)
    (hwrote : next.wrote = phase.wrote)
    (hholds : next.holds = true → phase.holds = true ∨ holders state.tasks = [])
    (hfresh : ∀ value, next = .hasRead value → value = read state.store task) :
    Updated read write store (state.move before behind task next) := by
  refine ⟨h.store_eq, ?_, ?_, ?_⟩
  · have hperm := h.perm
    rw [htasks, wroteTasks_append_cons] at hperm
    rw [State.move, wroteTasks_append_cons, hwrote]
    exact hperm
  · have hone := h.one
    rw [htasks, holders_append_cons] at hone hholds
    rw [State.move, holders_append_cons]
    cases hnext : next.holds with
    | false =>
        rw [if_neg Bool.false_ne_true]
        refine Nat.le_trans ?_ hone
        simp only [List.length_append, List.length_nil]
        omega
    | true =>
        rw [if_pos rfl]
        rcases hholds hnext with hphase | hfree
        · rw [if_pos hphase] at hone
          simpa using hone
        · obtain ⟨hbefore, hbehind⟩ := List.append_eq_nil_iff.1 hfree
          rw [(List.append_eq_nil_iff.1 hbefore).1, hbehind]
          exact Nat.le_refl 1
  · intro other value hmem
    rcases List.mem_append.1 hmem with hmem | hmem
    · exact h.fresh other value (htasks ▸ List.mem_append_left _ hmem)
    · rcases List.mem_cons.1 hmem with heq | hmem
      · rw [(Prod.mk.inj heq).1]
        exact hfresh value (Prod.mk.inj heq).2.symm
      · exact h.fresh other value (htasks ▸ List.mem_append_right _ (List.mem_cons_of_mem _ hmem))

/-- A write comes from what is in the store. -/
theorem writes (h : Updated read write store state) {before behind : List (τ × Phase ρ)} {task : τ} {value : ρ}
    (htasks : state.tasks = before ++ (task, .hasRead value) :: behind) :
    Updated read write store { state.move before behind task .hasWritten with
      store := write state.store task value
      written := state.written ++ [task] } := by
  obtain ⟨hbefore, hbehind⟩ := h.others htasks rfl
  refine ⟨?_, ?_, ?_, ?_⟩
  · have hvalue : value = read state.store task :=
      h.fresh task value (htasks ▸ List.mem_append_right _ List.mem_cons_self)
    rw [List.foldl_concat, ← h.store_eq, update, ← hvalue]
  · have hperm := h.perm
    rw [htasks, wroteTasks_append_cons] at hperm
    rw [State.move, wroteTasks_append_cons]
    simp only [Phase.wrote, Bool.false_eq_true, if_false, if_true, List.append_nil] at hperm ⊢
    refine (hperm.append_right [task]).trans ?_
    rw [List.append_assoc, List.append_assoc]
    exact List.perm_append_comm.append_left _
  · rw [State.move, holders_append_cons, hbefore, hbehind]
    exact Nat.le_refl 1
  · -- no other task has read anything
    have hnone : ∀ {tasks : List (τ × Phase ρ)} {other : τ} {found : ρ}, holders tasks = [] →
        (other, Phase.hasRead found) ∉ tasks := by
      intro tasks other found hnil hmem
      have hholder := mem_holders_of_hasRead other hmem
      rw [hnil] at hholder
      exact absurd hholder List.not_mem_nil
    intro other found hmem
    rcases List.mem_append.1 hmem with hmem | hmem
    · exact absurd hmem (hnone hbefore)
    · rcases List.mem_cons.1 hmem with heq | hmem
      · cases heq
      · exact absurd hmem (hnone hbehind)

/-- A new task changes nothing. -/
theorem spawn (h : Updated read write store state) (task : τ) :
    Updated read write store (state.spawn task) := by
  refine ⟨h.store_eq, ?_, ?_, ?_⟩
  · have hperm : wroteTasks (state.tasks ++ [(task, .waiting)]) = wroteTasks state.tasks := by
      rw [wroteTasks_append_cons]
      simp [Phase.wrote, wroteTasks]
    rw [State.spawn, hperm]
    exact h.perm
  · have hholders : holders (state.tasks ++ [(task, .waiting)]) = holders state.tasks := by
      rw [holders_append_cons]
      simp [Phase.holds, holders]
    rw [State.spawn, hholders]
    exact h.one
  · intro other value hmem
    rcases List.mem_append.1 hmem with hmem | hmem
    · exact h.fresh other value hmem
    · cases List.mem_singleton.1 hmem

/-- What a step of a task keeps. -/
theorem step (h : Updated read write store state) (hstep : Step read write state after) :
    Updated read write store after := by
  cases hstep with
  | lock tasks free => exact h.move tasks rfl (fun _ => .inr free) fun _ heq => by cases heq
  | read tasks =>
      refine h.move tasks rfl (fun _ => .inl rfl) fun value heq => ?_
      cases heq
      rfl
  | write tasks => exact h.writes tasks
  | unlock tasks => exact h.move tasks rfl (fun hholds => by cases hholds) fun _ heq => by cases heq

end Updated

section Steps

variable {read write} {state after : State σ τ ρ}

/-- The tasks stay the same. -/
theorem Step.tasks_eq (h : Step read write state after) :
    after.tasks.map Prod.fst = state.tasks.map Prod.fst := by
  cases h with
  | lock tasks free => simp [State.move, tasks]
  | read tasks => simp [State.move, tasks]
  | write tasks => simp [State.move, tasks]
  | unlock tasks => simp [State.move, tasks]

end Steps

end Ferron.Lib.LockedUpdates
