import Mathlib.Data.List.Count
import Mathlib.Data.List.Basic

/-!
# A limit on failed attempts

Attempts run for a while before they fail, and a failed attempt is counted some time later. The count
lives for a window after it was last raised, and an attempt starts only when the count and the attempts
that are under way leave room for it.

A `Ledger` is what there is to know about the attempts at a time. `Sound` is kept by everything that
happens to it, and it bounds the failures in every window.
-/

set_option autoImplicit false

namespace Ferron.Lib.AttemptLimit

/-- The number of times from one on. -/
def since (times : List Nat) (first : Nat) : Nat := times.countP fun time => first ≤ time

/-- The number of times in a window. -/
def within (times : List Nat) (first last : Nat) : Nat :=
  times.countP fun time => first ≤ time ∧ time < last

/-- The count, the attempts that are running, the attempts that have ended and are not counted yet, and
the times of the failures and of the counts so far. -/
structure Ledger where
  now : Nat
  count : Nat
  running : Nat
  ended : Nat
  failures : List Nat
  counts : List Nat

/-- The invariant of the attempts. -/
structure Sound (limit window : Nat) (ledger : Ledger) : Prop where
  bounded : ledger.count + ledger.running + ledger.ended ≤ limit
  past : ∀ time ∈ ledger.failures, time ≤ ledger.now
  /-- What was counted within the last window is in the count. -/
  counted : ∀ first, ledger.now < first + window → since ledger.counts first ≤ ledger.count
  /-- What has failed was counted, or has ended and is going to be. -/
  pending : ∀ first, ledger.now < first + window →
    since ledger.failures first ≤ since ledger.counts first + ledger.ended
  within_le : ∀ first, within ledger.failures first (first + window) ≤ limit

theorem since_append (times : List Nat) (time first : Nat) :
    since (times ++ [time]) first = since times first + if first ≤ time then 1 else 0 := by
  rw [since, List.countP_append, List.countP_singleton]
  simp [since]

theorem within_append (times : List Nat) (time first last : Nat) :
    within (times ++ [time]) first last =
      within times first last + if first ≤ time ∧ time < last then 1 else 0 := by
  rw [within, List.countP_append, List.countP_singleton]
  simp [within]

theorem within_le_since (times : List Nat) (first last : Nat) :
    within times first last ≤ since times first := by
  apply List.countP_mono_left
  intro time _ h
  simp only [decide_eq_true_eq] at h ⊢
  exact h.1

/-- Nothing has happened yet. -/
theorem since_eq_zero {times : List Nat} {first now : Nat} (hpast : ∀ time ∈ times, time ≤ now)
    (hfirst : now < first) : since times first = 0 := by
  rw [since, List.countP_eq_zero]
  intro time htime
  have := hpast time htime
  simp only [decide_eq_true_eq]
  omega

namespace Sound

variable {limit window : Nat} {ledger : Ledger}

/-- Without attempts there is nothing to bound. -/
theorem start (now : Nat) : Sound limit window ⟨now, 0, 0, 0, [], []⟩ where
  bounded := Nat.zero_le _
  past := by simp
  counted first _ := Nat.le_refl 0
  pending first _ := Nat.le_refl 0
  within_le first := Nat.zero_le _

/-- Time passes. The count stays, or it is lost after all that it counts is older than a window. -/
theorem wait (h : Sound limit window ledger) (time : Nat) {count : Nat}
    (hcount : count = ledger.count ∨
      (count = 0 ∧ ∀ counted ∈ ledger.counts, counted + window ≤ ledger.now + time)) :
    Sound limit window { ledger with now := ledger.now + time, count := count } where
  bounded := by
    have := h.bounded
    dsimp only
    rcases hcount with rfl | ⟨rfl, -⟩ <;> omega
  past counted hcounted := by
    have := h.past counted hcounted
    dsimp only
    omega
  counted first hfirst := by
    dsimp only at hfirst ⊢
    rcases hcount with rfl | ⟨rfl, hold⟩
    · exact h.counted first (by omega)
    · rw [since, Nat.le_zero, List.countP_eq_zero]
      intro counted hcounted
      have := hold counted hcounted
      simp only [decide_eq_true_eq]
      omega
  pending first hfirst := by
    dsimp only at hfirst ⊢
    exact h.pending first (by omega)
  within_le := h.within_le

/-- An attempt starts where there is room for it. -/
theorem attempt (h : Sound limit window ledger)
    (hroom : ledger.count + ledger.running + ledger.ended < limit) :
    Sound limit window { ledger with running := ledger.running + 1 } where
  bounded := by
    dsimp only
    omega
  past := h.past
  counted := h.counted
  pending := h.pending
  within_le := h.within_le

/-- A running attempt is over and is not going to be counted. -/
theorem succeed (h : Sound limit window ledger) {running : Nat} (hrunning : running ≤ ledger.running) :
    Sound limit window { ledger with running := running } where
  bounded := by
    have := h.bounded
    dsimp only
    omega
  past := h.past
  counted := h.counted
  pending := h.pending
  within_le := h.within_le

/-- A running attempt ends without a failure, and is going to be counted. -/
theorem giveUp (h : Sound limit window ledger) {running : Nat}
    (hrunning : ledger.running = running + 1) :
    Sound limit window { ledger with running := running, ended := ledger.ended + 1 } where
  bounded := by
    have := h.bounded
    dsimp only
    omega
  past := h.past
  counted := h.counted
  pending first hfirst := Nat.le_succ_of_le (h.pending first hfirst)
  within_le := h.within_le

/-- A running attempt fails. -/
theorem fail (h : Sound limit window ledger) {running : Nat}
    (hrunning : ledger.running = running + 1) :
    Sound limit window { ledger with
      running := running
      ended := ledger.ended + 1
      failures := ledger.failures ++ [ledger.now] } where
  bounded := by
    have := h.bounded
    dsimp only
    omega
  past time htime := by
    rcases List.mem_append.1 htime with hold | hnew
    · exact h.past time hold
    · exact Nat.le_of_eq (List.mem_singleton.1 hnew)
  counted := h.counted
  pending first hfirst := by
    have hpending := h.pending first hfirst
    dsimp only
    rw [since_append]
    split <;> omega
  within_le first := by
    rw [within_append]
    split
    · -- the failures of this window are in the count, or have ended and are going to be
      rename_i hnow
      have hcounted := h.counted first hnow.2
      have hpending := h.pending first hnow.2
      have hsince := within_le_since ledger.failures first (first + window)
      have hbounded := h.bounded
      omega
    · exact h.within_le first

/-- An attempt that has ended is counted. -/
theorem count (h : Sound limit window ledger) {ended : Nat} (hended : ledger.ended = ended + 1) :
    Sound limit window { ledger with
      count := ledger.count + 1
      ended := ended
      counts := ledger.counts ++ [ledger.now] } where
  bounded := by
    have := h.bounded
    dsimp only
    omega
  past := h.past
  counted first hfirst := by
    have hcounted := h.counted first hfirst
    dsimp only
    rw [since_append]
    split <;> omega
  pending first hfirst := by
    have hpending := h.pending first hfirst
    dsimp only
    rw [since_append]
    by_cases hnow : first ≤ ledger.now
    · rw [if_pos hnow]
      omega
    · rw [since_eq_zero h.past (Nat.not_le.1 hnow)]
      exact Nat.zero_le _
  within_le := h.within_le

end Sound

end Ferron.Lib.AttemptLimit
