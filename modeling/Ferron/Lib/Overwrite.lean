import Mathlib.Data.List.Basic
import Mathlib.Tactic

/-!
# Writing over a file

A write at the start of a file that is not truncated leaves what is behind it. After several writes
the file is as long as the longest of them, so it holds the last value alone exactly when none of the
values before was longer (`content_concat_eq_iff`).
-/

set_option autoImplicit false

namespace Ferron.Lib.Overwrite

variable {α : Type}

/-- What a file holds after a value is written at its start. -/
def overwrite (value old : List α) : List α := value ++ old.drop value.length

theorem length_overwrite (value old : List α) :
    (overwrite value old).length = max value.length old.length := by
  rw [overwrite, List.length_append, List.length_drop]
  omega

theorem overwrite_eq_self_iff {value old : List α} :
    overwrite value old = value ↔ old.length ≤ value.length := by
  constructor
  · intro h
    have hlength := length_overwrite value old
    rw [h] at hlength
    omega
  · intro h
    rw [overwrite, List.drop_eq_nil_of_le h, List.append_nil]

/-- What a file holds after the values are written one after the other. Before the first write there
is no file. -/
def content (values : List (List α)) : Option (List α) :=
  values.foldl (fun old value => some (overwrite value (old.getD []))) none

@[simp] theorem content_nil : content ([] : List (List α)) = none := rfl

@[simp] theorem content_concat (values : List (List α)) (value : List α) :
    content (values ++ [value]) = some (overwrite value ((content values).getD [])) := by
  rw [content, List.foldl_append]
  rfl

/-- The file is as long as the longest value. -/
theorem length_content_le_iff (values : List (List α)) (n : Nat) :
    ((content values).getD []).length ≤ n ↔ ∀ value ∈ values, value.length ≤ n := by
  induction values using List.reverseRecOn with
  | nil => exact iff_of_true (Nat.zero_le n) fun _ h => absurd h List.not_mem_nil
  | append_singleton values value ih =>
      rw [content_concat, Option.getD_some, length_overwrite, max_le_iff, ih, List.forall_mem_append,
        List.forall_mem_singleton, and_comm]

theorem content_concat_eq_iff (values : List (List α)) (value : List α) :
    content (values ++ [value]) = some value ↔ ∀ earlier ∈ values, earlier.length ≤ value.length := by
  rw [content_concat, Option.some_inj, overwrite_eq_self_iff, length_content_le_iff]

/-- None of the values before the last one is longer. -/
def NoneLonger (values : List (List α)) : Prop :=
  ∀ last ∈ values.getLast?, ∀ value ∈ values, value.length ≤ last.length

theorem content_eq_getLast?_iff (values : List (List α)) :
    content values = values.getLast? ↔ NoneLonger values := by
  rcases List.eq_nil_or_concat' values with rfl | ⟨earlier, last, rfl⟩
  · exact iff_of_true rfl fun _ h => nomatch h
  · rw [List.getLast?_concat, content_concat_eq_iff, NoneLonger, List.getLast?_concat]
    constructor
    · intro h value hvalue other hother
      rw [← Option.some.inj hvalue]
      rcases List.mem_append.1 hother with hother | hother
      · exact h other hother
      · rw [List.mem_singleton.1 hother]
    · exact fun h value hvalue => h last rfl value (List.mem_append_left _ hvalue)

end Ferron.Lib.Overwrite
