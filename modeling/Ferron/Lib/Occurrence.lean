import Mathlib.Data.List.Basic
import Mathlib.Data.List.Infix
import Mathlib.Tactic

/-!
# Leftmost occurrences and replacement

Search for a pattern in a list and replacement of its leftmost non-overlapping occurrences, over an
arbitrary alphabet. `firstOccurrence_eq_some_iff` characterizes the search by the absence of earlier
occurrences. `replaceAll` and `replaceFirst` are related to the search by `replaceAll_of_some`,
`replaceAll_of_none` and their `replaceFirst` counterparts; `replaceAll_append_of_noOccurrence` is
the rule for processing a list piece by piece: a prefix in which no occurrence starts is copied.
-/

set_option autoImplicit false

namespace Ferron.Lib.Occurrence

universe u

variable {α : Type u} [DecidableEq α]

/-- The position of the leftmost occurrence of `pat` in a list. -/
def firstOccurrence (pat : List α) : List α → Option Nat
  | [] => if pat = [] then some 0 else none
  | c :: cs => if pat <+: c :: cs then some 0 else (firstOccurrence pat cs).map (· + 1)

/-- Whether `pat` occurs in a list. -/
def contains (pat s : List α) : Bool := (firstOccurrence pat s).isSome

/-- Replacement of the leftmost non-overlapping occurrences. The counter is the number of cells
still covered by the occurrence replaced last. -/
def replaceFrom (pat rep : List α) : Nat → List α → List α
  | _, [] => []
  | skip + 1, _ :: cs => replaceFrom pat rep skip cs
  | 0, c :: cs =>
      if pat <+: c :: cs then rep ++ replaceFrom pat rep (pat.length - 1) cs
      else c :: replaceFrom pat rep 0 cs

/-- Replacement of all leftmost non-overlapping occurrences. -/
def replaceAll (pat rep s : List α) : List α := replaceFrom pat rep 0 s

/-- Replacement of the leftmost occurrence. -/
def replaceFirst (pat rep s : List α) : List α :=
  match firstOccurrence pat s with
  | some i => s.take i ++ rep ++ s.drop (i + pat.length)
  | none => s

/-- No occurrence of `pat` starts in the first `n` cells of `s`. -/
def NoOccurrence (pat s : List α) (n : Nat) : Prop := ∀ j < n, ¬ pat <+: s.drop j

/-! ## The search -/

theorem firstOccurrence_eq_some_iff (pat : List α) : ∀ (s : List α) (i : Nat),
    firstOccurrence pat s = some i ↔ pat <+: s.drop i ∧ i ≤ s.length ∧ NoOccurrence pat s i
  | [], i => by
      by_cases hp : pat = []
      · subst hp
        simp only [firstOccurrence, if_true, Option.some.injEq, List.nil_prefix, true_and,
          List.length_nil, Nat.le_zero]
        constructor
        · rintro rfl
          exact ⟨rfl, fun j hj => absurd hj (Nat.not_lt_zero j)⟩
        · rintro ⟨rfl, -⟩
          rfl
      · simp [firstOccurrence, hp]
  | c :: cs, i => by
      unfold firstOccurrence
      by_cases hp : pat <+: c :: cs
      · rw [if_pos hp]
        constructor
        · rintro ⟨⟩
          exact ⟨hp, Nat.zero_le _, fun j hj => absurd hj (Nat.not_lt_zero j)⟩
        · rintro ⟨-, -, hno⟩
          cases i with
          | zero => rfl
          | succ i => exact absurd hp (hno 0 (Nat.succ_pos i))
      · rw [if_neg hp, Option.map_eq_some_iff]
        constructor
        · rintro ⟨k, hk, rfl⟩
          obtain ⟨hpre, hle, hno⟩ := (firstOccurrence_eq_some_iff pat cs k).1 hk
          refine ⟨hpre, Nat.succ_le_succ hle, fun j hj => ?_⟩
          cases j with
          | zero => exact hp
          | succ j => exact hno j (Nat.lt_of_succ_lt_succ hj)
        · rintro ⟨hpre, hle, hno⟩
          cases i with
          | zero => exact absurd hpre hp
          | succ i =>
              refine ⟨i, (firstOccurrence_eq_some_iff pat cs i).2 ⟨hpre, ?_, ?_⟩, rfl⟩
              · exact Nat.le_of_succ_le_succ hle
              · exact fun j hj => hno (j + 1) (Nat.succ_lt_succ hj)

theorem firstOccurrence_eq_none_iff (pat : List α) : ∀ s : List α,
    firstOccurrence pat s = none ↔ NoOccurrence pat s (s.length + 1)
  | [] => by
      by_cases hp : pat = []
      · subst hp
        simp only [firstOccurrence, if_true, reduceCtorEq, false_iff]
        exact fun h => h 0 (Nat.succ_pos 0) (List.nil_prefix)
      · simp only [firstOccurrence, if_neg hp, true_iff]
        intro j _ hpre
        exact hp (List.prefix_nil.1 (by simpa using hpre))
  | c :: cs => by
      unfold firstOccurrence
      by_cases hp : pat <+: c :: cs
      · rw [if_pos hp]
        simp only [reduceCtorEq, false_iff]
        exact fun h => h 0 (Nat.succ_pos _) hp
      · rw [if_neg hp, Option.map_eq_none_iff, firstOccurrence_eq_none_iff pat cs]
        constructor
        · intro h j hj
          cases j with
          | zero => exact hp
          | succ j => exact h j (by simpa using hj)
        · exact fun h j hj => h (j + 1) (by simpa using hj)

/-- An occurrence lies inside the list it is found in. -/
theorem firstOccurrence_add_length_le {pat s : List α} {i : Nat}
    (h : firstOccurrence pat s = some i) : i + pat.length ≤ s.length := by
  obtain ⟨hpre, hle, -⟩ := (firstOccurrence_eq_some_iff pat s i).1 h
  have hlen := hpre.length_le
  rw [List.length_drop] at hlen
  omega

theorem contains_iff_infix (pat s : List α) : contains pat s = true ↔ pat <:+: s := by
  unfold contains
  constructor
  · intro h
    obtain ⟨i, hi⟩ := Option.isSome_iff_exists.1 h
    obtain ⟨hpre, -, -⟩ := (firstOccurrence_eq_some_iff pat s i).1 hi
    exact hpre.isInfix.trans (List.drop_suffix i s).isInfix
  · rintro ⟨pre, post, rfl⟩
    by_contra hnone
    rw [Option.not_isSome_iff_eq_none, firstOccurrence_eq_none_iff] at hnone
    refine hnone pre.length ?_ ?_
    · simp only [List.length_append]
      omega
    · rw [List.append_assoc, List.drop_left]
      exact List.prefix_append pat post

/-- The leftmost occurrence stays leftmost when the list grows at its end. -/
theorem firstOccurrence_append {pat s : List α} {i : Nat} (h : firstOccurrence pat s = some i)
    (t : List α) : firstOccurrence pat (s ++ t) = some i := by
  obtain ⟨hpre, hle, hno⟩ := (firstOccurrence_eq_some_iff pat s i).1 h
  refine (firstOccurrence_eq_some_iff pat (s ++ t) i).2 ⟨?_, ?_, fun j hj hp => hno j hj ?_⟩
  · rw [List.drop_append_of_le_length hle]
    exact hpre.trans (List.prefix_append _ t)
  · rw [List.length_append]
    omega
  · have hjs : j ≤ s.length := by omega
    have hlen := firstOccurrence_add_length_le h
    rw [List.drop_append_of_le_length hjs] at hp
    refine List.prefix_of_prefix_length_le hp (List.prefix_append _ t) ?_
    rw [List.length_drop]
    omega

/-! ## Replacement -/

theorem replaceFrom_eq_drop (pat rep : List α) : ∀ (skip : Nat) (s : List α),
    replaceFrom pat rep skip s = replaceAll pat rep (s.drop skip)
  | 0, _ => rfl
  | _ + 1, [] => rfl
  | skip + 1, _ :: cs => replaceFrom_eq_drop pat rep skip cs

/-- A cell at which no occurrence starts is copied. -/
theorem replaceAll_cons_of_not_prefix {pat : List α} (rep : List α) {c : α} {cs : List α}
    (h : ¬ pat <+: c :: cs) : replaceAll pat rep (c :: cs) = c :: replaceAll pat rep cs := by
  simp [replaceAll, replaceFrom, h]

/-- An occurrence at the start is replaced and replacement goes on after it. -/
theorem replaceAll_of_prefix {pat : List α} (rep : List α) (hpat : pat ≠ []) {s : List α}
    (h : pat <+: s) : replaceAll pat rep s = rep ++ replaceAll pat rep (s.drop pat.length) := by
  cases s with
  | nil => exact absurd (List.prefix_nil.1 h) hpat
  | cons c cs =>
      have hlen : pat.length - 1 + 1 = pat.length :=
        Nat.succ_pred_eq_of_pos (List.length_pos_of_ne_nil hpat)
      have hdrop : (c :: cs).drop pat.length = cs.drop (pat.length - 1) := by
        rw [← hlen, List.drop_succ_cons]
        rfl
      rw [hdrop, ← replaceFrom_eq_drop]
      simp [replaceAll, replaceFrom, h]

/-- A prefix in which no occurrence starts is copied. -/
theorem replaceAll_append_of_noOccurrence (pat rep : List α) : ∀ s t : List α,
    NoOccurrence pat (s ++ t) s.length → replaceAll pat rep (s ++ t) = s ++ replaceAll pat rep t
  | [], _, _ => rfl
  | c :: cs, t, h => by
      have hhead : ¬ pat <+: c :: (cs ++ t) := h 0 (Nat.succ_pos _)
      have htail : NoOccurrence pat (cs ++ t) cs.length :=
        fun j hj => h (j + 1) (Nat.succ_lt_succ hj)
      rw [List.cons_append, replaceAll_cons_of_not_prefix rep hhead,
        replaceAll_append_of_noOccurrence pat rep cs t htail, List.cons_append]

theorem replaceAll_of_none {pat s : List α} (rep : List α) (h : firstOccurrence pat s = none) :
    replaceAll pat rep s = s := by
  have hno := (firstOccurrence_eq_none_iff pat s).1 h
  have key := replaceAll_append_of_noOccurrence pat rep s []
    (by rw [List.append_nil]; exact fun j hj => hno j (by omega))
  simpa [replaceAll, replaceFrom] using key

theorem replaceAll_of_some {pat s : List α} (rep : List α) (hpat : pat ≠ []) {i : Nat}
    (h : firstOccurrence pat s = some i) :
    replaceAll pat rep s = s.take i ++ rep ++ replaceAll pat rep (s.drop (i + pat.length)) := by
  obtain ⟨hpre, hle, hno⟩ := (firstOccurrence_eq_some_iff pat s i).1 h
  have hcopy := replaceAll_append_of_noOccurrence pat rep (s.take i) (s.drop i)
    (by
      rw [List.take_append_drop, List.length_take, Nat.min_eq_left hle]
      exact hno)
  rw [List.take_append_drop] at hcopy
  rw [hcopy, replaceAll_of_prefix rep hpat hpre, List.drop_drop, List.append_assoc]

theorem replaceFirst_of_some {pat s : List α} (rep : List α) {i : Nat}
    (h : firstOccurrence pat s = some i) :
    replaceFirst pat rep s = s.take i ++ rep ++ s.drop (i + pat.length) := by
  simp only [replaceFirst, h]

theorem replaceFirst_of_none {pat s : List α} (rep : List α) (h : firstOccurrence pat s = none) :
    replaceFirst pat rep s = s := by
  simp only [replaceFirst, h]

/-- Where no occurrence starts, the search moves on to the rest. -/
theorem firstOccurrence_append_of_noOccurrence (pat : List α) : ∀ s t : List α,
    NoOccurrence pat (s ++ t) s.length →
      firstOccurrence pat (s ++ t) = (firstOccurrence pat t).map (· + s.length)
  | [], t, _ => by simp
  | c :: cs, t, h => by
      have hhead : ¬ pat <+: c :: (cs ++ t) := h 0 (Nat.succ_pos _)
      have htail : NoOccurrence pat (cs ++ t) cs.length :=
        fun j hj => h (j + 1) (Nat.succ_lt_succ hj)
      rw [List.cons_append, firstOccurrence, if_neg hhead,
        firstOccurrence_append_of_noOccurrence pat cs t htail, Option.map_map]
      congr 1

/-- A list without an occurrence keeps its first `length - pat.length` cells free of occurrences
when it grows at its end. -/
theorem noOccurrence_append_of_none {pat s : List α} (h : firstOccurrence pat s = none)
    (t : List α) : NoOccurrence pat (s ++ t) (s.length + 1 - pat.length) := by
  intro j hj hp
  have hno := (firstOccurrence_eq_none_iff pat s).1 h
  have hjs : j ≤ s.length := by omega
  rw [List.drop_append_of_le_length hjs] at hp
  refine hno j (by omega) (List.prefix_of_prefix_length_le hp (List.prefix_append _ t) ?_)
  rw [List.length_drop]
  omega

end Ferron.Lib.Occurrence
