import Mathlib.Data.List.Basic
import Mathlib.Data.List.DropRight
import Mathlib.Tactic

/-!
# Resolving steps up

A list of segments is resolved with a stack: a name is pushed, a step up pops. A name is taken away
by a step up behind it as an opening bracket is matched by a closing one, so what is left can be told
from the segments behind a name alone (`foldl_step`).

The second part splits lists at separators.
-/

set_option autoImplicit false

namespace Ferron.Lib.DotSegments

variable {α β : Type}

/-- A segment: a name, or the step up. -/
inductive Segment (α : Type) where
  | name (a : α)
  | up
  deriving DecidableEq

/-- Resolves a segment with the names before it. -/
def step (stack : List α) : Segment α → List α
  | .name a => stack ++ [a]
  | .up => stack.dropLast

/-- The number of steps up that find no name before them in the list. -/
def unmatchedUps : List (Segment α) → Nat
  | [] => 0
  | .name _ :: segments => unmatchedUps segments - 1
  | .up :: segments => unmatchedUps segments + 1

/-- The names that no step up behind them takes away. -/
def survivors : List (Segment α) → List α
  | [] => []
  | .name a :: segments =>
      if unmatchedUps segments = 0 then a :: survivors segments else survivors segments
  | .up :: segments => survivors segments

/-- Resolving takes the names of the unmatched steps up off the stack and leaves the survivors. -/
theorem foldl_step (segments : List (Segment α)) (stack : List α) :
    segments.foldl step stack = stack.rdrop (unmatchedUps segments) ++ survivors segments := by
  induction segments generalizing stack with
  | nil => simp [unmatchedUps, survivors]
  | cons segment segments ih =>
      rw [List.foldl_cons, ih]
      cases segment with
      | up =>
          have hdrop : stack.dropLast.rdrop (unmatchedUps segments) =
              stack.rdrop (unmatchedUps segments + 1) := by
            rw [List.rdrop, List.rdrop, List.length_dropLast, List.dropLast_eq_take,
              List.take_take]
            congr 1
            omega
          rw [step, hdrop, unmatchedUps, survivors]
      | name a =>
          rw [step, unmatchedUps, survivors]
          by_cases h : unmatchedUps segments = 0
          · simp [h]
          · obtain ⟨n, hn⟩ := Nat.exists_eq_succ_of_ne_zero h
            rw [if_neg h, hn, Nat.succ_eq_add_one, List.rdrop_concat_succ, Nat.add_sub_cancel]

/-- A survivor is one of the names. -/
theorem mem_of_mem_survivors {a : α} {segments : List (Segment α)} (h : a ∈ survivors segments) :
    Segment.name a ∈ segments := by
  induction segments with
  | nil => exact absurd h List.not_mem_nil
  | cons segment segments ih =>
      cases segment with
      | up => exact List.mem_cons_of_mem _ (ih h)
      | name b =>
          rw [survivors] at h
          split at h
          · rcases List.mem_cons.1 h with rfl | hrest
            · exact List.mem_cons_self
            · exact List.mem_cons_of_mem _ (ih hrest)
          · exact List.mem_cons_of_mem _ (ih h)

/-! ## Splitting at separators -/

/-- A list is split where its image is. -/
theorem splitOnP_map (f : α → β) (p : β → Bool) (l : List α) :
    (l.map f).splitOnP p = (l.splitOnP fun a => p (f a)).map (List.map f) := by
  induction l with
  | nil => rfl
  | cons a l ih =>
      rw [List.map_cons, List.splitOnP_cons_eq_if_modifyHead,
        List.splitOnP_cons_eq_if_modifyHead, ih]
      split
      · rfl
      · cases l.splitOnP fun a => p (f a) <;> rfl

/-- Only the elements of the list matter. -/
theorem splitOnP_congr {p q : α → Bool} {l : List α} (h : ∀ a ∈ l, p a = q a) :
    l.splitOnP p = l.splitOnP q := by
  induction l with
  | nil => rfl
  | cons a l ih =>
      rw [List.splitOnP_cons_eq_if_modifyHead, List.splitOnP_cons_eq_if_modifyHead,
        h a List.mem_cons_self, ih fun b hb => h b (List.mem_cons_of_mem _ hb)]

/-- Elements that are no separators come before the first part. -/
theorem splitOnP_append {p : α → Bool} {front : List α} (hfront : ∀ a ∈ front, p a = false)
    (rest : List α) : (front ++ rest).splitOnP p = (rest.splitOnP p).modifyHead (front ++ ·) := by
  induction front with
  | nil =>
      rw [List.nil_append]
      cases rest.splitOnP p <;> rfl
  | cons a front ih =>
      rw [List.cons_append, List.splitOnP_cons_eq_if_modifyHead, hfront a List.mem_cons_self,
        ih fun b hb => hfront b (List.mem_cons_of_mem _ hb)]
      cases rest.splitOnP p <;> rfl

/-- A list is split where its elements are spelled out, when only the separators are spelled with a
separator. -/
theorem splitOnP_flatMap (f : α → List β) (p : β → Bool) (q : α → Bool) (l : List α)
    (hsep : ∀ a ∈ l, q a = true → ∃ b, f a = [b] ∧ p b = true)
    (hrest : ∀ a ∈ l, q a = false → ∀ b ∈ f a, p b = false) :
    (l.flatMap f).splitOnP p = (l.splitOnP q).map (List.flatMap f) := by
  induction l with
  | nil => rfl
  | cons a l ih =>
      have ih := ih (fun b hb => hsep b (List.mem_cons_of_mem _ hb))
        (fun b hb => hrest b (List.mem_cons_of_mem _ hb))
      rw [List.flatMap_cons, List.splitOnP_cons_eq_if_modifyHead]
      cases hq : q a with
      | true =>
          obtain ⟨b, hb, hp⟩ := hsep a List.mem_cons_self hq
          rw [hb, List.singleton_append, List.splitOnP_cons_eq_if_modifyHead, if_pos hp, if_pos rfl,
            ih]
          rfl
      | false =>
          rw [splitOnP_append (hrest a List.mem_cons_self hq), ih, if_neg Bool.false_ne_true]
          cases l.splitOnP q <;> rfl

/-- Parts without a separator that are joined by one are split again. -/
theorem splitOnP_joined {p : α → Bool} {sep : α} (hsep : p sep = true) {part : List α}
    {parts : List (List α)} (hparts : ∀ q ∈ part :: parts, ∀ a ∈ q, p a = false) :
    (part ++ parts.flatMap (sep :: ·)).splitOnP p = part :: parts := by
  induction parts generalizing part with
  | nil =>
      rw [List.flatMap_nil, List.append_nil]
      exact List.splitOnP_eq_singleton (hparts part List.mem_cons_self)
  | cons next parts ih =>
      rw [List.flatMap_cons, List.cons_append,
        List.splitOnP_append_cons_of_forall_mem (hparts part List.mem_cons_self) sep hsep,
        ih fun q hq => hparts q (List.mem_cons_of_mem _ hq)]

/-- The parts of a list have its elements that are no separators. -/
theorem of_mem_splitOnP {p : α → Bool} {l part : List α} (hpart : part ∈ l.splitOnP p)
    {a : α} (ha : a ∈ part) : p a = false ∧ a ∈ l := by
  induction l generalizing part with
  | nil =>
      rw [List.splitOnP_nil, List.mem_singleton] at hpart
      rw [hpart] at ha
      exact absurd ha List.not_mem_nil
  | cons b l ih =>
      have hrest : ∀ {part}, part ∈ l.splitOnP p → a ∈ part → p a = false ∧ a ∈ b :: l :=
        fun hpart ha => (ih hpart ha).imp_right (List.mem_cons_of_mem _)
      rw [List.splitOnP_cons_eq_if_modifyHead] at hpart
      cases hb : p b with
      | true =>
          rw [if_pos hb] at hpart
          rcases List.mem_cons.1 hpart with rfl | hpart
          · exact absurd ha List.not_mem_nil
          · exact hrest hpart ha
      | false =>
          rw [hb, if_neg Bool.false_ne_true] at hpart
          obtain ⟨first, parts, hparts⟩ := List.exists_cons_of_ne_nil (List.splitOnP_ne_nil p l)
          rw [hparts, List.modifyHead_cons] at hpart
          rcases List.mem_cons.1 hpart with rfl | hpart
          · rcases List.mem_cons.1 ha with rfl | ha
            · exact ⟨hb, List.mem_cons_self⟩
            · exact hrest (hparts ▸ List.mem_cons_self) ha
          · exact hrest (hparts ▸ List.mem_cons_of_mem _ hpart) ha

theorem not_sep_of_mem_splitOnP {p : α → Bool} {l part : List α} (hpart : part ∈ l.splitOnP p)
    {a : α} (ha : a ∈ part) : p a = false := (of_mem_splitOnP hpart ha).1

theorem mem_of_mem_splitOnP {p : α → Bool} {l part : List α} (hpart : part ∈ l.splitOnP p)
    {a : α} (ha : a ∈ part) : a ∈ l := (of_mem_splitOnP hpart ha).2

end Ferron.Lib.DotSegments
