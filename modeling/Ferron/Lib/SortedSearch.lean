import Mathlib.Data.List.Sort
import Mathlib.Tactic

/-!
# The first match in a sorted collection

A collection takes in elements one after the other, an element only when it has none with the same key
yet, and may be put in another order each time. What it holds are the elements that came first with
their keys (`mem_foldl_iff`). A search through a sorted list stops at an element that is related to
every other match (`rel_of_find?`).
-/

set_option autoImplicit false

namespace Ferron.Lib.SortedSearch

variable {α κ : Type} [DecidableEq κ] (key : α → κ)

/-- A list with a new element, unless there is one with its key. -/
def insertNew (l : List α) (a : α) : List α :=
  if l.any fun b => key b = key a then l else l ++ [a]

theorem mem_insertNew {l : List α} {a b : α} :
    b ∈ insertNew key l a ↔ b ∈ l ∨ b = a ∧ ∀ c ∈ l, key c ≠ key a := by
  rw [insertNew]
  split
  · rename_i hany
    obtain ⟨c, hc, hkey⟩ := List.any_eq_true.1 hany
    constructor
    · exact Or.inl
    · rintro (hb | ⟨-, hnone⟩)
      · exact hb
      · exact absurd (of_decide_eq_true hkey) (hnone c hc)
  · rename_i hany
    have hnone : ∀ c ∈ l, key c ≠ key a := fun c hc hkey =>
      hany (List.any_eq_true.2 ⟨c, hc, decide_eq_true hkey⟩)
    rw [List.mem_append, List.mem_singleton]
    exact or_congr_right (and_iff_left hnone).symm

variable {key} {step : List α → α → List α}

/-- A collection holds the elements that came first with their keys. -/
theorem mem_foldl_iff (hstep : ∀ l a, (step l a).Perm (insertNew key l a)) (as : List α) (b : α) :
    b ∈ as.foldl step [] ↔ as.find? (fun c => key c = key b) = some b := by
  induction as using List.reverseRecOn generalizing b with
  | nil => exact iff_of_false List.not_mem_nil (Option.some_ne_none b).symm
  | append_singleton as a ih =>
      have hnone : (∀ c ∈ as.foldl step [], key c ≠ key a) ↔
          as.find? (fun c => key c = key a) = none := by
        constructor
        · intro h
          cases hfind : as.find? fun c => key c = key a with
          | none => rfl
          | some c =>
              have hkey : key c = key a := by simpa using List.find?_some hfind
              rw [← hkey] at hfind
              exact absurd hkey (h c ((ih c).2 hfind))
        · intro h c hc hkey
          have hfind := (ih c).1 hc
          rw [hkey, h] at hfind
          nomatch hfind
      rw [List.foldl_concat, (hstep _ a).mem_iff, mem_insertNew, ih, hnone, List.find?_append]
      cases hfind : as.find? fun c => key c = key b with
      | some c =>
          rw [Option.some_or]
          refine or_iff_left ?_
          rintro ⟨rfl, h⟩
          rw [hfind] at h
          nomatch h
      | none =>
          rw [Option.none_or, List.find?_cons, List.find?_nil]
          by_cases hkey : key a = key b
          · rw [decide_eq_true hkey, hkey, hfind]
            simp [eq_comm]
          · rw [decide_eq_false hkey]
            refine iff_of_false ?_ (Option.some_ne_none b).symm
            rintro (h | ⟨rfl, -⟩)
            · exact Option.some_ne_none b h.symm
            · exact hkey rfl

omit [DecidableEq κ] in
/-- A search through a sorted list stops at an element that is related to every other match. -/
theorem rel_of_find? {r : α → α → Prop} {l : List α} (hl : l.Pairwise r) {p : α → Bool} {a : α}
    (h : l.find? p = some a) {b : α} (hb : b ∈ l) (hpb : p b = true) : b = a ∨ r a b := by
  obtain ⟨-, front, back, rfl, hfront⟩ := List.find?_eq_some_iff_append.1 h
  rcases List.mem_append.1 hb with hb | hb
  · have hnot := hfront b hb
    rw [hpb] at hnot
    nomatch hnot
  · rcases List.mem_cons.1 hb with rfl | hb
    · exact Or.inl rfl
    · exact Or.inr (List.rel_of_pairwise_cons (List.pairwise_append.1 hl).2.1 hb)

end Ferron.Lib.SortedSearch
