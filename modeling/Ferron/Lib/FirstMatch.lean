import Mathlib.Tactic

/-!
# The first match

Two tests that go through one list and stop at the first item with a result. Up to the first item where
one of them has a result, neither has any; there both have the same result, or one has none and finds
the same result later (`findSome?_eq_findSome?_iff`).
-/

set_option autoImplicit false

namespace Ferron.Lib.FirstMatch

variable {α β : Type} {f g : α → Option β} {items : List α}

/-- At this item, the first one where `f` or `g` has a result, both go on to the same result. -/
def Alike (f g : α → Option β) (item : α) (rest : List α) : Prop :=
  f item = g item ∨ (g item = none ∧ f item = rest.findSome? g) ∨
    f item = none ∧ g item = rest.findSome? f

/-- Both find the same result exactly when they do so from the first item with a result on. -/
theorem findSome?_eq_findSome?_iff :
    items.findSome? f = items.findSome? g ↔
      ∀ front item rest, items = front ++ item :: rest →
        (∀ passed ∈ front, f passed = none ∧ g passed = none) →
        (f item ≠ none ∨ g item ≠ none) → Alike f g item rest := by
  induction items with
  | nil =>
      refine iff_of_true rfl fun front item rest hitems => ?_
      exact absurd hitems (by simp)
  | cons first items ih =>
      by_cases hpassed : f first = none ∧ g first = none
      · rw [List.findSome?_cons, List.findSome?_cons, hpassed.1, hpassed.2]
        dsimp only
        rw [ih]
        constructor
        · intro h front item rest hitems hfront hresult
          cases front with
          | nil =>
              obtain ⟨rfl, rfl⟩ := List.cons.inj hitems
              exact absurd hpassed (not_and_or.2 hresult)
          | cons _ front =>
              obtain ⟨-, hitems⟩ := List.cons.inj hitems
              exact h front item rest hitems (fun d hd => hfront d (List.mem_cons_of_mem _ hd)) hresult
        · intro h front item rest hitems hfront hresult
          refine h (first :: front) item rest (by rw [hitems]; rfl) ?_ hresult
          exact List.forall_mem_cons.2 ⟨hpassed, hfront⟩
      · -- the first item has a result, so nothing comes after it
        have hfirst : (∀ front item rest, first :: items = front ++ item :: rest →
            (∀ passed ∈ front, f passed = none ∧ g passed = none) →
            (f item ≠ none ∨ g item ≠ none) → Alike f g item rest) ↔ Alike f g first items := by
          constructor
          · exact fun h => h [] first items rfl (by simp) (not_and_or.1 hpassed)
          · intro h front item rest hitems hfront hresult
            cases front with
            | nil =>
                obtain ⟨rfl, rfl⟩ := List.cons.inj hitems
                exact h
            | cons other front =>
                obtain ⟨rfl, -⟩ := List.cons.inj hitems
                exact absurd (hfront _ List.mem_cons_self) hpassed
        rw [hfirst, List.findSome?_cons, List.findSome?_cons, Alike]
        cases hf : f first with
        | none =>
            cases hg : g first with
            | none => exact absurd ⟨hf, hg⟩ hpassed
            | some y => simp [eq_comm]
        | some x =>
            cases hg : g first with
            | none => simp
            | some y => simp

end Ferron.Lib.FirstMatch
