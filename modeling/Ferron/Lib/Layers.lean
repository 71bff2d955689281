import Mathlib.Data.List.Basic

/-!
# Values in layers

Values are looked up in layers, and the first layer with some decides (`firstNonempty`). In each layer there
may be a value of one's own and values of others, in any order (`Interleaved`). One's own value is what is
found exactly when the first layer with anything has nothing of others, or has the same from others alone
(`firstNonempty_eq_iff`).
-/

set_option autoImplicit false

namespace Ferron.Lib.Layers

variable {α β γ : Type}

/-! ## Interleaved lists -/

/-- The third list has the elements of the first two, each in their order. -/
inductive Interleaved : List α → List α → List α → Prop where
  | nil : Interleaved [] [] []
  | left (a : α) {l m n : List α} (h : Interleaved l m n) : Interleaved (a :: l) m (a :: n)
  | right (a : α) {l m n : List α} (h : Interleaved l m n) : Interleaved l (a :: m) (a :: n)

namespace Interleaved

theorem all_left (l : List α) : Interleaved l [] l := by
  induction l with
  | nil => exact .nil
  | cons a l ih => exact .left a ih

theorem all_right (l : List α) : Interleaved [] l l := by
  induction l with
  | nil => exact .nil
  | cons a l ih => exact .right a ih

theorem append {l m n l' m' n' : List α} (h : Interleaved l m n) (h' : Interleaved l' m' n') :
    Interleaved (l ++ l') (m ++ m') (n ++ n') := by
  induction h with
  | nil => exact h'
  | left a _ ih => exact .left a ih
  | right a _ ih => exact .right a ih

/-- One's own elements in front of those of others. -/
theorem front {m n : List α} (h : Interleaved [] m n) (l : List α) : Interleaved l m (l ++ n) := by
  induction l with
  | nil => exact h
  | cons a l ih => exact .left a ih

theorem flatMap {items : List γ} {f g h : γ → List α}
    (hitems : ∀ item ∈ items, Interleaved (f item) (g item) (h item)) :
    Interleaved (items.flatMap f) (items.flatMap g) (items.flatMap h) := by
  induction items with
  | nil => exact .nil
  | cons item items ih =>
      rw [List.flatMap_cons, List.flatMap_cons, List.flatMap_cons]
      exact (hitems item List.mem_cons_self).append
        (ih fun other hother => hitems other (List.mem_cons_of_mem _ hother))

theorem map (f : α → β) {l m n : List α} (h : Interleaved l m n) :
    Interleaved (l.map f) (m.map f) (n.map f) := by
  induction h with
  | nil => exact .nil
  | left a _ ih => exact .left (f a) ih
  | right a _ ih => exact .right (f a) ih

theorem length_eq {l m n : List α} (h : Interleaved l m n) : n.length = l.length + m.length := by
  induction h with
  | nil => rfl
  | left a _ ih =>
      rw [List.length_cons, List.length_cons, ih]
      omega
  | right a _ ih =>
      rw [List.length_cons, List.length_cons, ih]
      omega

theorem eq_left {l n : List α} (h : Interleaved l [] n) : n = l := by
  generalize hnil : ([] : List α) = m at h
  induction h with
  | nil => rfl
  | left a _ ih => rw [ih hnil]
  | right a _ _ => cases hnil

theorem eq_right {m n : List α} (h : Interleaved [] m n) : n = m := by
  generalize hnil : ([] : List α) = l at h
  induction h with
  | nil => rfl
  | left a _ _ => cases hnil
  | right a _ ih => rw [ih hnil]

end Interleaved

/-! ## The first layer -/

/-- The first list that is not empty. -/
def firstNonempty (lists : List (List α)) : List α :=
  (lists.find? fun list => !list.isEmpty).getD []

theorem firstNonempty_cons_nil (lists : List (List α)) : firstNonempty ([] :: lists) = firstNonempty lists :=
  rfl

theorem firstNonempty_cons {list : List α} (h : list ≠ []) (lists : List (List α)) :
    firstNonempty (list :: lists) = list := by
  rw [firstNonempty, List.find?_cons_of_pos (by simpa using h)]
  rfl

/-- In the first layer with anything there is nothing of others, or the same value from others alone. If no
layer has anything, there is no value. -/
def Undisturbed (own others : γ → List α) (value : List α) (layers : List γ) : Prop :=
  match layers.find? fun layer => !(own layer).isEmpty || !(others layer).isEmpty with
  | none => value = []
  | some layer => others layer = [] ∨ own layer = [] ∧ others layer = value

section Undisturbed

variable {own others all : γ → List α} {value : List α}

/-- In one layer the value is alone when there is nothing of others, or the same from others alone. -/
theorem Interleaved.eq_iff {l m n : List α} (h : Interleaved l m n) (hown : l = [] ∨ l = value)
    (hsome : l ≠ [] ∨ m ≠ []) : n = value ↔ m = [] ∨ l = [] ∧ m = value := by
  by_cases hm : m = []
  · subst hm
    have hl : l = value := hown.resolve_left (hsome.resolve_right fun h => h rfl)
    exact iff_of_true (h.eq_left.trans hl) (.inl rfl)
  · by_cases hl : l = []
    · subst hl
      rw [h.eq_right, or_iff_right hm, and_iff_right rfl]
    · refine iff_of_false (fun heq => ?_) (not_or.2 ⟨hm, fun h => hl h.1⟩)
      have hlength := h.length_eq
      rw [heq, hown.resolve_left hl] at hlength
      exact hm (List.eq_nil_of_length_eq_zero (by omega))

/-- The value is found exactly when it is undisturbed. -/
theorem firstNonempty_eq_iff {layers : List γ}
    (hlayers : ∀ layer ∈ layers, Interleaved (own layer) (others layer) (all layer))
    (hown : ∀ layer ∈ layers, own layer = [] ∨ own layer = value) :
    firstNonempty (layers.map all) = value ↔ Undisturbed own others value layers := by
  induction layers with
  | nil => exact eq_comm
  | cons layer layers ih =>
      have hfirst := hlayers layer List.mem_cons_self
      rw [List.map_cons, Undisturbed, List.find?_cons]
      by_cases hempty : own layer = [] ∧ others layer = []
      · -- the layer is passed by
        obtain ⟨hl, hm⟩ := hempty
        rw [hl, hm] at hfirst
        rw [hfirst.eq_left, firstNonempty_cons_nil, hl, hm]
        exact ih (fun other hother => hlayers other (List.mem_cons_of_mem _ hother))
          fun other hother => hown other (List.mem_cons_of_mem _ hother)
      · have hsome : own layer ≠ [] ∨ others layer ≠ [] := not_and_or.1 hempty
        have hall : all layer ≠ [] := by
          intro hnil
          have hlength := hfirst.length_eq
          rw [hnil, List.length_nil] at hlength
          exact hempty ⟨List.eq_nil_of_length_eq_zero (by omega), List.eq_nil_of_length_eq_zero (by omega)⟩
        have hfound : (!(own layer).isEmpty || !(others layer).isEmpty) = true := by
          rcases hsome with h | h
          · simp [h]
          · simp [h]
        rw [firstNonempty_cons hall, hfound]
        exact hfirst.eq_iff (hown layer List.mem_cons_self) hsome

end Undisturbed

end Ferron.Lib.Layers
