import Mathlib.Data.List.Basic
import Mathlib.Data.List.Forall2

/-!
# Lists up to the order of different keys

Two lists are the same by key when the elements of each key are the same in both, in their order
(`SameByKey`). The elements of different keys may be in any order.

A fold may put elements behind or in front of such a list. `foldl_frame` and `foldl_at` are about what is
observed of the result of a fold that only one of the entries touches.
-/

set_option autoImplicit false

namespace Ferron.Lib.KeyedList

/-! ## Observed folds -/

section Folds

variable {σ β κ ω : Type} {step : σ → β → σ} {keyOf : β → κ} {key : κ} {observe : σ → ω}

/-- What no entry touches stays as it is. -/
theorem foldl_frame {entries : List β}
    (hframe : ∀ entry ∈ entries, ∀ state, observe (step state entry) = observe state) (state : σ) :
    observe (entries.foldl step state) = observe state := by
  induction entries generalizing state with
  | nil => rfl
  | cons entry entries ih =>
      have hrest := ih (fun other hother => hframe other (List.mem_cons_of_mem _ hother)) (step state entry)
      exact hrest.trans (hframe entry List.mem_cons_self state)

/-- What only the entries of a key touch is left by an entry that no other one of the key follows. -/
theorem foldl_at (hframe : ∀ entry, keyOf entry ≠ key → ∀ state, observe (step state entry) = observe state)
    (front : List β) (entry : β) {back : List β} (hback : ∀ other ∈ back, keyOf other ≠ key) (state : σ) :
    observe ((front ++ entry :: back).foldl step state) = observe (step (front.foldl step state) entry) := by
  rw [List.foldl_append, List.foldl_cons]
  exact foldl_frame (fun other hother => hframe other (hback other hother)) _

/-- A fold that puts elements in front leaves what is behind them. -/
theorem foldl_front {α : Type} {put : List α → β → List α}
    (hput : ∀ front entry back, put (front ++ back) entry = put front entry ++ back) (entries : List β)
    (back : List α) : entries.foldl put back = entries.foldl put [] ++ back := by
  have hall : ∀ front, entries.foldl put (front ++ back) = entries.foldl put front ++ back := by
    induction entries with
    | nil => exact fun front => rfl
    | cons entry entries ih =>
        intro front
        rw [List.foldl_cons, List.foldl_cons, hput, ih]
  exact hall []

end Folds

/-! ## Related lists -/

section Related

variable {α β : Type} {R : α → β → Prop}

theorem forall₂_append_iff {l₁ l₂ : List α} {m₁ m₂ : List β} (hlength : l₁.length = m₁.length) :
    List.Forall₂ R (l₁ ++ l₂) (m₁ ++ m₂) ↔ List.Forall₂ R l₁ m₁ ∧ List.Forall₂ R l₂ m₂ := by
  induction l₁ generalizing m₁ with
  | nil =>
      rw [List.length_eq_zero_iff.1 hlength.symm]
      exact (and_iff_right List.Forall₂.nil).symm
  | cons a l₁ ih =>
      cases m₁ with
      | nil => exact absurd hlength (Nat.succ_ne_zero _)
      | cons b m₁ =>
          rw [List.cons_append, List.cons_append, List.forall₂_cons, List.forall₂_cons,
            ih (Nat.succ.inj hlength), and_assoc]

theorem forall₂_of_mem {S : α → β → Prop} {l : List α} {m : List β} (h : List.Forall₂ R l m)
    (himp : ∀ a ∈ l, ∀ b, R a b → S a b) : List.Forall₂ S l m := by
  induction h with
  | nil => exact .nil
  | cons hab _ ih =>
      exact .cons (himp _ List.mem_cons_self _ hab)
        (ih fun a ha => himp a (List.mem_cons_of_mem _ ha))

/-- Lists that are made of short ones of equal lengths are related when these are. -/
theorem forall₂_flatMap_iff {γ δ : Type} {f : γ → List α} {g : δ → List β} {l : List γ} {m : List δ}
    (h : List.Forall₂ (fun a b => (f a).length = (g b).length) l m) :
    List.Forall₂ R (l.flatMap f) (m.flatMap g) ↔
      List.Forall₂ (fun a b => List.Forall₂ R (f a) (g b)) l m := by
  induction h with
  | nil => exact iff_of_true .nil .nil
  | cons hlength _ ih =>
      rw [List.flatMap_cons, List.flatMap_cons, forall₂_append_iff hlength, ih, List.forall₂_cons]

theorem length_flatMap_eq {γ δ : Type} {f : γ → List α} {g : δ → List β} {l : List γ} {m : List δ}
    (h : List.Forall₂ (fun a b => (f a).length = (g b).length) l m) :
    (l.flatMap f).length = (m.flatMap g).length := by
  induction h with
  | nil => rfl
  | cons hlength _ ih =>
      rw [List.flatMap_cons, List.flatMap_cons, List.length_append, List.length_append, hlength, ih]

end Related

/-! ## The same by key -/

section Same

variable {α κ : Type} [DecidableEq κ] {key : α → κ} {R : α → α → Prop}

/-- The elements of a key. -/
def ofKey (key : α → κ) (k : κ) (l : List α) : List α := l.filter fun a => key a = k

/-- The first element of a key is the only one when no key is there twice. -/
theorem find?_of_nodup {l : List α} (hnodup : (l.map key).Nodup) {a : α} (ha : a ∈ l) :
    l.find? (fun b => key b = key a) = some a := by
  induction l with
  | nil => exact absurd ha List.not_mem_nil
  | cons b l ih =>
      rw [List.map_cons, List.nodup_cons] at hnodup
      rcases List.mem_cons.1 ha with rfl | hmem
      · exact List.find?_cons_of_pos (decide_eq_true rfl)
      · have hne : key b ≠ key a := fun heq => hnodup.1 (heq ▸ List.mem_map_of_mem hmem)
        rw [List.find?_cons_of_neg (by simpa using hne)]
        exact ih hnodup.2 hmem

theorem ofKey_append (k : κ) (l m : List α) : ofKey key k (l ++ m) = ofKey key k l ++ ofKey key k m :=
  List.filter_append ..

theorem ofKey_cons_of_eq {k : κ} {a : α} (h : key a = k) (l : List α) :
    ofKey key k (a :: l) = a :: ofKey key k l :=
  List.filter_cons_of_pos (decide_eq_true h)

theorem ofKey_cons_of_ne {k : κ} {a : α} (h : key a ≠ k) (l : List α) :
    ofKey key k (a :: l) = ofKey key k l :=
  List.filter_cons_of_neg (by simpa using h)

theorem ofKey_eq_self {k : κ} {l : List α} (h : ∀ a ∈ l, key a = k) : ofKey key k l = l :=
  List.filter_eq_self.2 fun a ha => decide_eq_true (h a ha)

theorem ofKey_eq_nil {k : κ} {l : List α} (h : ∀ a ∈ l, key a ≠ k) : ofKey key k l = [] :=
  List.filter_eq_nil_iff.2 fun a ha => by simpa using h a ha

/-- For each key, the elements of it are related in their order. -/
def SameByKey (key : α → κ) (R : α → α → Prop) (l l' : List α) : Prop :=
  ∀ k, List.Forall₂ R (ofKey key k l) (ofKey key k l')

variable {l l' m m' : List α}

theorem SameByKey.append (h : SameByKey key R l l') (h' : SameByKey key R m m') :
    SameByKey key R (l ++ m) (l' ++ m') := by
  intro k
  rw [ofKey_append, ofKey_append]
  exact List.rel_append (h k) (h' k)

theorem SameByKey.nil_iff (h : SameByKey key R l l') : l = [] ↔ l' = [] := by
  constructor
  · rintro rfl
    refine List.eq_nil_iff_forall_not_mem.2 fun a ha => ?_
    have hmem : a ∈ ofKey key (key a) l' := List.mem_filter.2 ⟨ha, decide_eq_true rfl⟩
    rw [List.forall₂_nil_left_iff.1 (h (key a))] at hmem
    exact List.not_mem_nil hmem
  · rintro rfl
    refine List.eq_nil_iff_forall_not_mem.2 fun a ha => ?_
    have hmem : a ∈ ofKey key (key a) l := List.mem_filter.2 ⟨ha, decide_eq_true rfl⟩
    rw [List.forall₂_nil_right_iff.1 (h (key a))] at hmem
    exact List.not_mem_nil hmem

theorem sameByKey_refl (hrefl : ∀ a ∈ l, R a a) : SameByKey key R l l := fun _ =>
  List.forall₂_same.2 fun a ha => hrefl a (List.mem_of_mem_filter ha)

/-- Parts that have no key in common. -/
theorem sameByKey_append_iff (hdisjoint : ∀ k, (ofKey key k l = [] ∧ ofKey key k l' = []) ∨
    (ofKey key k m = [] ∧ ofKey key k m' = [])) :
    SameByKey key R (l ++ m) (l' ++ m') ↔ SameByKey key R l l' ∧ SameByKey key R m m' := by
  refine ⟨fun h => ⟨fun k => ?_, fun k => ?_⟩, fun h => h.1.append h.2⟩
  · have hall := h k
    rw [ofKey_append, ofKey_append] at hall
    rcases hdisjoint k with ⟨hl, hl'⟩ | ⟨hm, hm'⟩
    · rw [hl, hl']
      exact .nil
    · rw [hm, hm', List.append_nil, List.append_nil] at hall
      exact hall
  · have hall := h k
    rw [ofKey_append, ofKey_append] at hall
    rcases hdisjoint k with ⟨hl, hl'⟩ | ⟨hm, hm'⟩
    · rw [hl, hl'] at hall
      exact hall
    · rw [hm, hm']
      exact .nil

/-- What is in front of both lists and behind them does not matter. -/
theorem sameByKey_within_iff {front back : List α} (hfront : ∀ a ∈ front, R a a)
    (hback : ∀ a ∈ back, R a a) :
    SameByKey key R (front ++ l ++ back) (front ++ l' ++ back) ↔ SameByKey key R l l' := by
  refine ⟨fun h k => ?_, fun h => ((sameByKey_refl hfront).append h).append (sameByKey_refl hback)⟩
  have hall := h k
  rw [ofKey_append, ofKey_append, ofKey_append, ofKey_append] at hall
  have hlength : (ofKey key k l).length = (ofKey key k l').length := by
    have := hall.length_eq
    simp only [List.length_append] at this
    omega
  rw [forall₂_append_iff (by rw [List.length_append, List.length_append, hlength]),
    forall₂_append_iff rfl] at hall
  exact hall.1.2

/-- Lists whose keys are the same in their order. -/
theorem sameByKey_iff_forall₂ (hkeys : List.Forall₂ (fun a b => key a = key b) l l') :
    SameByKey key R l l' ↔ List.Forall₂ R l l' := by
  induction hkeys with
  | nil => exact iff_of_true (fun _ => .nil) .nil
  | @cons a b l l' hkey _ ih =>
      rw [List.forall₂_cons, ← ih]
      constructor
      · intro h
        refine ⟨?_, fun k => ?_⟩
        · have hown := h (key a)
          rw [ofKey_cons_of_eq rfl, ofKey_cons_of_eq hkey.symm, List.forall₂_cons] at hown
          exact hown.1
        · have hown := h k
          by_cases hk : key a = k
          · rw [ofKey_cons_of_eq hk, ofKey_cons_of_eq (hkey ▸ hk), List.forall₂_cons] at hown
            exact hown.2
          · rw [ofKey_cons_of_ne hk, ofKey_cons_of_ne (hkey ▸ hk)] at hown
            exact hown
      · rintro ⟨hab, h⟩ k
        by_cases hk : key a = k
        · rw [ofKey_cons_of_eq hk, ofKey_cons_of_eq (hkey ▸ hk), List.forall₂_cons]
          exact ⟨hab, h k⟩
        · rw [ofKey_cons_of_ne hk, ofKey_cons_of_ne (hkey ▸ hk)]
          exact h k

end Same

end Ferron.Lib.KeyedList
