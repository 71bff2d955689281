import Mathlib.Control.Basic
import Mathlib.Data.List.Induction
import Mathlib.Data.Option.Basic
import Mathlib.Order.Lattice

/-!
# Computations with fuel

A computation that may fail, and that gives nothing when it runs out of fuel. One computation
approximates another one when it has run out of fuel, or when both fail with the same error, or when
both succeed with related results (`Approximates`). With equality as the relation this is the order in
which more fuel is better. With another relation it is a simulation of two runs.

The relation is kept by sequences (`Approximates.bind`), by runs over a list (`Approximates.foldlM`) and
by more fuel on the right (`Approximates.trans`). A run over a list has a result with some fuel when each
step that it comes to has one (`Fueled.foldlM_ne_none`).
-/

set_option autoImplicit false

namespace Ferron.Lib

variable {ε α β γ δ : Type}

/-- `x` has run out of fuel, or `x` and `y` fail with one error, or their results are related. -/
inductive Approximates (R : α → β → Prop) : ExceptT ε Option α → ExceptT ε Option β → Prop
  | outOfFuel (y : ExceptT ε Option β) : Approximates R (ExceptT.mk none) y
  | error (e : ε) : Approximates R (throw e) (throw e)
  | ok {a : α} {b : β} (h : R a b) : Approximates R (pure a) (pure b)

namespace Approximates

variable {R : α → β → Prop} {x : ExceptT ε Option α} {y : ExceptT ε Option β}

/-- A computation has run out of fuel, has failed or has succeeded. -/
theorem cases_of (x : ExceptT ε Option α) :
    x = ExceptT.mk none ∨ (∃ e, x = throw e) ∨ ∃ a, x = pure a := by
  cases x with
  | none => exact Or.inl rfl
  | some result =>
      cases result with
      | error e => exact Or.inr (Or.inl ⟨e, rfl⟩)
      | ok a => exact Or.inr (Or.inr ⟨a, rfl⟩)

theorem refl {R : α → α → Prop} (hrefl : ∀ a, R a a) (x : ExceptT ε Option α) :
    Approximates R x x := by
  rcases cases_of x with rfl | ⟨e, rfl⟩ | ⟨a, rfl⟩
  · exact .outOfFuel _
  · exact .error e
  · exact .ok (hrefl a)

theorem of_eq {x y : ExceptT ε Option α} (h : x = y) : Approximates (· = ·) x y :=
  h ▸ refl (fun _ => rfl) x

/-- A success is matched by a success with a related result. -/
theorem of_pure {a : α} (h : Approximates R (pure a) y) : ∃ b, y = pure b ∧ R a b := by
  generalize hx : (pure a : ExceptT ε Option α) = x at h
  cases h with
  | outOfFuel => exact absurd hx (fun h => nomatch h)
  | error e => exact absurd hx (fun h => nomatch h)
  | @ok a' b h =>
      have hsame : a = a' := Except.ok.inj (Option.some.inj hx)
      exact ⟨b, rfl, hsame ▸ h⟩

theorem imp {S : α → β → Prop} (himp : ∀ a b, R a b → S a b) (h : Approximates R x y) :
    Approximates S x y := by
  cases h with
  | outOfFuel => exact .outOfFuel y
  | error e => exact .error e
  | ok h => exact .ok (himp _ _ h)

theorem trans {S : β → γ → Prop} {T : α → γ → Prop} {z : ExceptT ε Option γ}
    (hcomp : ∀ a b c, R a b → S b c → T a c) (hxy : Approximates R x y) (hyz : Approximates S y z) :
    Approximates T x z := by
  cases hxy with
  | outOfFuel => exact .outOfFuel z
  | error e =>
      generalize hy : (throw e : ExceptT ε Option β) = y at hyz
      cases hyz with
      | outOfFuel => exact absurd hy (fun h => nomatch h)
      | error e' =>
          have hsame : e = e' := Except.error.inj (Option.some.inj hy)
          exact hsame ▸ .error e
      | ok => exact absurd hy (fun h => nomatch h)
  | ok h =>
      obtain ⟨c, rfl, hc⟩ := of_pure hyz
      exact .ok (hcomp _ _ _ h hc)

/-- More fuel on the right. -/
theorem trans_eq {z : ExceptT ε Option β} (hxy : Approximates R x y)
    (hyz : Approximates (· = ·) y z) : Approximates R x z :=
  trans (S := (· = ·)) (fun _ _ _ hR hsame => hsame ▸ hR) hxy hyz

/-- A success may be used on the left. -/
theorem and_left {P : α → Prop} (h : Approximates R x y) (hP : ∀ a, x = pure a → P a) :
    Approximates (fun a b => R a b ∧ P a) x y := by
  cases h with
  | outOfFuel => exact .outOfFuel y
  | error e => exact .error e
  | ok h => exact .ok ⟨h, hP _ rfl⟩

theorem bind {S : γ → δ → Prop} {f : α → ExceptT ε Option γ} {g : β → ExceptT ε Option δ}
    (hxy : Approximates R x y) (hfg : ∀ a b, R a b → Approximates S (f a) (g b)) :
    Approximates S (x >>= f) (y >>= g) := by
  cases hxy with
  | outOfFuel => exact .outOfFuel _
  | error e => exact .error e
  | ok h => exact hfg _ _ h

/-- The same computation first, on both sides. -/
theorem bind_left {S : γ → δ → Prop} {f : α → ExceptT ε Option γ} {g : α → ExceptT ε Option δ}
    {x : ExceptT ε Option α} (hfg : ∀ a, Approximates S (f a) (g a)) :
    Approximates S (x >>= f) (x >>= g) :=
  bind (refl (fun _ => rfl) x) (fun a _ hsame => hsame ▸ hfg a)

section Run

variable {R : α → β → Prop} {f : α → γ → ExceptT ε Option α} {g : β → γ → ExceptT ε Option β}

/-- What each step keeps, a run over a list keeps. -/
theorem foldlM (hstep : ∀ s t a, R s t → Approximates R (f s a) (g t a)) (l : List γ) {s : α} {t : β}
    (hst : R s t) : Approximates R (l.foldlM f s) (l.foldlM g t) := by
  induction l generalizing s t with
  | nil => exact .ok hst
  | cons a l ih =>
      rw [List.foldlM_cons, List.foldlM_cons]
      exact bind (hstep s t a hst) (fun _ _ h => ih h)

/-- A first step may change the relation. The steps behind it keep the new one. -/
theorem foldlM_of_ne_nil {S : α → β → Prop} (hle : ∀ s t, S s t → R s t)
    (hstep : ∀ s t a, R s t → Approximates S (f s a) (g t a)) {l : List γ} (hne : l ≠ []) {s : α} {t : β}
    (hst : R s t) : Approximates S (l.foldlM f s) (l.foldlM g t) := by
  obtain ⟨a, l, rfl⟩ := List.exists_cons_of_ne_nil hne
  rw [List.foldlM_cons, List.foldlM_cons]
  exact bind (hstep s t a hst)
    (fun _ _ h => foldlM (fun s t a hS => hstep s t a (hle s t hS)) l h)

end Run

/-- A computation with a result has it with more fuel. -/
theorem eq_of_ne_none {x y : ExceptT ε Option α} (h : Approximates (· = ·) x y)
    (hne : x ≠ ExceptT.mk none) : y = x := by
  cases h with
  | outOfFuel => exact absurd rfl hne
  | error e => rfl
  | ok h => rw [h]

end Approximates

/-! ## Results -/

theorem pure_ne_none (a : α) : (pure a : ExceptT ε Option α) ≠ ExceptT.mk none :=
  fun h => nomatch h

theorem throw_ne_none (e : ε) : (throw e : ExceptT ε Option α) ≠ ExceptT.mk none :=
  fun h => nomatch h

theorem pure_inj {a b : α} (h : (pure a : ExceptT ε Option α) = pure b) : a = b :=
  Except.ok.inj (Option.some.inj h)

/-- A sequence has a result when each part of it has one. -/
theorem bind_ne_none {x : ExceptT ε Option α} {f : α → ExceptT ε Option β} (hx : x ≠ ExceptT.mk none)
    (hf : ∀ a, x = pure a → f a ≠ ExceptT.mk none) : x >>= f ≠ ExceptT.mk none := by
  rcases Approximates.cases_of x with rfl | ⟨e, rfl⟩ | ⟨a, rfl⟩
  · exact absurd rfl hx
  · exact throw_ne_none e
  · exact hf a rfl

/-- A sequence that has a result has one for its first part. -/
theorem ne_none_of_bind {x : ExceptT ε Option α} {f : α → ExceptT ε Option β}
    (h : x >>= f ≠ ExceptT.mk none) : x ≠ ExceptT.mk none := by
  rintro rfl
  exact h rfl

theorem of_bind {x : ExceptT ε Option α} {f : α → ExceptT ε Option β} {b : β} (h : x >>= f = pure b) :
    ∃ a, x = pure a ∧ f a = pure b := by
  rcases Approximates.cases_of x with rfl | ⟨e, rfl⟩ | ⟨a, rfl⟩
  · exact absurd h.symm (pure_ne_none b)
  · cases h
  · exact ⟨a, rfl, h⟩

/-! ## Runs with fuel -/

section Fueled

/-- A step with more fuel has the same results. -/
def Fueled (step : Nat → α → γ → ExceptT ε Option α) : Prop :=
  ∀ fuel k s a, Approximates (· = ·) (step fuel s a) (step (fuel + k) s a)

/-- A run over a list comes to an element: with some fuel it succeeds with those before it. -/
def ComesTo (step : Nat → α → γ → ExceptT ε Option α) (s : α) (l : List γ) (a : γ) (t : α) : Prop :=
  ∃ front back, l = front ++ a :: back ∧ ∃ fuel, front.foldlM (step fuel) s = pure t

theorem ComesTo.append {step : Nat → α → γ → ExceptT ε Option α} {s t : α} {l : List γ} {a : γ}
    (h : ComesTo step s l a t) (more : List γ) : ComesTo step s (l ++ more) a t := by
  obtain ⟨front, back, rfl, hfront⟩ := h
  exact ⟨front, back ++ more, by rw [List.append_assoc, List.cons_append], hfront⟩

variable {step : Nat → α → γ → ExceptT ε Option α} (hstep : Fueled step)

include hstep

namespace Fueled

theorem eq_of_le {fuel fuel' : Nat} (hle : fuel ≤ fuel') {s : α} {a : γ}
    (h : step fuel s a ≠ ExceptT.mk none) : step fuel' s a = step fuel s a := by
  obtain ⟨k, rfl⟩ := Nat.exists_eq_add_of_le hle
  exact (hstep fuel k s a).eq_of_ne_none h

theorem foldlM_eq_of_le {fuel fuel' : Nat} (hle : fuel ≤ fuel') {s : α} {l : List γ}
    (h : l.foldlM (step fuel) s ≠ ExceptT.mk none) :
    l.foldlM (step fuel') s = l.foldlM (step fuel) s := by
  obtain ⟨k, rfl⟩ := Nat.exists_eq_add_of_le hle
  refine Approximates.eq_of_ne_none (Approximates.foldlM ?_ l rfl) h
  rintro t _ a rfl
  exact hstep fuel k t a

/-- A success does not depend on the fuel. -/
theorem foldlM_eq_of_pure {fuel fuel' : Nat} {s t : α} {l : List γ}
    (ht : l.foldlM (step fuel') s = pure t) (h : l.foldlM (step fuel) s ≠ ExceptT.mk none) :
    l.foldlM (step fuel) s = pure t := by
  have hmax := hstep.foldlM_eq_of_le (le_max_left fuel fuel') h
  rw [hstep.foldlM_eq_of_le (le_max_right fuel fuel') (by rw [ht]; exact pure_ne_none t), ht] at hmax
  exact hmax.symm

/-- A run that has a result has one for each step that it comes to. -/
theorem ne_none_of_foldlM {fuel : Nat} {s t : α} {l : List γ} {a : γ}
    (h : l.foldlM (step fuel) s ≠ ExceptT.mk none) (hcomes : ComesTo step s l a t) :
    step fuel t a ≠ ExceptT.mk none := by
  obtain ⟨front, back, rfl, fuel', hfront⟩ := hcomes
  rw [List.foldlM_append] at h
  have hsame := hstep.foldlM_eq_of_pure hfront (ne_none_of_bind h)
  rw [hsame, pure_bind, List.foldlM_cons] at h
  exact ne_none_of_bind h

/-- A run has a result when each step that it comes to has one. -/
theorem foldlM_ne_none {s : α} (l : List γ)
    (h : ∀ a t, ComesTo step s l a t → ∃ fuel, step fuel t a ≠ ExceptT.mk none) :
    ∃ fuel, l.foldlM (step fuel) s ≠ ExceptT.mk none := by
  induction l using List.reverseRecOn with
  | nil => exact ⟨0, pure_ne_none s⟩
  | append_singleton l a ih =>
      obtain ⟨fuel, hfuel⟩ := ih fun b t hcomes => h b t (hcomes.append [a])
      rcases Approximates.cases_of (l.foldlM (step fuel) s) with hnone | ⟨e, herror⟩ | ⟨t, ht⟩
      · exact absurd hnone hfuel
      · refine ⟨fuel, ?_⟩
        rw [List.foldlM_append, herror]
        exact throw_ne_none e
      · -- the last step takes the larger amount of fuel
        obtain ⟨fuel', hfuel'⟩ := h a t ⟨l, [], rfl, fuel, ht⟩
        refine ⟨max fuel fuel', ?_⟩
        rw [List.foldlM_append, hstep.foldlM_eq_of_le (le_max_left _ _) hfuel, ht, pure_bind,
          List.foldlM_cons, hstep.eq_of_le (le_max_right _ _) hfuel']
        exact bind_ne_none hfuel' fun u _ => pure_ne_none u

theorem foldlM_ne_none_iff {s : α} {l : List γ} : (∃ fuel, l.foldlM (step fuel) s ≠ ExceptT.mk none) ↔
    ∀ a t, ComesTo step s l a t → ∃ fuel, step fuel t a ≠ ExceptT.mk none := by
  constructor
  · rintro ⟨fuel, hfuel⟩ a t hcomes
    exact ⟨fuel, hstep.ne_none_of_foldlM hfuel hcomes⟩
  · exact hstep.foldlM_ne_none l

end Fueled

end Fueled

/-! ## Two computations -/

/-- Two computations correspond when both fail, or both have related results. The left one may be out of
fuel if `l` holds, and the right one if `r` does. -/
inductive Corresponds {δ ε α β : Type} (l r : Prop) (R : α → β → Prop) :
    ExceptT δ Option α → ExceptT ε Option β → Prop
  | left (h : l) (y : ExceptT ε Option β) : Corresponds l r R (ExceptT.mk none) y
  | right (h : r) (x : ExceptT δ Option α) : Corresponds l r R x (ExceptT.mk none)
  | error (e : δ) (e' : ε) : Corresponds l r R (throw e) (throw e')
  | ok {a : α} {b : β} (h : R a b) : Corresponds l r R (pure a) (pure b)

namespace Corresponds

variable {δ ε α β α' β' γ : Type} {l r : Prop} {R : α → β → Prop} {x : ExceptT δ Option α}
  {y : ExceptT ε Option β}

theorem bind {S : α' → β' → Prop} {f : α → ExceptT δ Option α'} {g : β → ExceptT ε Option β'}
    (hxy : Corresponds l r R x y) (hfg : ∀ a b, x = pure a → R a b → Corresponds l r S (f a) (g b)) :
    Corresponds l r S (x >>= f) (y >>= g) := by
  cases hxy with
  | left h y => exact .left h _
  | right h x => exact .right h _
  | error e e' => exact .error e e'
  | ok h => exact hfg _ _ rfl h

theorem foldlM {f : α → γ → ExceptT δ Option α} {g : β → γ → ExceptT ε Option β}
    (hstep : ∀ s t a, R s t → Corresponds l r R (f s a) (g t a)) (list : List γ) {s : α} {t : β}
    (hst : R s t) : Corresponds l r R (list.foldlM f s) (list.foldlM g t) := by
  induction list generalizing s t with
  | nil => exact .ok hst
  | cons a list ih =>
      rw [List.foldlM_cons, List.foldlM_cons]
      exact (hstep s t a hst).bind fun _ _ _ h => ih h

theorem right_ne_none (h : Corresponds l False R x y) (hx : x ≠ ExceptT.mk none) :
    y ≠ ExceptT.mk none := by
  cases h with
  | left _ y => exact absurd rfl hx
  | right h _ => exact h.elim
  | error e e' => exact throw_ne_none e'
  | ok h => exact pure_ne_none _

theorem left_ne_none (h : Corresponds False r R x y) (hy : y ≠ ExceptT.mk none) :
    x ≠ ExceptT.mk none := by
  cases h with
  | left h _ => exact h.elim
  | right _ x => exact absurd rfl hy
  | error e e' => exact throw_ne_none e
  | ok h => exact pure_ne_none _

end Corresponds

end Ferron.Lib
