import Mathlib.Tactic

/-!
# Caches that may drop entries

A bounded cache is known by what can be looked up in it. Inserting an entry may drop any others, and
even the new one, but it never changes or invents an entry; a lookup changes nothing that can be
looked up.
-/

set_option autoImplicit false

namespace Ferron.Lib

/-- A cache with keys in `κ` and values in `ν` that may drop entries when it is full. -/
structure BoundedCache (κ ν : Type) where
  State : Type
  /-- What a lookup finds. -/
  lookup : State → κ → Option ν
  /-- A lookup, which the cache may take note of. -/
  get : State → κ → Option ν × State
  insert : State → κ → ν → State
  retain : State → (κ → ν → Bool) → State
  get_fst : ∀ (s : State) (k : κ), (get s k).1 = lookup s k
  get_snd : ∀ (s : State) (k k' : κ), lookup (get s k).2 k' = lookup s k'
  insert_le : ∀ (s : State) (k k' : κ) (v v' : ν), lookup (insert s k v) k' = some v' →
    k' = k ∧ v' = v ∨ k' ≠ k ∧ lookup s k' = some v'
  retain_eq : ∀ (s : State) (keep : κ → ν → Bool) (k : κ),
    lookup (retain s keep) k = (lookup s k).filter (keep k)

namespace BoundedCache

/-- The cache that drops nothing. -/
def unbounded (κ ν : Type) [DecidableEq κ] : BoundedCache κ ν where
  State := κ → Option ν
  lookup s := s
  get s k := (s k, s)
  insert s k v := Function.update s k (some v)
  retain s keep k := (s k).filter (keep k)
  get_fst _ _ := rfl
  get_snd _ _ _ := rfl
  insert_le s k k' v v' h := by
    by_cases hk : k' = k
    · subst hk
      rw [Function.update_self, Option.some.injEq] at h
      exact Or.inl ⟨rfl, h.symm⟩
    · rw [Function.update_of_ne hk] at h
      exact Or.inr ⟨hk, h⟩
  retain_eq _ _ _ := rfl

end BoundedCache

end Ferron.Lib
