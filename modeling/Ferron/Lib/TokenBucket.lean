import Mathlib.Algebra.Order.Field.Basic
import Mathlib.Data.Nat.Cast.Order.Ring
import Mathlib.Tactic.Linarith
import Mathlib.Tactic.Ring

/-!
# Token buckets

A token bucket has a level that rises with time, up to the burst, and falls by one with each grant. What
has been granted between two times is at most the burst and what flows in meanwhile. `Metered` is the
invariant that a bucket and its grants so far have; each thing that happens to the bucket keeps it.

`Meter` says what a bucket must do to be described by a level, and `Bucket` is a bucket that does.
-/

set_option autoImplicit false

namespace Ferron.Lib.TokenBucket

variable {K : Type} [Field K] [LinearOrder K] [IsStrictOrderedRing K]

/-- The number of grants between two times, both included. -/
def grantedBetween (grants : List K) (first last : K) : Nat :=
  grants.countP fun time => first ≤ time ∧ time ≤ last

/-- The grants so far, and the level that they have left. -/
structure Metered (rate burst now level : K) (grants : List K) : Prop where
  past : ∀ time ∈ grants, time ≤ now
  level_le : level ≤ burst
  /-- Since some time at most so much has been granted that the level is still there. -/
  since : ∀ first ≤ now, (grantedBetween grants first now : K) + level ≤ burst + rate * (now - first)
  between : ∀ first last, first ≤ last →
    (grantedBetween grants first last : K) ≤ burst + rate * (last - first)

omit [Field K] [IsStrictOrderedRing K] in
/-- Nothing is granted in the future. -/
theorem grantedBetween_of_past {grants : List K} {now first last : K} (hpast : ∀ time ∈ grants, time ≤ now)
    (hlast : now ≤ last) : grantedBetween grants first last = grantedBetween grants first now := by
  apply List.countP_congr
  intro time htime
  have hle := hpast time htime
  simp only [decide_eq_true_eq]
  exact ⟨fun h => ⟨h.1, hle⟩, fun h => ⟨h.1, hle.trans hlast⟩⟩

omit [Field K] [IsStrictOrderedRing K] in
theorem grantedBetween_eq_zero {grants : List K} {now first last : K}
    (hpast : ∀ time ∈ grants, time ≤ now) (hfirst : now < first) :
    grantedBetween grants first last = 0 := by
  rw [grantedBetween, List.countP_eq_zero]
  intro time htime
  simp only [decide_eq_true_eq, not_and]
  exact fun h => absurd (h.trans (hpast time htime)) (not_le.2 hfirst)

namespace Metered

variable {rate burst now level : K} {grants : List K}

/-- A bucket without grants. -/
theorem start (hrate : 0 ≤ rate) (hburst : 0 ≤ burst) (hlevel : level ≤ burst) :
    Metered rate burst now level [] where
  past _ h := absurd h List.not_mem_nil
  level_le := hlevel
  since first hfirst := by
    have hflow := mul_nonneg hrate (sub_nonneg.2 hfirst)
    simp only [grantedBetween, List.countP_nil, Nat.cast_zero]
    linarith
  between first last hle := by
    have hflow := mul_nonneg hrate (sub_nonneg.2 hle)
    simp only [grantedBetween, List.countP_nil, Nat.cast_zero]
    linarith

/-- Time passes, and the level rises. -/
theorem wait (h : Metered rate burst now level grants) (hrate : 0 ≤ rate) {later level' : K}
    (hlater : now ≤ later) (hle : level' ≤ burst) (hrise : level' ≤ level + rate * (later - now)) :
    Metered rate burst later level' grants where
  past time htime := (h.past time htime).trans hlater
  level_le := hle
  since first hfirst := by
    rcases le_or_gt first now with hold | hnew
    · rw [grantedBetween_of_past h.past hlater]
      have hsince := h.since first hold
      linarith [mul_sub rate later first, mul_sub rate now first, mul_sub rate later now]
    · rw [grantedBetween_eq_zero h.past hnew, Nat.cast_zero]
      have hflow := mul_nonneg hrate (sub_nonneg.2 hfirst)
      linarith
  between := h.between

/-- The level falls. -/
theorem lower (h : Metered rate burst now level grants) {level' : K} (hle : level' ≤ level) :
    Metered rate burst now level' grants where
  past := h.past
  level_le := hle.trans h.level_le
  since first hfirst := by linarith [h.since first hfirst]
  between := h.between

omit [Field K] [IsStrictOrderedRing K] in
theorem grantedBetween_append (grants : List K) (now first last : K) :
    grantedBetween (grants ++ [now]) first last =
      grantedBetween grants first last + if first ≤ now ∧ now ≤ last then 1 else 0 := by
  rw [grantedBetween, List.countP_append, List.countP_singleton]
  simp [grantedBetween]

/-- A grant takes one token. -/
theorem grant (h : Metered rate burst now level grants) (hrate : 0 ≤ rate) {level' : K}
    (hnonneg : 0 ≤ level') (hle : level' + 1 ≤ level) :
    Metered rate burst now level' (grants ++ [now]) := by
  -- at the time of the grant the level is left over
  have hsince : ∀ first ≤ now, (grantedBetween (grants ++ [now]) first now : K) + level' ≤
      burst + rate * (now - first) := by
    intro first hfirst
    rw [grantedBetween_append, if_pos ⟨hfirst, le_refl now⟩, Nat.cast_add, Nat.cast_one]
    linarith [h.since first hfirst]
  have hpast : ∀ time ∈ grants ++ [now], time ≤ now := by
    intro time htime
    rcases List.mem_append.1 htime with hold | hnew
    · exact h.past time hold
    · exact le_of_eq (List.mem_singleton.1 hnew)
  refine ⟨hpast, by linarith [h.level_le], hsince, ?_⟩
  intro first last hle
  by_cases hinside : first ≤ now ∧ now ≤ last
  · have hflow := mul_le_mul_of_nonneg_left (sub_le_sub_right hinside.2 first) hrate
    rw [grantedBetween_of_past hpast hinside.2]
    linarith [hsince first hinside.1]
  · rw [grantedBetween_append, if_neg hinside, Nat.add_zero]
    exact h.between first last hle

end Metered

/-! ## Buckets -/

/-- Buckets that are made and asked for tokens. The last arguments of `acquire` are the time and the
number of tokens. -/
structure Buckets (K β : Type) where
  new : K → β
  acquire : β → K → K → Bool × β

/-- The buckets have levels: a level rises with the rate up to the burst, and a grant takes the tokens
from it. -/
structure Meter {β : Type} (buckets : Buckets K β) (rate burst : K) where
  Made : β → Prop
  level : β → K → K
  made_new : ∀ now, Made (buckets.new now)
  made_acquire : ∀ bucket now tokens, Made bucket → Made (buckets.acquire bucket now tokens).2
  level_le : ∀ bucket now, Made bucket → level bucket now ≤ burst
  level_wait : ∀ bucket now later, Made bucket → now ≤ later →
    level bucket later ≤ level bucket now + rate * (later - now)
  level_refused : ∀ bucket now tokens, Made bucket → (buckets.acquire bucket now tokens).1 = false →
    level (buckets.acquire bucket now tokens).2 now ≤ level bucket now
  level_granted : ∀ bucket now tokens, Made bucket → (buckets.acquire bucket now tokens).1 = true →
    0 ≤ level (buckets.acquire bucket now tokens).2 now ∧
      level (buckets.acquire bucket now tokens).2 now + tokens ≤ level bucket now

/-- A bucket with the tokens that it had at a time. -/
structure Bucket (K : Type) where
  tokens : K
  last : K

namespace Bucket

/-- The tokens at a time. -/
def available (rate burst : K) (bucket : Bucket K) (now : K) : K :=
  min burst (bucket.tokens + rate * (now - bucket.last))

/-- Buckets that start full and keep count of their tokens. -/
def buckets (rate burst : K) : Buckets K (Bucket K) where
  new now := ⟨burst, now⟩
  acquire bucket now tokens :=
    let available := bucket.available rate burst now
    if tokens ≤ available then (true, ⟨available - tokens, now⟩) else (false, ⟨available, now⟩)

/-- Their tokens are their level. -/
def meter {rate burst : K} (hrate : 0 ≤ rate) (hburst : 0 ≤ burst) :
    Meter (buckets rate burst) rate burst where
  Made _ := True
  level := available rate burst
  made_new _ := trivial
  made_acquire _ _ _ _ := trivial
  level_le _ _ _ := min_le_left _ _
  level_wait bucket now later _ hlater := by
    have hflow := mul_nonneg hrate (sub_nonneg.2 hlater)
    rw [available, available, min_add, le_min_iff]
    constructor
    · exact (min_le_left _ _).trans (le_add_of_nonneg_right hflow)
    · apply (min_le_right _ _).trans (le_of_eq _)
      ring
  level_refused bucket now tokens _ hrefused := by
    rw [buckets] at hrefused ⊢
    dsimp only at hrefused ⊢
    split at hrefused
    · exact absurd hrefused (by simp)
    · rename_i hfew
      rw [if_neg hfew, available, sub_self, mul_zero, add_zero]
      exact min_le_right _ _
  level_granted bucket now tokens _ hgranted := by
    rw [buckets] at hgranted ⊢
    dsimp only at hgranted ⊢
    split at hgranted
    · rename_i henough
      rw [if_pos henough, available, sub_self, mul_zero, add_zero]
      refine ⟨le_min hburst (sub_nonneg.2 henough), ?_⟩
      linarith [min_le_right burst (bucket.available rate burst now - tokens)]
    · exact absurd hgranted (by simp)

end Bucket

end Ferron.Lib.TokenBucket
