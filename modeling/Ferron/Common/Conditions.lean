import Ferron.Common.IpBlockList
import Mathlib.Data.List.DropRight

/-!
# Conditions of configuration blocks

A configuration applies under a location prefix and a list of conditionals. Their equality and their
order are both hand-written and do not agree: `ConditionalData.cmp` has no arm for `IsLanguage`, so
it tells two languages apart by their variant only, which is the same one, and the order of address
lists depends on the iteration order of hash sets. `ConditionalData.cmp` is an order on keys
(`ConditionalData.compare_eq`), so it is transitive and total.
-/

set_option autoImplicit false

namespace Ferron.Common

open Std

/-- A compiled regular expression: its pattern, and whether the case of letters is ignored. -/
structure Regex where
  asStr : Str
  caseInsensitive : Bool
  deriving DecidableEq, Repr

/-- A Rego engine: the policies it was given, and what it lists of them, if it can. -/
structure RegoEngine where
  policies : List Str
  getPolicies : Option (List Str)
  listed : ∀ found ∈ getPolicies, found = policies

/-- Conditional data. -/
inductive ConditionalData where
  | isRemoteIp (list : IpBlockList)
  | isForwardedFor (list : IpBlockList)
  | isNotRemoteIp (list : IpBlockList)
  | isNotForwardedFor (list : IpBlockList)
  | isEqual (left right : Str)
  | isNotEqual (left right : Str)
  | isRegex (value : Str) (regex : Regex)
  | isNotRegex (value : Str) (regex : Regex)
  | isRego (engine : RegoEngine)
  | setConstant (name value : Str)
  | isLanguage (language : Str)

namespace ConditionalData

/-- `eq`. -/
protected def eq : ConditionalData → ConditionalData → Bool
  | isRemoteIp v1, isRemoteIp v2 => v1 == v2
  | isForwardedFor v1, isForwardedFor v2 => v1 == v2
  | isNotRemoteIp v1, isNotRemoteIp v2 => v1 == v2
  | isNotForwardedFor v1, isNotForwardedFor v2 => v1 == v2
  | isEqual v1 v2, isEqual v3 v4 => v1 == v3 && v2 == v4
  | isNotEqual v1 v2, isNotEqual v3 v4 => v1 == v3 && v2 == v4
  | isRegex v1 v2, isRegex v3 v4 => v1 == v3 && v2.asStr == v4.asStr
  | isNotRegex v1 v2, isNotRegex v3 v4 => v1 == v3 && v2.asStr == v4.asStr
  | isRego v1, isRego v2 => v1.getPolicies == v2.getPolicies
  | setConstant v1 v2, setConstant v3 v4 => v1 == v3 && v2 == v4
  | isLanguage v1, isLanguage v2 => v1 == v2
  | _, _ => false

instance : BEq ConditionalData := ⟨ConditionalData.eq⟩

/-- The discriminant of a variant: its position in the declaration. -/
def discriminant : ConditionalData → Nat
  | isRemoteIp _ => 0
  | isForwardedFor _ => 1
  | isNotRemoteIp _ => 2
  | isNotForwardedFor _ => 3
  | isEqual _ _ => 4
  | isNotEqual _ _ => 5
  | isRegex _ _ => 6
  | isNotRegex _ _ => 7
  | isRego _ => 8
  | setConstant _ _ => 9
  | isLanguage _ => 10

/-- `cmp`. -/
protected def cmp : ConditionalData → ConditionalData → Ordering
  | isRemoteIp v1, isRemoteIp v2 => compare v1 v2
  | isForwardedFor v1, isForwardedFor v2 => compare v1 v2
  | isNotRemoteIp v1, isNotRemoteIp v2 => compare v1 v2
  | isNotForwardedFor v1, isNotForwardedFor v2 => compare v1 v2
  | isEqual v1 v2, isEqual v3 v4 => (compare v1 v3).then (compare v2 v4)
  | isNotEqual v1 v2, isNotEqual v3 v4 => (compare v1 v3).then (compare v2 v4)
  | isRegex v1 v2, isRegex v3 v4 => (compare v1 v3).then (compare v2.asStr v4.asStr)
  | isNotRegex v1 v2, isNotRegex v3 v4 => (compare v1 v3).then (compare v2.asStr v4.asStr)
  | isRego v1, isRego v2 => compare v1.getPolicies v2.getPolicies
  | setConstant v1 v2, setConstant v3 v4 => (compare v1 v3).then (compare v2 v4)
  -- two languages come here as well
  | this, other => compare this.discriminant other.discriminant

instance : Ord ConditionalData := ⟨ConditionalData.cmp⟩

/-! ## The order compares keys -/

/-- The address list that the order looks at. -/
def listKey : ConditionalData → IpBlockList
  | isRemoteIp list => list
  | isForwardedFor list => list
  | isNotRemoteIp list => list
  | isNotForwardedFor list => list
  | _ => IpBlockList.new

/-- The texts that the order looks at. -/
def textKey : ConditionalData → Str × Str
  | isEqual left right => (left, right)
  | isNotEqual left right => (left, right)
  | isRegex value regex => (value, regex.asStr)
  | isNotRegex value regex => (value, regex.asStr)
  | setConstant name value => (name, value)
  | _ => ([], [])

/-- The policies that the order looks at. -/
def policyKey : ConditionalData → Option (List Str)
  | isRego engine => engine.getPolicies
  | _ => none

/-- The order of the keys. -/
def cmpKeys : ConditionalData → ConditionalData → Ordering :=
  compareLex (compareOn discriminant) (compareLex (compareOn listKey)
    (compareLex (compareOn fun c => c.textKey.1) (compareLex (compareOn fun c => c.textKey.2)
      (compareOn policyKey))))

theorem compare_eq (a b : ConditionalData) : compare a b = cmpKeys a b := by
  change ConditionalData.cmp a b = compareLex _ _ a b
  by_cases hvariant : a.discriminant = b.discriminant
  · cases a <;> cases b <;> simp [discriminant] at hvariant <;>
      simp [ConditionalData.cmp, compareLex, compareOn, discriminant, listKey, textKey, policyKey]
  · have hcmp : ConditionalData.cmp a b = compare a.discriminant b.discriminant := by
      cases a <;> cases b <;> first
        | rfl
        | exact absurd rfl hvariant
    have hne : compare a.discriminant b.discriminant ≠ .eq := fun h =>
      hvariant (LawfulEqOrd.eq_of_compare h)
    rw [hcmp, compareLex, compareOn]
    cases hc : compare a.discriminant b.discriminant with
    | eq => exact absurd hc hne
    | lt => rfl
    | gt => rfl

instance : TransCmp cmpKeys := by
  unfold cmpKeys
  infer_instance

instance : TransOrd ConditionalData where
  eq_swap {a b} := by
    rw [compare_eq, compare_eq b a]
    exact OrientedCmp.eq_swap
  isLE_trans {a b c} hab hbc := by
    rw [compare_eq] at hab hbc ⊢
    exact TransCmp.isLE_trans hab hbc

theorem beq_eq (a b : ConditionalData) : (a == b) = ConditionalData.eq a b := rfl

instance : EquivBEq ConditionalData where
  rfl {a} := by
    cases a <;> simp [beq_eq, ConditionalData.eq]
  symm {a b} h := by
    cases a <;> cases b <;> simp_all [beq_eq, ConditionalData.eq, BEq.comm]
  trans {a b c} h₁ h₂ := by
    cases a <;> cases b <;> simp only [beq_eq, ConditionalData.eq, reduceCtorEq] at h₁ <;>
      cases c <;> simp_all [beq_eq, ConditionalData.eq]
    all_goals exact PartialEquivBEq.trans h₁ h₂

end ConditionalData

/-- A conditional: an "if" condition or an "if_not" condition. -/
inductive Conditional where
  | ifBlock (data : List ConditionalData)
  | ifNot (data : List ConditionalData)

namespace Conditional

/-- The derived `==`. -/
protected def eq : Conditional → Conditional → Bool
  | ifBlock a, ifBlock b => a == b
  | ifNot a, ifNot b => a == b
  | _, _ => false

instance : BEq Conditional := ⟨Conditional.eq⟩

/-- The derived `cmp`. -/
protected def cmp : Conditional → Conditional → Ordering
  | ifBlock a, ifBlock b => compare a b
  | ifBlock _, ifNot _ => .lt
  | ifNot _, ifBlock _ => .gt
  | ifNot a, ifNot b => compare a b

instance : Ord Conditional := ⟨Conditional.cmp⟩

theorem beq_eq (a b : Conditional) : (a == b) = Conditional.eq a b := rfl

theorem compare_eq (a b : Conditional) : compare a b = Conditional.cmp a b := rfl

instance : EquivBEq Conditional where
  rfl {a} := by
    cases a <;> simp [beq_eq, Conditional.eq]
  symm {a b} h := by
    cases a <;> cases b <;> simp_all [beq_eq, Conditional.eq, BEq.comm]
  trans {a b c} h₁ h₂ := by
    cases a <;> cases b <;> cases c <;> simp_all [beq_eq, Conditional.eq]
    all_goals exact PartialEquivBEq.trans h₁ h₂

instance : TransOrd Conditional where
  eq_swap {a b} := by
    cases a <;> cases b <;> simp only [compare_eq, Conditional.cmp, Ordering.swap]
    all_goals exact OrientedCmp.eq_swap
  isLE_trans {a b c} hab hbc := by
    cases a <;> cases b <;> cases c <;> simp_all [compare_eq, Conditional.cmp]
    all_goals exact TransCmp.isLE_trans hab hbc

end Conditional

/-- `count_logical_slashes`: runs of slashes before the trailing ones. -/
def countLogicalSlashes (s : Str) : Nat :=
  if s.isEmpty then 0
  else
    let trimmed := s.rdropWhile (· == '/')
    if trimmed.isEmpty then 0
    else
      (trimmed.foldl (fun (state : Nat × Bool) ch =>
        if ch == '/' then (if state.2 then state else (state.1 + 1, true)) else (state.1, false))
        (0, false)).1

/-- The struct containing conditions. -/
structure Conditions where
  /-- The location prefix. -/
  locationPrefix : Str
  /-- The conditionals. -/
  conditionals : List Conditional

namespace Conditions

/-- The derived `==`. -/
protected def eq (a b : Conditions) : Bool :=
  a.locationPrefix == b.locationPrefix && a.conditionals == b.conditionals

instance : BEq Conditions := ⟨Conditions.eq⟩

/-- `cmp`: only the depth of the location and the number of conditionals count. -/
protected def cmp : Conditions → Conditions → Ordering :=
  compareLex (compareOn fun c => countLogicalSlashes c.locationPrefix)
    (compareOn fun c => c.conditionals.length)

instance : Ord Conditions := ⟨Conditions.cmp⟩

instance : TransOrd Conditions :=
  inferInstanceAs (TransCmp (compareLex
    (compareOn fun c : Conditions => countLogicalSlashes c.locationPrefix)
    (compareOn fun c => c.conditionals.length)))

theorem beq_eq (a b : Conditions) :
    (a == b) = (a.locationPrefix == b.locationPrefix && a.conditionals == b.conditionals) := rfl

instance : EquivBEq Conditions where
  rfl := by simp [beq_eq]
  symm h := by
    simp only [beq_eq, Bool.and_eq_true] at h ⊢
    exact ⟨PartialEquivBEq.symm h.1, PartialEquivBEq.symm h.2⟩
  trans h₁ h₂ := by
    simp only [beq_eq, Bool.and_eq_true] at h₁ h₂ ⊢
    exact ⟨PartialEquivBEq.trans h₁.1 h₂.1, PartialEquivBEq.trans h₁.2 h₂.2⟩

end Conditions

end Ferron.Common
