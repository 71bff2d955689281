import Ferron.Rust.Text
import Mathlib.Data.List.AList

/-!
# Hash maps and hash sets

A `HashMap` is a list of entries with different keys and a `HashSet` is a list without repetitions.
The list is the order in which the table is iterated. Rust seeds every table anew, so two equal sets
may have different orders; the order of one table does not change while it is not modified.

Equality of vectors and options is that of their elements, so it is an equivalence when theirs is.
-/

set_option autoImplicit false

namespace Ferron

section Elementwise

variable {α : Type} [BEq α]

theorem list_cons_beq_cons (a b : α) (as bs : List α) :
    (a :: as == b :: bs) = (a == b && as == bs) := rfl

theorem list_beq_symm [PartialEquivBEq α] :
    ∀ {as bs : List α}, (as == bs) = true → (bs == as) = true
  | [], [], _ => rfl
  | [], _ :: _, h => h
  | _ :: _, [], h => h
  | a :: as, b :: bs, h => by
      rw [list_cons_beq_cons, Bool.and_eq_true] at h ⊢
      exact ⟨PartialEquivBEq.symm h.1, list_beq_symm h.2⟩

theorem list_beq_trans [PartialEquivBEq α] :
    ∀ {as bs cs : List α}, (as == bs) = true → (bs == cs) = true → (as == cs) = true
  | [], [], _, _, h => h
  | [], _ :: _, _, h, _ => absurd h Bool.false_ne_true
  | _ :: _, [], _, h, _ => absurd h Bool.false_ne_true
  | _ :: _, _ :: _, [], _, h => absurd h Bool.false_ne_true
  | a :: as, b :: bs, c :: cs, h₁, h₂ => by
      rw [list_cons_beq_cons, Bool.and_eq_true] at h₁ h₂ ⊢
      exact ⟨PartialEquivBEq.trans h₁.1 h₂.1, list_beq_trans h₁.2 h₂.2⟩

instance equivBEqList [EquivBEq α] : EquivBEq (List α) where
  symm := list_beq_symm
  trans := list_beq_trans

instance equivBEqOption [EquivBEq α] : EquivBEq (Option α) where
  rfl {a} := by
    cases a <;> simp
  symm {a b} h := by
    cases a <;> cases b <;> simp_all [BEq.comm]
  trans {a b c} h₁ h₂ := by
    cases a <;> cases b <;> cases c <;> simp_all
    exact PartialEquivBEq.trans h₁ h₂

end Elementwise

/-- A hash map, with its iteration order. -/
abbrev HashMap (κ ν : Type) := AList fun _ : κ => ν

/-- A hash set, with its iteration order. -/
structure HashSet (α : Type) where
  iter : List α
  nodup : iter.Nodup

namespace HashSet

variable {α : Type}

/-- `HashSet::new`. -/
def new : HashSet α := ⟨[], List.nodup_nil⟩

variable [DecidableEq α]

/-- `contains`. -/
def contains (s : HashSet α) (x : α) : Bool := s.iter.contains x

/-- `==` of hash sets: equal sizes, and each element of the first is in the second. -/
protected def eq (s t : HashSet α) : Bool :=
  s.iter.length = t.iter.length && s.iter.all fun x => t.contains x

instance : BEq (HashSet α) := ⟨HashSet.eq⟩

/-- How a table with some keys of its hasher arranges its elements. -/
structure TableOrder (β : Type) where
  arrange : List β → List β
  perm : ∀ l, (arrange l).Perm l

/-- `insert`. The table may be arranged anew. -/
def insert (order : TableOrder α) (s : HashSet α) (x : α) : HashSet α :=
  if hx : x ∈ s.iter then s
  else ⟨order.arrange (x :: s.iter),
    (order.perm _).nodup_iff.2 (List.nodup_cons.2 ⟨hx, s.nodup⟩)⟩

/-- Equality of hash sets does not see the iteration order. -/
theorem beq_iff_perm {s t : HashSet α} : (s == t) = true ↔ s.iter.Perm t.iter := by
  change HashSet.eq s t = true ↔ _
  simp only [HashSet.eq, contains, Bool.and_eq_true, decide_eq_true_eq, List.all_eq_true,
    List.contains_eq_mem]
  constructor
  · rintro ⟨hlength, hsubset⟩
    exact (List.subperm_of_subset s.nodup hsubset).perm_of_length_le (Nat.le_of_eq hlength.symm)
  · intro h
    exact ⟨h.length_eq, fun x hx => h.mem_iff.1 hx⟩

instance : ReflBEq (HashSet α) where
  rfl := beq_iff_perm.2 (List.Perm.refl _)

instance : EquivBEq (HashSet α) where
  symm h := beq_iff_perm.2 (beq_iff_perm.1 h).symm
  trans h₁ h₂ := beq_iff_perm.2 ((beq_iff_perm.1 h₁).trans (beq_iff_perm.1 h₂))

end HashSet

end Ferron
