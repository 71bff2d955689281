import Ferron.Rust.Text
import Mathlib.Tactic

/-!
# 64-bit numbers

Arithmetic on `u64` panics on an overflow in a build with overflow checks and wraps around in one
without. Where the result fits, both builds compute it (`addU64_of_lt`, `subU64_of_le`). Numbers are
read from a text by `u64FromStr`.
-/

set_option autoImplicit false

namespace Ferron

/-- The panic of a build with overflow checks. -/
inductive Overflow where
  | add
  | sub
  deriving DecidableEq, Repr

/-- `a + b`, with or without overflow checks. -/
def addU64 (checks : Bool) (a b : UInt64) : Except Overflow UInt64 :=
  if checks && 2 ^ 64 ≤ a.toNat + b.toNat then .error .add else .ok (a + b)

/-- `a - b`, with or without overflow checks. -/
def subU64 (checks : Bool) (a b : UInt64) : Except Overflow UInt64 :=
  if checks && a < b then .error .sub else .ok (a - b)

theorem addU64_of_lt (checks : Bool) {a b : UInt64} (h : a.toNat + b.toNat < 2 ^ 64) :
    ∃ c, addU64 checks a b = .ok c ∧ c.toNat = a.toNat + b.toNat := by
  refine ⟨a + b, ?_, ?_⟩
  · rw [addU64, if_neg]
    simp only [Bool.and_eq_true, decide_eq_true_eq, not_and, not_le]
    exact fun _ => h
  · rw [UInt64.toNat_add, Nat.mod_eq_of_lt h]

theorem subU64_of_le (checks : Bool) {a b : UInt64} (h : b.toNat ≤ a.toNat) :
    ∃ c, subU64 checks a b = .ok c ∧ c.toNat = a.toNat - b.toNat := by
  refine ⟨a - b, ?_, UInt64.toNat_sub_of_le a b (UInt64.le_iff_toNat_le.2 h)⟩
  rw [subU64, if_neg]
  simp only [Bool.and_eq_true, decide_eq_true_eq, not_and, UInt64.lt_iff_toNat_lt, not_lt]
  exact fun _ => h

/-- A difference below zero panics in a build with overflow checks. -/
theorem subU64_of_lt {a b : UInt64} (h : a.toNat < b.toNat) : subU64 true a b = .error .sub := by
  rw [subU64, if_pos]
  simpa [UInt64.lt_iff_toNat_lt] using h

/-- The number of a text: decimal digits behind at most one plus sign. -/
def natFromStr (s : Str) : Option Nat :=
  let digits := if s.head? = some '+' then s.tail else s
  if digits ≠ [] ∧ digits.all Char.isDigit then some (Nat.ofDigitChars 10 digits 0) else none

/-- `u64::from_str`, with the error dropped. -/
def u64FromStr (s : Str) : Option UInt64 :=
  (natFromStr s).bind fun n => if n < 2 ^ 64 then some (UInt64.ofNat n) else none

theorem u64FromStr_eq_some_iff {s : Str} {n : UInt64} :
    u64FromStr s = some n ↔ natFromStr s = some n.toNat := by
  rw [u64FromStr, Option.bind_eq_some_iff]
  constructor
  · rintro ⟨k, hk, hn⟩
    split at hn
    · rename_i hlt
      rw [hk, ← Option.some.inj hn, UInt64.toNat_ofNat_of_lt' hlt]
    · exact absurd hn (Option.some_ne_none n).symm
  · intro h
    refine ⟨n.toNat, h, ?_⟩
    rw [if_pos n.toNat_lt, UInt64.ofNat_toNat]

/-- A number is not read when its text is none or it does not fit. -/
theorem u64FromStr_eq_none_iff {s : Str} :
    u64FromStr s = none ↔ ∀ n, natFromStr s = some n → 2 ^ 64 ≤ n := by
  rw [u64FromStr, Option.bind_eq_none_iff]
  constructor
  · intro h n hn
    by_contra hlt
    exact absurd (h n hn) (by rw [if_pos (Nat.lt_of_not_le hlt)]; exact Option.some_ne_none _)
  · intro h n hn
    rw [if_neg (Nat.not_lt.2 (h n hn))]

end Ferron
