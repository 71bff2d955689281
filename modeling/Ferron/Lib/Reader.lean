import Mathlib.Data.List.Basic

/-!
# Readers that may go back

A `Reader` takes something off the front of an input or fails, and then nothing has been taken. What is
shown about readers is put together along their definitions: that a delimiter and what comes behind it does
not matter to one (`Stops`), and what it has taken (`Takes`).
-/

set_option autoImplicit false

namespace Ferron.Lib

/-- A reader of values in `α` from inputs of elements in `β`. -/
def Reader (β α : Type) : Type := List β → Option (α × List β)

namespace Reader

variable {β α γ : Type}

instance : Monad (Reader β) where
  pure a := fun input => some (a, input)
  bind reader next := fun input => (reader input).bind fun result => next result.1 result.2

/-- Nothing can be read. -/
def fail : Reader β α := fun _ => none

/-- The second reader, where the first one fails. -/
def orElse (reader other : Reader β α) : Reader β α := fun input => (reader input).or (other input)

/-- A reader whose failure is a result. -/
def optional (reader : Reader β α) : Reader β (Option α) := fun input =>
  match reader input with
  | some (a, rest) => some (some a, rest)
  | none => some (none, input)

/-- What is read from an input that has nothing more. -/
def readAll (reader : Reader β α) (input : List β) : Option α :=
  match reader input with
  | some (a, []) => some a
  | _ => none

theorem bind_apply (reader : Reader β α) (next : α → Reader β γ) (input : List β) :
    (reader >>= next) input = (reader input).bind fun result => next result.1 result.2 := rfl

theorem bind_eq_some_iff {reader : Reader β α} {next : α → Reader β γ} {input rest : List β} {c : γ} :
    (reader >>= next) input = some (c, rest) ↔
      ∃ a middle, reader input = some (a, middle) ∧ next a middle = some (c, rest) := by
  rw [bind_apply, Option.bind_eq_some_iff]
  exact ⟨fun ⟨result, h⟩ => ⟨result.1, result.2, h⟩, fun ⟨a, middle, h⟩ => ⟨(a, middle), h⟩⟩

theorem readAll_eq_some_iff {reader : Reader β α} {input : List β} {a : α} :
    reader.readAll input = some a ↔ reader input = some (a, []) := by
  unfold readAll
  split
  · next found hread =>
      rw [hread, Option.some.injEq, Option.some.injEq, Prod.mk.injEq, and_iff_left rfl]
  · next hnot =>
      refine iff_of_false (by simp) fun h => ?_
      exact hnot a h

/-! ## Delimiters -/

/-- A delimiter ends what the reader looks at. -/
def Stops (delimiter : β) (reader : Reader β α) : Prop :=
  ∀ front back, reader (front ++ delimiter :: back) =
    (reader front).map fun result => (result.1, result.2 ++ delimiter :: back)

namespace Stops

variable {delimiter : β} {reader other : Reader β α} {next : α → Reader β γ}

theorem pure (a : α) : Stops delimiter (Pure.pure a : Reader β α) := fun _ _ => rfl

theorem fail : Stops delimiter (fail : Reader β α) := fun _ _ => rfl

theorem bind (h : Stops delimiter reader) (hnext : ∀ a, Stops delimiter (next a)) :
    Stops delimiter (reader >>= next) := by
  intro front back
  rw [bind_apply, bind_apply, h]
  cases reader front with
  | none => rfl
  | some result => exact hnext result.1 result.2 back

theorem orElse (h : Stops delimiter reader) (hother : Stops delimiter other) :
    Stops delimiter (reader.orElse other) := by
  intro front back
  rw [Reader.orElse, Reader.orElse, h, hother]
  cases reader front with
  | none => rfl
  | some result => rfl

theorem optional (h : Stops delimiter reader) : Stops delimiter reader.optional := by
  intro front back
  rw [Reader.optional, Reader.optional, h]
  cases reader front with
  | none => rfl
  | some result => rfl

end Stops

/-! ## What is taken -/

/-- Whatever the reader takes off the front, and gives, satisfies a relation. -/
def Takes (reader : Reader β α) (P : List β → α → Prop) : Prop :=
  ∀ input a rest, reader input = some (a, rest) → ∃ taken, input = taken ++ rest ∧ P taken a

namespace Takes

variable {reader other : Reader β α} {next : α → Reader β γ} {P : List β → α → Prop}
  {Q : α → List β → γ → Prop} {R : List β → γ → Prop}

theorem pure {a : α} (h : P [] a) : Takes (Pure.pure a : Reader β α) P := by
  rintro input _ _ ⟨⟩
  exact ⟨[], rfl, h⟩

theorem fail : Takes (fail : Reader β α) P := fun _ _ _ h => nomatch h

theorem bind (h : Takes reader P) (hnext : ∀ a, Takes (next a) (Q a))
    (hboth : ∀ front a back c, P front a → Q a back c → R (front ++ back) c) :
    Takes (reader >>= next) R := by
  intro input c rest hread
  obtain ⟨a, middle, hfirst, hsecond⟩ := bind_eq_some_iff.1 hread
  obtain ⟨front, rfl, hfront⟩ := h input a middle hfirst
  obtain ⟨back, rfl, hback⟩ := hnext a middle c rest hsecond
  exact ⟨front ++ back, (List.append_assoc _ _ _).symm, hboth front a back c hfront hback⟩

theorem orElse (h : Takes reader P) (hother : Takes other P) : Takes (reader.orElse other) P := by
  intro input a rest hread
  rcases Option.or_eq_some_iff.1 hread with hfirst | ⟨-, hsecond⟩
  · exact h input a rest hfirst
  · exact hother input a rest hsecond

/-- When the reader fails, nothing is taken. -/
theorem optional (h : Takes reader P) :
    Takes reader.optional fun taken result => result.elim (taken = []) (P taken) := by
  intro input result rest hread
  unfold Reader.optional at hread
  split at hread
  · next a _ hfirst =>
      obtain ⟨rfl, rfl⟩ := Prod.mk.inj (Option.some.inj hread)
      exact h input a _ hfirst
  · obtain ⟨rfl, rfl⟩ := Prod.mk.inj (Option.some.inj hread)
    exact ⟨[], rfl, rfl⟩

theorem mono {P' : List β → α → Prop} (h : Takes reader P) (himp : ∀ taken a, P taken a → P' taken a) :
    Takes reader P' := by
  intro input a rest hread
  obtain ⟨taken, hinput, htaken⟩ := h input a rest hread
  exact ⟨taken, hinput, himp taken a htaken⟩

end Takes

end Reader

end Ferron.Lib
