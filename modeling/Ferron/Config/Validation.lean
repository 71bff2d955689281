import Ferron.Config.Kdl

/-!
# Loading and validation of modules

A module is loaded for a configuration when one of the directives that it requires has a value that is
neither null nor false. Its validation goes through the directives of a name. The macros that read these
look at the last directive first: when it has no value, all of them are as if they were missing. The
adapters give every directive a value (`hasValues_addDirective`), so the validation of a name goes through
all of them (`checkEntries_eq_ok_iff`).
-/

set_option autoImplicit false

namespace Ferron.Config

open Ferron.Common

/-! ## Kinds of values -/

/-- `is_string`. -/
def isString (value : ServerConfigurationValue) : Bool := value.asStr.isSome

/-- `is_integer`. -/
def isInteger (value : ServerConfigurationValue) : Bool := value.asI128.isSome

/-- `is_bool`. -/
def isBool (value : ServerConfigurationValue) : Bool := value.asBool.isSome

@[simp] theorem isString_iff {value : ServerConfigurationValue} :
    isString value = true ↔ ∃ text, value = .string text := by
  cases value <;> simp [isString, ServerConfigurationValue.asStr]

@[simp] theorem isInteger_iff {value : ServerConfigurationValue} :
    isInteger value = true ↔ ∃ number, value = .integer number := by
  cases value <;> simp [isInteger, ServerConfigurationValue.asI128]

@[simp] theorem isBool_iff {value : ServerConfigurationValue} :
    isBool value = true ↔ ∃ flag, value = .bool flag := by
  cases value <;> simp [isBool, ServerConfigurationValue.asBool]

/-! ## The directives of a name -/

/-- The directives of a name in a configuration. -/
def directivesOf (config : ServerConfiguration) (name : Str) : List ServerConfigurationEntry :=
  ((config.entries.lookup name).map ServerConfigurationEntries.inner).getD []

/-- Every directive of the name has a value. -/
def HasValues (config : ServerConfiguration) (name : Str) : Prop :=
  ∀ entry ∈ directivesOf config name, entry.values ≠ []

/-- `validate_configuration` for the directives of a name. -/
def checkEntries (check : ServerConfigurationEntry → Except Str Unit) (config : ServerConfiguration)
    (name : Str) : Except Str Unit :=
  match config.getEntries name with
  | none => .ok ()
  | some entries => entries.inner.forM check

/-- Whether the module with the required directives is loaded. -/
def requirementsMet (requirements : List Str) (config : ServerConfiguration) : Bool :=
  requirements.any fun requirement =>
    ((config.entries.lookup requirement).bind ServerConfigurationEntries.getValue).any fun value =>
      !value.isNull && value.asBool.getD true

/-! ## Checks -/

/-- A list of checks passes when each of them does. -/
theorem forM_eq_ok_iff {α ε : Type} {check : α → Except ε Unit} {items : List α} :
    items.forM check = .ok () ↔ ∀ item ∈ items, check item = .ok () := by
  induction items with
  | nil => simp [pure, Except.pure]
  | cons item items ih =>
      rw [List.forall_mem_cons, ← ih, List.forM_eq_forM, List.forM_cons]
      cases hitem : check item with
      | error err =>
          constructor
          · intro h
            cases h
          · rintro ⟨h, -⟩
            cases h
      | ok passed => exact ⟨fun h => ⟨rfl, h⟩, fun h => h.2⟩

/-- A check that comes before others. -/
theorem ite_error_eq_ok_iff {ε : Type} {failed : Prop} [Decidable failed] {err : ε}
    {rest : Except ε Unit} :
    (if failed then .error err else rest) = .ok () ↔ ¬failed ∧ rest = .ok () := by
  split
  · rename_i hfailed
    refine ⟨fun h => ?_, fun h => absurd hfailed h.1⟩
    cases h
  · rename_i hpassed
    exact ⟨fun h => ⟨hpassed, h⟩, fun h => h.2⟩

section Directives

variable {config : ServerConfiguration} {name : Str}

/-- The directives are seen when the last one has a value. -/
theorem getEntries_eq (hvalues : HasValues config name) :
    config.getEntries name =
      if directivesOf config name = [] then none else some ⟨directivesOf config name⟩ := by
  rw [HasValues, directivesOf] at hvalues
  rw [ServerConfiguration.getEntries, directivesOf]
  cases hlookup : config.entries.lookup name with
  | none => rfl
  | some entries =>
      rw [hlookup] at hvalues
      dsimp only [Option.bind_some, Option.map_some, Option.getD_some] at hvalues ⊢
      rw [ServerConfigurationEntries.getValue]
      split
      · rename_i hnil
        rw [hnil]
        rfl
      · rename_i hne
        -- the last directive has a first value
        have hlast : entries.inner.getLast? = some (entries.inner.getLast hne) :=
          List.getLast?_eq_some_getLast hne
        obtain ⟨value, rest, hvalue⟩ :=
          List.exists_cons_of_ne_nil (hvalues _ (List.getLast_mem hne))
        rw [hlast, Option.bind_some, hvalue]
        rfl

theorem getValues_eq (hvalues : HasValues config name) :
    config.getValues name = (directivesOf config name).flatMap ServerConfigurationEntry.values := by
  rw [ServerConfiguration.getValues, getEntries_eq hvalues]
  split
  · rename_i hnil
    rw [hnil]
    rfl
  · rfl

/-- The checks go through all directives of the name. -/
theorem checkEntries_eq_ok_iff (hvalues : HasValues config name)
    {check : ServerConfigurationEntry → Except Str Unit} :
    checkEntries check config name = .ok () ↔ ∀ entry ∈ directivesOf config name, check entry = .ok () := by
  rw [checkEntries, getEntries_eq hvalues]
  by_cases hnil : directivesOf config name = []
  · rw [if_pos hnil, hnil]
    simp
  · rw [if_neg hnil]
    exact forM_eq_ok_iff

end Directives

/-! ## What the adapters give -/

theorem values_ne_nil_kdlNodeToConfigurationEntry (node : KdlNode) :
    (kdlNodeToConfigurationEntry node).values ≠ [] := by
  rw [kdlNodeToConfigurationEntry]
  dsimp only
  split
  · exact List.cons_ne_nil _ _
  · rename_i hvalues
    exact fun hnil => hvalues (by rw [hnil]; rfl)

/-- Every directive of a block has a value. -/
theorem hasValues_addDirective {entries : HashMap Str ServerConfigurationEntries}
    (h : ∀ name present, entries.lookup name = some present → ∀ entry ∈ present.inner, entry.values ≠ [])
    (node : KdlNode) :
    ∀ name present, (addDirective entries node).lookup name = some present →
      ∀ entry ∈ present.inner, entry.values ≠ [] := by
  intro name present hpresent entry hentry
  have hnew := values_ne_nil_kdlNodeToConfigurationEntry node
  by_cases hname : name = node.name
  · rw [hname, addDirective] at hpresent
    cases hold : entries.lookup node.name with
    | none =>
        rw [hold] at hpresent
        dsimp only at hpresent
        rw [AList.lookup_insert, Option.some.injEq] at hpresent
        rw [← hpresent] at hentry
        rwa [List.mem_singleton.1 hentry]
    | some before =>
        rw [hold] at hpresent
        dsimp only at hpresent
        rw [AList.lookup_insert, Option.some.injEq] at hpresent
        rw [← hpresent] at hentry
        rcases List.mem_append.1 hentry with hbefore | hlast
        · exact h node.name before hold entry hbefore
        · rwa [List.mem_singleton.1 hlast]
  · -- another name keeps its directives
    have hother : (addDirective entries node).lookup name = entries.lookup name := by
      rw [addDirective]
      cases entries.lookup node.name with
      | none => exact AList.lookup_insert_ne hname
      | some before => exact AList.lookup_insert_ne hname
    rw [hother] at hpresent
    exact h name present hpresent entry hentry

end Ferron.Config
