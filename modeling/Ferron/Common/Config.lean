import Ferron.Common.Conditions

/-!
# Server configurations

A configuration has entries under property names and filters that say where it applies. The loaded
modules and the observability channels of a configuration are filled in after the processing that is
modelled here.
-/

set_option autoImplicit false

namespace Ferron.Common

open Std

/-- A specific server configuration value. A float is given by its bits. -/
inductive ServerConfigurationValue where
  | string (value : Str)
  | integer (value : Int)
  | float (bits : UInt64)
  | bool (value : Bool)
  | null
  deriving DecidableEq, Repr

namespace ServerConfigurationValue

/-- `is_null`. -/
def isNull : ServerConfigurationValue → Bool
  | null => true
  | _ => false

/-- `as_str`. -/
def asStr : ServerConfigurationValue → Option Str
  | string value => some value
  | _ => none

/-- `as_i128`. -/
def asI128 : ServerConfigurationValue → Option Int
  | integer value => some value
  | _ => none

/-- `as_bool`. -/
def asBool : ServerConfigurationValue → Option Bool
  | bool value => some value
  | _ => none

end ServerConfigurationValue

/-- A specific server configuration entry. -/
structure ServerConfigurationEntry where
  values : List ServerConfigurationValue
  props : HashMap Str ServerConfigurationValue
  deriving DecidableEq

/-- A specific list of server configuration entries. -/
structure ServerConfigurationEntries where
  inner : List ServerConfigurationEntry
  deriving DecidableEq

namespace ServerConfigurationEntries

/-- `get_value`: the first value of the last entry. -/
def getValue (entries : ServerConfigurationEntries) : Option ServerConfigurationValue :=
  entries.inner.getLast?.bind fun entry => entry.values.head?

/-- `get_entry`: the last entry. -/
def getEntry (entries : ServerConfigurationEntries) : Option ServerConfigurationEntry :=
  entries.inner.getLast?

/-- `get_values`: the values of all entries. -/
def getValues (entries : ServerConfigurationEntries) : List ServerConfigurationValue :=
  entries.inner.flatMap ServerConfigurationEntry.values

end ServerConfigurationEntries

/-- An error handler status code. -/
inductive ErrorHandlerStatus where
  | any
  | status (code : UInt16)
  deriving DecidableEq, Repr

namespace ErrorHandlerStatus

/-- The derived `cmp`. -/
protected def cmp : ErrorHandlerStatus → ErrorHandlerStatus → Ordering
  | any, any => .eq
  | any, status _ => .lt
  | status _, any => .gt
  | status a, status b => compare a b

instance : Ord ErrorHandlerStatus := ⟨ErrorHandlerStatus.cmp⟩

theorem compare_eq (a b : ErrorHandlerStatus) : compare a b = ErrorHandlerStatus.cmp a b := rfl

instance : LawfulEqOrd ErrorHandlerStatus where
  compare_self {a} := by
    cases a <;> simp [compare_eq, ErrorHandlerStatus.cmp]
  eq_of_compare {a b} h := by
    cases a <;> cases b <;> simp_all [compare_eq, ErrorHandlerStatus.cmp]

instance : TransOrd ErrorHandlerStatus where
  eq_swap {a b} := by
    cases a <;> cases b <;> simp only [compare_eq, ErrorHandlerStatus.cmp, Ordering.swap]
    exact OrientedCmp.eq_swap
  isLE_trans {a b c} hab hbc := by
    cases a <;> cases b <;> cases c <;> simp_all [compare_eq, ErrorHandlerStatus.cmp]
    exact TransCmp.isLE_trans hab hbc

end ErrorHandlerStatus

/-- A server configuration filter. -/
structure ServerConfigurationFilters where
  /-- Whether the configuration represents a host block. -/
  isHost : Bool
  /-- The hostname. -/
  hostname : Option Str
  /-- The IP address. -/
  ip : Option IpAddr
  /-- The port. -/
  port : Option UInt16
  /-- The conditions. -/
  condition : Option Conditions
  /-- The error handler status code. -/
  errorHandlerStatus : Option ErrorHandlerStatus

namespace ServerConfigurationFilters

/-- The derived `==`. -/
protected def eq (a b : ServerConfigurationFilters) : Bool :=
  a.isHost == b.isHost && a.hostname == b.hostname && a.ip == b.ip && a.port == b.port &&
    a.condition == b.condition && a.errorHandlerStatus == b.errorHandlerStatus

instance : BEq ServerConfigurationFilters := ⟨ServerConfigurationFilters.eq⟩

theorem beq_iff (a b : ServerConfigurationFilters) :
    (a == b) = true ↔ a.isHost = b.isHost ∧ a.hostname = b.hostname ∧ a.ip = b.ip ∧
      a.port = b.port ∧ (a.condition == b.condition) = true ∧
      a.errorHandlerStatus = b.errorHandlerStatus := by
  change ServerConfigurationFilters.eq a b = true ↔ _
  simp only [ServerConfigurationFilters.eq, Bool.and_eq_true, beq_iff_eq, and_assoc]

instance : EquivBEq ServerConfigurationFilters where
  rfl := by simp [beq_iff]
  symm h := by
    rw [beq_iff] at h ⊢
    exact ⟨h.1.symm, h.2.1.symm, h.2.2.1.symm, h.2.2.2.1.symm, PartialEquivBEq.symm h.2.2.2.2.1,
      h.2.2.2.2.2.symm⟩
  trans h₁ h₂ := by
    rw [beq_iff] at h₁ h₂ ⊢
    exact ⟨h₁.1.trans h₂.1, h₁.2.1.trans h₂.2.1, h₁.2.2.1.trans h₂.2.2.1,
      h₁.2.2.2.1.trans h₂.2.2.2.1, PartialEquivBEq.trans h₁.2.2.2.2.1 h₂.2.2.2.2.1,
      h₁.2.2.2.2.2.trans h₂.2.2.2.2.2⟩

/-- `is_global`. -/
def isGlobal (filters : ServerConfigurationFilters) : Bool :=
  filters.isHost && filters.hostname.isNone && filters.ip.isNone && filters.port.isNone &&
    filters.condition.isNone && filters.errorHandlerStatus.isNone

/-- `is_global_non_host`. -/
def isGlobalNonHost (filters : ServerConfigurationFilters) : Bool := !filters.isHost

/-- `!h.starts_with("*.")`. -/
def notWildcard (hostname : Str) : Bool := !("*.".toList.isPrefixOf hostname)

/-- The number of dots in a hostname without its trailing dots. -/
def domainLevel (hostname : Str) : Nat := ((hostname.rdropWhile (· == '.')).filter (· == '.')).length

/-- `cmp`: the specificity of filters. -/
protected def cmp : ServerConfigurationFilters → ServerConfigurationFilters → Ordering :=
  compareLex (compareOn isHost)
    (compareLex (compareOn fun filters => filters.port.isSome)
      (compareLex (compareOn fun filters => filters.ip.isSome)
        (compareLex (compareOn fun filters => filters.hostname.map notWildcard)
          (compareLex (compareOn fun filters => filters.hostname.map domainLevel)
            (compareLex (compareOn condition)
              (compareOn fun filters => filters.errorHandlerStatus.isSome))))))

instance : TransCmp ServerConfigurationFilters.cmp := by
  unfold ServerConfigurationFilters.cmp
  infer_instance

end ServerConfigurationFilters

/-- A specific server configuration. -/
structure ServerConfiguration where
  /-- Entries for the configuration. -/
  entries : HashMap Str ServerConfigurationEntries
  /-- Configuration filters. -/
  filters : ServerConfigurationFilters

namespace ServerConfiguration

/-- `get_entries!`: the entries of a property, when the last one of them has a value. -/
def getEntries (config : ServerConfiguration) (name : Str) : Option ServerConfigurationEntries :=
  (config.entries.lookup name).bind fun entries => entries.getValue.map fun _ => entries

/-- `get_entry!`. -/
def getEntry (config : ServerConfiguration) (name : Str) : Option ServerConfigurationEntry :=
  (config.getEntries name).bind ServerConfigurationEntries.getEntry

/-- `get_value!`. -/
def getValue (config : ServerConfiguration) (name : Str) : Option ServerConfigurationValue :=
  (config.getEntries name).bind ServerConfigurationEntries.getValue

/-- `get_values!`. -/
def getValues (config : ServerConfiguration) (name : Str) : List ServerConfigurationValue :=
  ((config.getEntries name).map ServerConfigurationEntries.getValues).getD []

end ServerConfiguration

end Ferron.Common
