import Ferron.Common.Config

/-!
# Reading subconditions

`parseConditionalData` reads a directive of a `condition` block. Regular expressions and Rego policies
are compiled by other libraries.
-/

set_option autoImplicit false

namespace Ferron.Config

open Ferron.Common

/-- What subconditions are read with. -/
structure Libraries extends IpBlockList.Reading where
  /-- `RegexBuilder`: a pattern, and whether the case of letters is ignored. -/
  buildRegex : Str → Bool → Except Str Regex
  /-- `add_policy` of a new engine. -/
  addPolicy : Str → Except Str RegoEngine

/-- Libraries that read no addresses. -/
def plainLibraries : Libraries where
  parseIpAddr _ := none
  parseIpCidr _ := none
  ipOrder _ := ⟨id, fun _ => List.Perm.refl _⟩
  cidrOrder _ := ⟨id, fun _ => List.Perm.refl _⟩
  buildRegex pattern caseInsensitive := .ok ⟨pattern, caseInsensitive⟩
  addPolicy policy := .ok ⟨[policy], some [policy], fun _ h => (Option.some.inj h).symm⟩

/-- The value of an entry at an index, if it is a text. -/
def strValue (value : ServerConfigurationEntry) (i : Nat) (message : String) : Except Str Str :=
  match value.values[i]?.bind ServerConfigurationValue.asStr with
  | some s => .ok s
  | none => .error message.toList

/-- The address list of a subcondition. -/
def ipList (libraries : Libraries) (table : Nat) (value : ServerConfigurationEntry) : IpBlockList :=
  .loadFromVec libraries.toReading table .new
    (value.values.filterMap ServerConfigurationValue.asStr)

/-- The regular expression of a subcondition, with the text that it is matched against. -/
def regexValue (libraries : Libraries) (value : ServerConfigurationEntry)
    (leftMessage rightMessage : String) : Except Str (Str × Regex) := do
  let leftSide ← strValue value 0 leftMessage
  let rightSide ← strValue value 1 rightMessage
  let regex ← libraries.buildRegex rightSide
    (((value.props.lookup "case_insensitive".toList).bind ServerConfigurationValue.asBool).getD
      false)
  pure (leftSide, regex)

/-- `parse_conditional_data`. Its address lists have the tables of the given number. -/
def parseConditionalData (libraries : Libraries) (table : Nat) (name : Str)
    (value : ServerConfigurationEntry) : Except Str ConditionalData :=
  if name = "is_remote_ip".toList then .ok (.isRemoteIp (ipList libraries table value))
  else if name = "is_forwarded_for".toList then
    .ok (.isForwardedFor (ipList libraries table value))
  else if name = "is_not_remote_ip".toList then
    .ok (.isNotRemoteIp (ipList libraries table value))
  else if name = "is_not_forwarded_for".toList then
    .ok (.isNotForwardedFor (ipList libraries table value))
  else if name = "is_equal".toList then do
    let left ← strValue value 0 "Missing or invalid left side of a \"is_equal\" subcondition"
    let right ← strValue value 1 "Missing or invalid right side of a \"is_equal\" subcondition"
    pure (.isEqual left right)
  else if name = "is_not_equal".toList then do
    let left ← strValue value 0 "Missing or invalid left side of a \"is_not_equal\" subcondition"
    let right ← strValue value 1
      "Missing or invalid right side of a \"is_not_equal\" subcondition"
    pure (.isNotEqual left right)
  else if name = "is_regex".toList then do
    let (left, regex) ← regexValue libraries value
      "Missing or invalid left side of a \"is_regex\" subcondition"
      "Missing or invalid right side of a \"is_regex\" subcondition"
    pure (.isRegex left regex)
  else if name = "is_not_regex".toList then do
    let (left, regex) ← regexValue libraries value
      "Missing or invalid left side of a \"is_not_regex\" subcondition"
      "Missing or invalid right side of a \"is_not_regex\" subcondition"
    pure (.isNotRegex left regex)
  else if name = "is_rego".toList then do
    let policy ← strValue value 0 "Missing or invalid Rego policy"
    let engine ← libraries.addPolicy policy
    pure (.isRego engine)
  else if name = "set_constant".toList then do
    let constant ← strValue value 0
      "Missing or invalid constant name in a \"set_constant\" subcondition"
    let text ← strValue value 1
      "Missing or invalid constant value in a \"set_constant\" subcondition"
    pure (.setConstant constant text)
  else if name = "is_language".toList then do
    let language ← strValue value 0
      "Missing or invalid desired language in a \"is_language\" subcondition"
    pure (.isLanguage language)
  else .error ("Unrecognized subcondition: ".toList ++ name)

end Ferron.Config
