import Ferron.Config.ConditionalData
import Ferron.Config.Validation
import Ferron.Modules.BruteForce

/-!
# Status rules

A `status` directive has a code and properties that say when it applies and what is answered. The module is
validated by one list of checks over the properties and loaded by another one, which leaves out a property
that is not of the type it reads.

The checks look at `brute_protection` twice, the second time where the lists of clients stand in the loading.
`inStep_iff` says for which directives validation and loading agree nevertheless.
-/

set_option autoImplicit false

namespace Ferron.Modules.StatusRules

open Ferron.Common Ferron.Config
open BruteForce (NonStandardCode)

/-! ## Validation -/

/-- Whether a property is absent or passes a test. -/
def isNoneOr (entry : ServerConfigurationEntry) (name : String)
    (test : ServerConfigurationValue → Bool) : Bool :=
  (entry.props.lookup name.toList).all test

/-- The check of a `status` directive. -/
def checkStatus (entry : ServerConfigurationEntry) : Except Str Unit :=
  if entry.values.length ≠ 1 then
    .error "The `status` configuration property must have exactly one value".toList
  else if ¬entry.values.head?.any isInteger then
    .error "The custom status code must be a string".toList
  else if ¬isNoneOr entry "url" isString then
    .error "The custom status code URL must be a string".toList
  else if ¬isNoneOr entry "regex" isString then
    .error "The custom status code regular expression must be a string".toList
  else if ¬isNoneOr entry "location" isString then
    .error "The custom status code redirect destination must be a string".toList
  else if ¬isNoneOr entry "realm" isString then
    .error "The custom status code HTTP authentication realm must be a string".toList
  else if ¬isNoneOr entry "brute_protection" isBool then
    .error ("The custom status code HTTP authentication brute-force protection realm must be " ++
      "boolean").toList
  else if ¬isNoneOr entry "users" isString then
    .error ("The custom status code HTTP authentication allowed users list must be a " ++
      "string").toList
  -- the property should be `allowed`, by its message
  else if ¬isNoneOr entry "brute_protection" isString then
    .error "The custom status code allowed clients list must be a string".toList
  else if ¬isNoneOr entry "body" isString then
    .error "The custom status code response body must be a string".toList
  else .ok ()

/-- The check of a `user` directive. -/
def checkUser (entry : ServerConfigurationEntry) : Except Str Unit :=
  if entry.values.length ≠ 2 then
    .error "The `user` configuration property must have exactly two values".toList
  else if ¬entry.values[0]?.any isString then .error "Invalid username".toList
  else if ¬entry.values[1]?.any isString then .error "Invalid password hash".toList
  else .ok ()

/-- `validate_configuration`. -/
def validateConfiguration (config : ServerConfiguration) : Except Str Unit := do
  checkEntries checkStatus config "status".toList
  checkEntries checkUser config "user".toList

/-! ## Loading -/

section Loading

variable (libraries : Libraries)

/-- A property, if it is a text. -/
def textProp (entry : ServerConfigurationEntry) (name : String) : Option Str :=
  (entry.props.lookup name.toList).bind ServerConfigurationValue.asStr

/-- The code of a directive. It is a `u16`. -/
def loadStatusCode (entry : ServerConfigurationEntry) : Except Str Nat :=
  match entry.values.head?.bind ServerConfigurationValue.asI128 with
  | some scode =>
      -- `try_into`
      if 0 ≤ scode ∧ scode < 2 ^ 16 then .ok scode.toNat
      else .error "out of range integral type conversion attempted".toList
  | none => .error "Non-standard codes must include a status code".toList

/-- The regular expression of a directive. -/
def loadRegex (entry : ServerConfigurationEntry) : Except Str (Option Regex) :=
  match textProp entry "regex" with
  | some regexStr =>
      match libraries.buildRegex regexStr false with
      | .ok regex => .ok (some regex)
      | .error err =>
          .error ("Invalid non-standard code regular expression: ".toList ++ err)
  | none => .ok none

/-- A list of clients, separated by commas. -/
def loadClients (table : Nat) (entry : ServerConfigurationEntry) (name : String) : Option IpBlockList :=
  (textProp entry name).map fun userlist =>
    IpBlockList.new.loadFromVec libraries.toReading table (userlist.splitOn ',')

/-- A directive, as it is loaded. Its two lists of clients have tables of their own. -/
def loadCode (table : Nat) (entry : ServerConfigurationEntry) : Except Str NonStandardCode := do
  let statusCode ← loadStatusCode entry
  let regex ← loadRegex libraries entry
  return {
    statusCode
    url := textProp entry "url"
    regex
    location := textProp entry "location"
    realm := textProp entry "realm"
    disableBruteForceProtection :=
      !((entry.props.lookup "brute_protection".toList).bind ServerConfigurationValue.asBool).getD true
    userList := (textProp entry "users").map fun userlist => userlist.splitOn ','
    users := loadClients libraries table entry "allowed"
    body := textProp entry "body"
    notAllowed := loadClients libraries (table + 1) entry "not_allowed" }

/-- `load_module`: the codes of the module. -/
def loadModule (table : Nat) (config : ServerConfiguration) : Except Str (List NonStandardCode) :=
  match config.getEntries "status".toList with
  | none => .ok []
  | some entries =>
      entries.inner.zipIdx.mapM fun (entry, index) => loadCode libraries (table + 2 * index) entry

end Loading

/-! ## What a directive should be -/

/-- The properties of a directive that are texts. -/
inductive TextProperty where
  | url | regex | location | realm | users | allowed | notAllowed | body
  deriving DecidableEq

namespace TextProperty

/-- The name of a property. -/
def name : TextProperty → String
  | url => "url"
  | regex => "regex"
  | location => "location"
  | realm => "realm"
  | users => "users"
  | allowed => "allowed"
  | notAllowed => "not_allowed"
  | body => "body"

/-- Whether a code has what the property gives. -/
def given (code : NonStandardCode) : TextProperty → Bool
  | url => code.url.isSome
  | regex => code.regex.isSome
  | location => code.location.isSome
  | realm => code.realm.isSome
  | users => code.userList.isSome
  | allowed => code.users.isSome
  | notAllowed => code.notAllowed.isSome
  | body => code.body.isSome

end TextProperty

section Directive

variable (entry : ServerConfigurationEntry)

/-- A property is absent or a text. -/
def IsText (property : TextProperty) : Prop :=
  ∀ value, entry.props.lookup property.name.toList = some value → ∃ text, value = .string text

/-- `brute_protection` is absent or a boolean. -/
def IsFlag : Prop :=
  ∀ value, entry.props.lookup "brute_protection".toList = some value → ∃ flag, value = .bool flag

/-- The code is an integer, `brute_protection` is a boolean, and the other properties are texts. -/
structure WellTyped : Prop where
  code : ∃ code, entry.values = [.integer code]
  texts : ∀ property, IsText entry property
  flag : IsFlag entry

/-- A code that is loaded from the directive lacks what a property of the directive says. -/
def Ignores (code : NonStandardCode) : Prop :=
  (∃ property : TextProperty, (entry.props.lookup property.name.toList).isSome ∧
      property.given code = false) ∨
    ∃ value, entry.props.lookup "brute_protection".toList = some value ∧
      value ≠ .bool (!code.disableBruteForceProtection)

/-- Validation agrees with loading: it accepts the directives that are well typed, and no property of a
directive that it accepts is ignored when the directive is loaded. -/
def InStep (libraries : Libraries) : Prop :=
  (checkStatus entry = .ok () ↔ WellTyped entry) ∧
    (checkStatus entry = .ok () →
      ∀ table code, loadCode libraries table entry = .ok code → ¬Ignores entry code)

/-- The part of a directive that is checked as it is read. -/
structure CheckedWell : Prop where
  code : ∃ code, entry.values = [.integer code]
  texts : ∀ property, property ≠ .allowed → property ≠ .notAllowed → IsText entry property

/-- The rest of a directive: the lists of clients, and `brute_protection` when it is there. The lists are
texts when it is absent; when it is there, a list or `brute_protection` itself is of the wrong type. -/
def RestInStep : Prop :=
  if entry.props.lookup "brute_protection".toList = none then
    IsText entry .allowed ∧ IsText entry .notAllowed
  else ¬(IsText entry .allowed ∧ IsText entry .notAllowed ∧ IsFlag entry)

end Directive

/-! ## Agreement -/

section Agreement

variable {libraries : Libraries} {entry : ServerConfigurationEntry}

theorem isNoneOr_isString_iff (property : TextProperty) :
    isNoneOr entry property.name isString = true ↔ IsText entry property := by
  rw [isNoneOr, IsText, Option.all_eq_true]
  simp only [isString_iff]

/-- `brute_protection` is never both a boolean and a text. -/
theorem isNoneOr_both_iff :
    (isNoneOr entry "brute_protection" isBool = true ∧ isNoneOr entry "brute_protection" isString = true) ↔
      entry.props.lookup "brute_protection".toList = none := by
  rw [isNoneOr, isNoneOr]
  cases entry.props.lookup "brute_protection".toList with
  | none => simp
  | some value => cases value <;> simp

theorem values_iff :
    (entry.values.length = 1 ∧ entry.values.head?.any isInteger = true) ↔
      ∃ code, entry.values = [.integer code] := by
  rw [List.length_eq_one_iff]
  constructor
  · rintro ⟨⟨value, hvalue⟩, hinteger⟩
    rw [hvalue] at hinteger
    obtain ⟨code, hcode⟩ := isInteger_iff.1 hinteger
    exact ⟨code, hvalue.trans (by rw [hcode])⟩
  · rintro ⟨code, hcode⟩
    rw [hcode]
    exact ⟨⟨_, rfl⟩, rfl⟩

/-- What the checks accept. -/
theorem checkStatus_eq_ok_iff :
    checkStatus entry = .ok () ↔
      CheckedWell entry ∧ entry.props.lookup "brute_protection".toList = none := by
  have htext : ∀ property : TextProperty,
      isNoneOr entry property.name isString = true ↔ IsText entry property := isNoneOr_isString_iff
  simp only [checkStatus, ite_error_eq_ok_iff, not_not, and_true]
  -- the two checks of `brute_protection` together say that it is absent
  rw [← isNoneOr_both_iff]
  constructor
  · rintro ⟨hlength, hcode, hurl, hregex, hlocation, hrealm, hflag, husers, hagain, hbody⟩
    refine ⟨⟨values_iff.1 ⟨hlength, hcode⟩, fun property hallowed hnotAllowed => ?_⟩, hflag, hagain⟩
    rw [← htext]
    cases property with
    | url => exact hurl
    | regex => exact hregex
    | location => exact hlocation
    | realm => exact hrealm
    | users => exact husers
    | allowed => exact absurd rfl hallowed
    | notAllowed => exact absurd rfl hnotAllowed
    | body => exact hbody
  · rintro ⟨⟨hcode, htexts⟩, hflag, hagain⟩
    obtain ⟨hlength, hinteger⟩ := values_iff.2 hcode
    have hchecked (property : TextProperty) (hallowed : property ≠ .allowed)
        (hnotAllowed : property ≠ .notAllowed) : isNoneOr entry property.name isString = true :=
      (htext property).2 (htexts property hallowed hnotAllowed)
    exact ⟨hlength, hinteger, hchecked .url (by decide) (by decide), hchecked .regex (by decide) (by decide),
      hchecked .location (by decide) (by decide), hchecked .realm (by decide) (by decide), hflag,
      hchecked .users (by decide) (by decide), hagain, hchecked .body (by decide) (by decide)⟩

theorem wellTyped_iff :
    WellTyped entry ↔
      CheckedWell entry ∧ IsText entry .allowed ∧ IsText entry .notAllowed ∧ IsFlag entry := by
  constructor
  · intro h
    exact ⟨⟨h.code, fun property _ _ => h.texts property⟩, h.texts .allowed, h.texts .notAllowed, h.flag⟩
  · rintro ⟨hchecked, hallowed, hnotAllowed, hflag⟩
    refine ⟨hchecked.code, fun property => ?_, hflag⟩
    by_cases hfirst : property = .allowed
    · rwa [hfirst]
    · by_cases hsecond : property = .notAllowed
      · rwa [hsecond]
      · exact hchecked.texts property hfirst hsecond

/-- What a loaded code has of the properties. -/
theorem given_of_loadCode {table : Nat} {code : NonStandardCode}
    (h : loadCode libraries table entry = .ok code) (property : TextProperty) :
    property.given code = (textProp entry property.name).isSome := by
  rw [loadCode] at h
  cases hstatus : loadStatusCode entry with
  | error err =>
      rw [hstatus] at h
      cases h
  | ok statusCode =>
      cases hregex : loadRegex libraries entry with
      | error err =>
          rw [hstatus, hregex] at h
          cases h
      | ok regex =>
          rw [hstatus, hregex] at h
          cases h
          cases property with
          -- the lists are there when their texts are
          | users => exact Option.isSome_map
          | allowed => exact Option.isSome_map
          | notAllowed => exact Option.isSome_map
          | regex =>
              -- a regular expression that is given is built or an error
              rw [loadRegex] at hregex
              change regex.isSome = _
              dsimp only [TextProperty.name]
              cases htext : textProp entry "regex" with
              | none =>
                  rw [htext] at hregex
                  cases hregex
                  rfl
              | some regexStr =>
                  rw [htext] at hregex
                  dsimp only at hregex
                  split at hregex
                  · cases hregex
                    rfl
                  · cases hregex
          | _ => rfl

/-- The flag of a loaded code. -/
theorem disableBruteForceProtection_of_loadCode {table : Nat} {code : NonStandardCode}
    (h : loadCode libraries table entry = .ok code) :
    code.disableBruteForceProtection =
      !((entry.props.lookup "brute_protection".toList).bind ServerConfigurationValue.asBool).getD true := by
  rw [loadCode] at h
  cases hstatus : loadStatusCode entry with
  | error err =>
      rw [hstatus] at h
      cases h
  | ok statusCode =>
      cases hregex : loadRegex libraries entry with
      | error err =>
          rw [hstatus, hregex] at h
          cases h
      | ok regex =>
          rw [hstatus, hregex] at h
          cases h
          rfl

/-- No property of a well-typed directive is ignored. -/
theorem not_ignores_of_wellTyped (htyped : WellTyped entry) {table : Nat} {code : NonStandardCode}
    (h : loadCode libraries table entry = .ok code) : ¬Ignores entry code := by
  rintro (⟨property, hpresent, hlost⟩ | ⟨value, hvalue, hlost⟩)
  · -- a text that is given is read
    obtain ⟨value, hvalue⟩ := Option.isSome_iff_exists.1 hpresent
    obtain ⟨text, rfl⟩ := htyped.texts property value hvalue
    rw [given_of_loadCode h, textProp, hvalue] at hlost
    cases hlost
  · -- a boolean that is given is read
    obtain ⟨flag, rfl⟩ := htyped.flag value hvalue
    apply hlost
    rw [disableBruteForceProtection_of_loadCode h, hvalue]
    simp [ServerConfigurationValue.asBool]

/-- A configuration whose directives have values is accepted when each of its directives is. -/
theorem validateConfiguration_eq_ok_iff {config : ServerConfiguration}
    (hstatus : HasValues config "status".toList) (huser : HasValues config "user".toList) :
    validateConfiguration config = .ok () ↔
      (∀ entry ∈ directivesOf config "status".toList, checkStatus entry = .ok ()) ∧
        ∀ entry ∈ directivesOf config "user".toList, checkUser entry = .ok () := by
  rw [← checkEntries_eq_ok_iff hstatus, ← checkEntries_eq_ok_iff huser, validateConfiguration]
  cases checkEntries checkStatus config "status".toList with
  | error err =>
      constructor
      · intro h
        cases h
      · intro h
        cases h.1
  | ok passed => exact ⟨fun h => ⟨rfl, h⟩, fun h => h.2⟩

/-- Validation of a directive agrees with its loading if and only if another check fails or the lists of
clients and `brute_protection` are in step. -/
theorem inStep_iff (libraries : Libraries) (entry : ServerConfigurationEntry) :
    InStep entry libraries ↔ ¬CheckedWell entry ∨ RestInStep entry := by
  have hsame : InStep entry libraries ↔ (checkStatus entry = .ok () ↔ WellTyped entry) := by
    -- the second half follows: what is accepted is well typed then, and so nothing of it is ignored
    refine ⟨fun h => h.1, fun h => ⟨h, fun haccepted table code hload => ?_⟩⟩
    exact not_ignores_of_wellTyped (h.1 haccepted) hload
  rw [hsame, checkStatus_eq_ok_iff, wellTyped_iff, RestInStep]
  by_cases habsent : entry.props.lookup "brute_protection".toList = none
  · -- without `brute_protection` only the lists of clients are left unchecked
    have hflag : IsFlag entry := fun value hvalue => by
      rw [habsent] at hvalue
      cases hvalue
    simp only [habsent, hflag, and_true, if_true]
    rw [iff_self_and, imp_iff_not_or]
  · -- with it nothing is accepted, so nothing may be well typed
    simp only [habsent, and_false, false_iff, if_false]
    rw [not_and_or]

end Agreement

/-! ## A protected page -/

/-- A `status` directive with a property. -/
def statusDirective (code : Int) (name : String) (value : ServerConfigurationValue) :
    ServerConfigurationEntry where
  values := [.integer code]
  props := AList.singleton name.toList value

/-- `status 401 brute_protection=#false` is well typed but refused; `status 403 allowed=5` is accepted, and
the list of clients is ignored. -/
theorem bruteProtection_refused :
    (WellTyped (statusDirective 401 "brute_protection" (.bool false)) ∧
        checkStatus (statusDirective 401 "brute_protection" (.bool false)) =
          .error "The custom status code allowed clients list must be a string".toList) ∧
      checkStatus (statusDirective 403 "allowed" (.integer 5)) = .ok () ∧
      ¬WellTyped (statusDirective 403 "allowed" (.integer 5)) ∧
      ∃ code, loadCode plainLibraries 0 (statusDirective 403 "allowed" (.integer 5)) = .ok code ∧
        Ignores (statusDirective 403 "allowed" (.integer 5)) code := by
  refine ⟨⟨⟨⟨401, rfl⟩, fun property value hvalue => ?_, fun value hvalue => ?_⟩, by rfl⟩, by rfl, ?_, ?_⟩
  · cases property <;> cases hvalue
  · cases hvalue
    exact ⟨false, rfl⟩
  · intro h
    obtain ⟨text, htext⟩ := h.texts .allowed (.integer 5) rfl
    cases htext
  · exact ⟨_, rfl, .inl ⟨.allowed, rfl, rfl⟩⟩

end Ferron.Modules.StatusRules
