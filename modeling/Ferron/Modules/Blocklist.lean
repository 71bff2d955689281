import Ferron.Common.IpListMembership
import Ferron.Config.Validation

/-!
# Blocking and allowing addresses

The blocklist module refuses the clients that are in its block list, and those that are not in its allow
list when there is one. It is loaded when the last `block` or the last `allow` directive is not null, and
then it makes a list for each of the two names that has any directive.

`letsThrough_iff` says when a request passes exactly as the directives say: not when the only `allow`
directives are null while something else loads the module, and not when the last directives are null but
others stand before them.
-/

set_option autoImplicit false

namespace Ferron.Modules.Blocklist

open Ferron.Common Ferron.Config
open IpBlockList (Reading PlainlyListedBy)

/-! ## The module -/

/-- `BlocklistModule`. -/
structure BlocklistModule where
  allowlist : Option IpBlockList
  blocklist : Option IpBlockList

section Module

variable (reading : Reading)

/-- A list of the values of a name, if there are any. -/
def loadList (table : Nat) (config : ServerConfiguration) (name : Str) : Option IpBlockList :=
  let values := config.getValues name
  if values.isEmpty then none
  else some (IpBlockList.new.loadFromVec reading table (values.filterMap ServerConfigurationValue.asStr))

/-- `load_module`. The two lists have tables of their own. -/
def loadModule (table : Nat) (config : ServerConfiguration) : BlocklistModule where
  blocklist := loadList reading table config "block".toList
  allowlist := loadList reading (table + 1) config "allow".toList

/-- The check of an entry. A null value stands alone, and other values are addresses or networks. -/
def checkAddresses (nullMessage invalidMessage : Str) (entry : ServerConfigurationEntry) :
    Except Str Unit :=
  if entry.values.head?.any ServerConfigurationValue.isNull then
    if entry.values.length ≠ 1 then .error nullMessage else .ok ()
  else
    entry.values.forM fun value =>
      match value.asStr with
      | none => .error invalidMessage
      | some text =>
          if (reading.parseIpAddr text).isNone && (reading.parseIpCidr text).isNone then
            .error invalidMessage
          else .ok ()

/-- The check of a `block` directive. -/
def checkBlock : ServerConfigurationEntry → Except Str Unit :=
  checkAddresses reading
    ("The `block` configuration property must have exactly one value if the first value is " ++
      "\"#null\"").toList
    "Invalid blocked IP address".toList

/-- The check of an `allow` directive. -/
def checkAllow : ServerConfigurationEntry → Except Str Unit :=
  checkAddresses reading
    ("The `allow` configuration property must have exactly one value if the first value is " ++
      "\"#null\"").toList
    "Invalid allowed IP address".toList

/-- `validate_configuration`. -/
def validateConfiguration (config : ServerConfiguration) : Except Str Unit := do
  checkEntries (checkBlock reading) config "block".toList
  checkEntries (checkAllow reading) config "allow".toList

/-- `get_requirements`. -/
def getRequirements : List Str := ["block".toList, "allow".toList]

/-- `request_handler`: the status of the response, if the request does not pass. -/
def BlocklistModule.requestHandler (module : BlocklistModule) (ip : IpAddr) : Option Nat :=
  -- an address is refused when a list of allowed ones is there that lacks it
  let blocked := module.blocklist.any (fun blocklist => blocklist.isBlocked ip) ||
    !module.allowlist.all fun allowlist => allowlist.isBlocked ip
  if blocked then some 403 else none

/-- The request of a client passes, when the module is loaded for the configuration or when it is not. -/
def letsThrough (table : Nat) (config : ServerConfiguration) (ip : IpAddr) : Bool :=
  !requirementsMet getRequirements config || ((loadModule reading table config).requestHandler ip).isNone

end Module

/-! ## What the directives say -/

/-- A directive that is null is ignored. -/
def isIgnored (entry : ServerConfigurationEntry) : Bool :=
  entry.values.head?.any ServerConfigurationValue.isNull

/-- The directives of a name that are not ignored. -/
def given (config : ServerConfiguration) (name : Str) : List ServerConfigurationEntry :=
  (directivesOf config name).filter fun entry => !isIgnored entry

/-- The texts of the directives that are not ignored. -/
def addresses (config : ServerConfiguration) (name : Str) : List Str :=
  (given config name).flatMap fun entry => entry.values.filterMap ServerConfigurationValue.asStr

/-- A client is in the list of a name, as `is_blocked` finds it there. -/
def InList (reading : Reading) (config : ServerConfiguration) (name : Str) (ip : IpAddr) : Prop :=
  ∃ text ∈ addresses config name, PlainlyListedBy reading ip text

/-- A client may pass: it is not in the block list, and it is in the allow list when one is given. -/
def MayPass (reading : Reading) (config : ServerConfiguration) (ip : IpAddr) : Prop :=
  ¬InList reading config "block".toList ip ∧
    (given config "allow".toList ≠ [] → InList reading config "allow".toList ip)

/-- The lists do what the directives say: when the module is loaded, some `allow` directive is not null, or
there is none, or the client is in the block list; when it is not loaded, the client is neither in an
earlier `block` directive nor missing from the earlier `allow` directives. -/
def FiltersAsGiven (reading : Reading) (config : ServerConfiguration) (ip : IpAddr) : Prop :=
  if requirementsMet getRequirements config then
    given config "allow".toList ≠ [] ∨ directivesOf config "allow".toList = [] ∨
      InList reading config "block".toList ip
  else MayPass reading config ip

/-! ## Valid configurations -/

/-- A directive has a null value alone, or texts. -/
def WellFormed (entry : ServerConfigurationEntry) : Prop :=
  entry.values = [.null] ∨
    isIgnored entry = false ∧ ∀ value ∈ entry.values, ∃ text, value = .string text

section Valid

variable {reading : Reading} {config : ServerConfiguration} {ip : IpAddr} {name : Str}

theorem wellFormed_of_checkAddresses {entry : ServerConfigurationEntry} {nullMessage invalidMessage : Str}
    (h : checkAddresses reading nullMessage invalidMessage entry = .ok ()) : WellFormed entry := by
  rw [checkAddresses] at h
  rw [WellFormed, isIgnored]
  split at h
  · rename_i hnull
    left
    rw [ite_error_eq_ok_iff, not_not] at h
    obtain ⟨value, hvalue⟩ := List.length_eq_one_iff.1 h.1
    rw [hvalue] at hnull ⊢
    cases value with
    | null => rfl
    | _ => exact absurd hnull Bool.false_ne_true
  · rename_i hnull
    right
    refine ⟨Bool.eq_false_iff.2 hnull, fun value hvalue => ?_⟩
    have hcheck := forM_eq_ok_iff.1 h value hvalue
    cases value with
    | string text => exact ⟨text, rfl⟩
    | _ => cases hcheck

/-- The directives of both names are well formed in a configuration that is accepted. -/
theorem wellFormed_of_validate (hblock : HasValues config "block".toList)
    (hallow : HasValues config "allow".toList) (hvalid : validateConfiguration reading config = .ok ()) :
    (∀ entry ∈ directivesOf config "block".toList, WellFormed entry) ∧
      ∀ entry ∈ directivesOf config "allow".toList, WellFormed entry := by
  rw [validateConfiguration] at hvalid
  cases hfirst : checkEntries (checkBlock reading) config "block".toList with
  | error err =>
      rw [hfirst] at hvalid
      cases hvalid
  | ok passed =>
      rw [hfirst] at hvalid
      constructor
      · intro entry hentry
        exact wellFormed_of_checkAddresses ((checkEntries_eq_ok_iff hblock).1 hfirst entry hentry)
      · intro entry hentry
        exact wellFormed_of_checkAddresses ((checkEntries_eq_ok_iff hallow).1 hvalid entry hentry)

/-- The texts of all directives are those of the directives that are not ignored. -/
theorem filterMap_asStr_eq_addresses (hformed : ∀ entry ∈ directivesOf config name, WellFormed entry) :
    ((directivesOf config name).flatMap ServerConfigurationEntry.values).filterMap
        ServerConfigurationValue.asStr = addresses config name := by
  rw [addresses, given, List.filterMap_flatMap]
  generalize directivesOf config name = entries at hformed ⊢
  induction entries with
  | nil => rfl
  | cons entry entries ih =>
      obtain ⟨hentry, hentries⟩ := List.forall_mem_cons.1 hformed
      rw [List.flatMap_cons, ih hentries, List.filter_cons]
      -- a null directive has no text, and the others are given
      rcases hentry with hnull | ⟨hgiven, -⟩
      · rw [isIgnored, hnull]
        rfl
      · rw [hgiven]
        rfl

/-- A client is in the list of a name when `is_blocked` finds it in a list that is loaded from the texts. -/
theorem isBlocked_addresses_iff (table : Nat) :
    (IpBlockList.new.loadFromVec reading table (addresses config name)).isBlocked ip = true ↔
      InList reading config name ip := by
  rw [IpBlockList.isBlocked_loadFromVec, IpBlockList.isBlocked_new, InList]
  simp

/-- The list that is loaded for a name: there is one when there are directives, and it has the clients of
the directives that are not ignored. -/
theorem loadList_spec (hvalues : HasValues config name)
    (hformed : ∀ entry ∈ directivesOf config name, WellFormed entry) (table : Nat) :
    match loadList reading table config name with
    | none => directivesOf config name = []
    | some list => directivesOf config name ≠ [] ∧
        (list.isBlocked ip = true ↔ InList reading config name ip) := by
  rw [loadList, getValues_eq hvalues, filterMap_asStr_eq_addresses hformed]
  by_cases hnil : directivesOf config name = []
  · -- without directives there is no list
    rw [hnil]
    rfl
  · have hsome : (directivesOf config name).flatMap ServerConfigurationEntry.values ≠ [] := by
      obtain ⟨entry, entries, hentries⟩ := List.exists_cons_of_ne_nil hnil
      rw [hentries, List.flatMap_cons]
      apply List.append_ne_nil_of_left_ne_nil
      apply hvalues
      rw [hentries]
      exact List.mem_cons_self
    rw [if_neg (by rwa [List.isEmpty_iff])]
    exact ⟨hnil, isBlocked_addresses_iff table⟩

/-- An allow list is given when there are texts in it. -/
theorem given_ne_nil_of_inList (h : InList reading config name ip) : given config name ≠ [] := by
  intro hnil
  obtain ⟨text, htext, -⟩ := h
  rw [addresses, hnil] at htext
  exact absurd htext List.not_mem_nil

/-- What the loaded module does: every directive of `allow` counts, also a null one. -/
theorem requestHandler_isNone_iff (hblock : HasValues config "block".toList)
    (hallow : HasValues config "allow".toList) (hvalid : validateConfiguration reading config = .ok ())
    (table : Nat) :
    ((loadModule reading table config).requestHandler ip).isNone = true ↔
      ¬InList reading config "block".toList ip ∧
        (directivesOf config "allow".toList ≠ [] → InList reading config "allow".toList ip) := by
  obtain ⟨hblockFormed, hallowFormed⟩ := wellFormed_of_validate hblock hallow hvalid
  have hblocked := @loadList_spec reading config ip _ hblock hblockFormed table
  have hallowed := @loadList_spec reading config ip _ hallow hallowFormed (table + 1)
  have hblockIff : (loadList reading table config "block".toList).any
      (fun blocklist => blocklist.isBlocked ip) = true ↔ InList reading config "block".toList ip := by
    cases hlist : loadList reading table config "block".toList with
    | none =>
        -- no list, so nobody is in it
        rw [hlist] at hblocked
        refine ⟨fun h => absurd h Bool.false_ne_true, fun h => absurd ?_ (given_ne_nil_of_inList h)⟩
        rw [given, hblocked]
        rfl
    | some list =>
        rw [hlist] at hblocked
        exact hblocked.2
  have hallowIff : (loadList reading (table + 1) config "allow".toList).all
      (fun allowlist => allowlist.isBlocked ip) = true ↔
        (directivesOf config "allow".toList ≠ [] → InList reading config "allow".toList ip) := by
    cases hlist : loadList reading (table + 1) config "allow".toList with
    | none =>
        -- no list, so everybody is allowed
        rw [hlist] at hallowed
        exact ⟨fun _ h => absurd hallowed h, fun _ => rfl⟩
    | some list =>
        rw [hlist] at hallowed
        exact hallowed.2.trans ⟨fun h _ => h, fun h => h hallowed.1⟩
  rw [BlocklistModule.requestHandler, loadModule, ← hblockIff, ← hallowIff]
  dsimp only
  cases (loadList reading table config "block".toList).any fun blocklist => blocklist.isBlocked ip <;>
    cases (loadList reading (table + 1) config "allow".toList).all
      fun allowlist => allowlist.isBlocked ip <;> decide

/-- In a configuration that is accepted, whose directives have values, a request passes as the directives
say if and only if the lists filter as given. -/
theorem letsThrough_iff (reading : Reading) (table : Nat) (config : ServerConfiguration) (ip : IpAddr)
    (hblock : HasValues config "block".toList) (hallow : HasValues config "allow".toList)
    (hvalid : validateConfiguration reading config = .ok ()) :
    (letsThrough reading table config ip = true ↔ MayPass reading config ip) ↔
      FiltersAsGiven reading config ip := by
  have hhandler := @requestHandler_isNone_iff reading config ip hblock hallow hvalid table
  rw [FiltersAsGiven, letsThrough]
  cases hmet : requirementsMet getRequirements config with
  | false => simp
  | true =>
      rw [Bool.not_true, Bool.false_or, hhandler, if_pos rfl, MayPass]
      constructor
      · intro hsame
        by_contra hnot
        push Not at hnot
        obtain ⟨hignored, hallowDirectives, hnotBlocked⟩ := hnot
        -- all directives of `allow` are null: the client may pass, but it is not in the empty list
        have hinList := (hsame.2 ⟨hnotBlocked, fun h => absurd hignored h⟩).2 hallowDirectives
        exact given_ne_nil_of_inList hinList hignored
      · -- the two conditions on `allow` agree, or the client is refused by both because of `block`
        rintro (hgiven | hnone | hblocked)
        · have hdirectives : directivesOf config "allow".toList ≠ [] := by
            intro hnil
            apply hgiven
            rw [given, hnil]
            rfl
          simp only [hgiven, hdirectives, ne_eq, not_false_eq_true, true_imp_iff]
        · have hgiven : given config "allow".toList = [] := by
            rw [given, hnone]
            rfl
          simp only [hnone, hgiven, ne_eq, not_true_eq_false, false_imp_iff]
        · exact ⟨fun h => absurd hblocked h.1, fun h => absurd hblocked h.1⟩

end Valid

/-! ## A null list of allowed addresses -/

/-- Reads `192.0.2.1`. -/
def documentationReading : Reading where
  parseIpAddr text := if text = "192.0.2.1".toList then some (.v4 0xc0000201) else none
  parseIpCidr _ := none
  ipOrder _ := ⟨id, List.Perm.refl⟩
  cidrOrder _ := ⟨id, List.Perm.refl⟩

/-- A `block` directive and an `allow` directive. -/
def blockAndAllow (block allow : List ServerConfigurationValue) : ServerConfiguration where
  entries := (AList.singleton "block".toList ⟨[⟨block, ∅⟩]⟩).insert "allow".toList ⟨[⟨allow, ∅⟩]⟩
  filters := ⟨true, none, none, none, none, none⟩

/-- `block "192.0.2.1"` with `allow #null` refuses the client `192.0.2.2`, which is in no list. -/
theorem allowNull_refuses :
    validateConfiguration documentationReading (blockAndAllow [.string "192.0.2.1".toList] [.null]) =
        .ok () ∧
      letsThrough documentationReading 0 (blockAndAllow [.string "192.0.2.1".toList] [.null])
        (.v4 0xc0000202) = false ∧
      MayPass documentationReading (blockAndAllow [.string "192.0.2.1".toList] [.null])
        (.v4 0xc0000202) := by
  refine ⟨by rfl, by decide, ?_, ?_⟩
  · rw [← isBlocked_addresses_iff 0]
    decide
  · exact fun hgiven => absurd (by decide) hgiven

/-- `block "192.0.2.1"` with `allow "192.0.2.1"`: the client `192.0.2.2` is refused, as the directives say. -/
theorem letsThrough_iff_documentation :
    HasValues (blockAndAllow [.string "192.0.2.1".toList] [.string "192.0.2.1".toList])
        "block".toList ∧
      (letsThrough documentationReading 0
          (blockAndAllow [.string "192.0.2.1".toList] [.string "192.0.2.1".toList])
          (.v4 0xc0000202) = true ↔
        MayPass documentationReading
          (blockAndAllow [.string "192.0.2.1".toList] [.string "192.0.2.1".toList])
          (.v4 0xc0000202)) := by
  have hblock : HasValues (blockAndAllow [.string "192.0.2.1".toList] [.string "192.0.2.1".toList])
      "block".toList := by
    unfold HasValues
    decide
  have hallow : HasValues (blockAndAllow [.string "192.0.2.1".toList] [.string "192.0.2.1".toList])
      "allow".toList := by
    unfold HasValues
    decide
  refine ⟨hblock, (letsThrough_iff documentationReading 0 _ _ hblock hallow (by rfl)).2 ?_⟩
  rw [FiltersAsGiven, if_pos (by decide)]
  exact .inl (by decide)

end Ferron.Modules.Blocklist
