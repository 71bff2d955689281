import Ferron.Common.Hostname
import Ferron.Common.MatchLocation
import Ferron.Config.ErrorConfiguration

/-!
# The configuration of a request

`findConfiguration` goes through the configurations from the most specific one down and takes the first
one that matches the request. `findConfiguration_mostSpecific` says that no other matching one is more
specific: host blocks come before the other ones, then the port, the address, the hostname, the location
and the conditionals decide. Of two locations of one host that match the path the longer one wins, since
a longer one is deeper (`depth_lt_of_length_lt`). Configurations of different specificity may come in
any order.
-/

set_option autoImplicit false

namespace Ferron.Config

open Ferron.Common Ferron.Common.MatchLocation Ferron.Lib.StableSort Std

/-- The address on which a request has come in. -/
structure LocalAddress where
  ip : IpAddr
  port : UInt16

section Matching

-- `match_condition` for the request, given the constants so far, and `to_lowercase`.
variable {ε : Type}
  (matchCondition : ConditionalData → HashMap Str Str → Except ε (Bool × HashMap Str Str))
  (toLowercase : Str → Str)

/-- The loop over the subconditions, up to the first one that does not match. -/
def matchData : List ConditionalData → HashMap Str Str → Except ε Bool
  | [], _ => .ok true
  | d :: data, constants =>
      match matchCondition d constants with
      | .error err => .error err
      | .ok (false, _) => .ok false
      | .ok (true, constants) => matchData data constants

/-- Whether a conditional holds. -/
def matchConditional : Conditional → Except ε Bool
  | .ifBlock data => matchData matchCondition data ∅
  | .ifNot data => (matchData matchCondition data ∅).map (!·)

/-- The loop over the conditionals, up to the first one that does not hold. -/
def matchConditionals : List Conditional → Except ε Bool
  | [] => .ok true
  | cond :: conditionals =>
      match matchConditional matchCondition cond with
      | .error err => .error err
      | .ok false => .ok false
      | .ok true => matchConditionals conditionals

/-- `match_conditions`. -/
def matchConditions (conditions : Conditions) (path : Str) : Except ε Bool :=
  if matchLocation id conditions.locationPrefix path then
    matchConditionals matchCondition conditions.conditionals
  else .ok false

/-- The hostname, the address and the port of a configuration match. -/
def matchesHost (filters : ServerConfigurationFilters) (hostname : Option Str)
    (localAddr : LocalAddress) : Bool :=
  matchHostname filters.hostname hostname &&
    (filters.ip.isNone && (!isLocalhost toLowercase filters.ip filters.hostname ||
        localAddr.ip.toCanonical.isLoopback) || filters.ip == some localAddr.ip) &&
    (filters.port.isNone || filters.port == some localAddr.port)

/-- The predicate of `find_configuration`. -/
def matchesRequest (filters : ServerConfigurationFilters) (path : Str) (hostname : Option Str)
    (localAddr : LocalAddress) : Except ε Bool :=
  if matchesHost toLowercase filters hostname localAddr then
    match filters.condition with
    | none => .ok filters.errorHandlerStatus.isNone
    | some conditions =>
        match matchConditions matchCondition conditions path with
        | .error err => .error err
        | .ok matched => .ok (matched && filters.errorHandlerStatus.isNone)
  else .ok false

/-- The scan of `find_configuration`. -/
def findMatching (path : Str) (hostname : Option Str) (localAddr : LocalAddress) :
    List ServerConfiguration → Except ε (Option ServerConfiguration)
  | [] => .ok none
  | c :: rest =>
      match matchesRequest matchCondition toLowercase c.filters path hostname localAddr with
      | .error err => .error err
      | .ok true => .ok (some c)
      | .ok false => findMatching path hostname localAddr rest

/-- `find_configuration`. -/
def findConfiguration (configurations : ServerConfigurations) (path : Str) (hostname : Option Str)
    (localAddr : LocalAddress) : Except ε (Option ServerConfiguration) :=
  findMatching matchCondition toLowercase path hostname localAddr configurations.inner.reverse

/-- The filters of a configuration that is no error configuration match the request. -/
structure Matches (filters : ServerConfigurationFilters) (path : Str) (hostname : Option Str)
    (localAddr : LocalAddress) : Prop where
  hostname : matchHostname filters.hostname hostname = true
  ip : filters.ip = none ∧ (isLocalhost toLowercase none filters.hostname = true →
      localAddr.ip.toCanonical.isLoopback = true) ∨ filters.ip = some localAddr.ip
  port : filters.port = none ∨ filters.port = some localAddr.port
  condition : ∀ conditions, filters.condition = some conditions →
    matchLocation id conditions.locationPrefix path = true ∧
      matchConditionals matchCondition conditions.conditionals = .ok true
  errorHandlerStatus : filters.errorHandlerStatus = none

variable {matchCondition toLowercase} {filters : ServerConfigurationFilters} {path : Str}
  {hostname : Option Str} {localAddr : LocalAddress}

theorem matchesHost_iff : matchesHost toLowercase filters hostname localAddr = true ↔
    matchHostname filters.hostname hostname = true ∧
      (filters.ip = none ∧ (isLocalhost toLowercase none filters.hostname = true →
        localAddr.ip.toCanonical.isLoopback = true) ∨ filters.ip = some localAddr.ip) ∧
      (filters.port = none ∨ filters.port = some localAddr.port) := by
  rw [matchesHost, Bool.and_eq_true, Bool.and_eq_true, and_assoc]
  refine and_congr_right fun _ => and_congr ?_ ?_
  · cases hip : filters.ip with
    | none => cases isLocalhost toLowercase none filters.hostname <;> simp
    | some ip => simp
  · cases filters.port <;> simp

/-- The predicate holds of the configurations that match. -/
theorem matchesRequest_iff :
    matchesRequest matchCondition toLowercase filters path hostname localAddr = .ok true ↔
      Matches matchCondition toLowercase filters path hostname localAddr := by
  rw [matchesRequest]
  constructor
  · intro h
    split at h
    · next hhost =>
        obtain ⟨hhostname, hip, hport⟩ := matchesHost_iff.1 hhost
        cases hcondition : filters.condition with
        | none =>
            rw [hcondition] at h
            refine ⟨hhostname, hip, hport, fun _ hnone => ?_, ?_⟩
            · rw [hcondition] at hnone
              exact absurd hnone (by simp)
            · simpa using h
        | some conditions =>
            rw [hcondition] at h
            dsimp only at h
            cases hmatch : matchConditions matchCondition conditions path with
            | error err =>
                rw [hmatch] at h
                exact absurd h (by simp)
            | ok matched =>
                rw [hmatch] at h
                have hboth : (matched && filters.errorHandlerStatus.isNone) = true := by
                  simpa using h
                rw [Bool.and_eq_true] at hboth
                refine ⟨hhostname, hip, hport, ?_, by simpa using hboth.2⟩
                intro conditions' hsome
                rw [hcondition, Option.some.injEq] at hsome
                subst hsome
                -- the conditions are looked at only inside the location
                rw [hboth.1, matchConditions] at hmatch
                split at hmatch
                · next hlocation => exact ⟨hlocation, hmatch⟩
                · exact absurd hmatch (by simp)
    · exact absurd h (by simp)
  · rintro ⟨hhostname, hip, hport, hcondition, hstatus⟩
    rw [if_pos (matchesHost_iff.2 ⟨hhostname, hip, hport⟩)]
    cases hconditions : filters.condition with
    | none =>
        rw [hstatus]
        rfl
    | some conditions =>
        obtain ⟨hlocation, hconditionals⟩ := hcondition conditions hconditions
        dsimp only
        rw [matchConditions, if_pos hlocation, hconditionals, hstatus]
        rfl

/-- The scan stops at the first configuration that matches. -/
theorem findMatching_eq_some {configurations : List ServerConfiguration} {c : ServerConfiguration}
    (h : findMatching matchCondition toLowercase path hostname localAddr configurations =
      .ok (some c)) :
    ∃ front back, configurations = front ++ c :: back ∧
      Matches matchCondition toLowercase c.filters path hostname localAddr ∧
      ∀ d ∈ front, ¬Matches matchCondition toLowercase d.filters path hostname localAddr := by
  induction configurations with
  | nil => exact absurd h (by simp [findMatching])
  | cons e rest ih =>
      rw [findMatching] at h
      split at h
      · exact absurd h (by simp)
      · next hmatches =>
          rw [Except.ok.injEq, Option.some.injEq] at h
          subst h
          exact ⟨[], rest, rfl, matchesRequest_iff.1 hmatches, fun _ hd => absurd hd (by simp)⟩
      · next hfails =>
          obtain ⟨front, back, rfl, hmatches, hfront⟩ := ih h
          refine ⟨e :: front, back, rfl, hmatches, ?_⟩
          intro d hd
          rcases List.mem_cons.1 hd with rfl | hrest
          · intro hmatch
            rw [matchesRequest_iff.2 hmatch] at hfails
            exact absurd hfails (by simp)
          · exact hfront d hrest

end Matching

/-! ## Specificity -/

/-- The port, the address, an exact hostname before a wildcard one, the labels of the hostname, the
depth of the location and the number of conditionals. -/
def specificity : ServerConfigurationFilters → ServerConfigurationFilters → Ordering :=
  compareLex (compareOn fun f => f.port.isSome)
    (compareLex (compareOn fun f => f.ip.isSome)
      (compareLex (compareOn fun f => f.hostname.map ServerConfigurationFilters.notWildcard)
        (compareLex (compareOn fun f => f.hostname.map ServerConfigurationFilters.domainLevel)
          (compareLex
            (compareOn fun f => f.condition.map fun c => countLogicalSlashes c.locationPrefix)
            (compareOn fun f => f.condition.map fun c => c.conditionals.length)))))

/-- Host blocks are more specific than other ones, and then the specificity counts. -/
def hostSpecificity : ServerConfigurationFilters → ServerConfigurationFilters → Ordering :=
  compareLex (compareOn fun f => f.isHost) specificity

instance : TransCmp specificity := by
  unfold specificity
  infer_instance

instance : TransCmp hostSpecificity := by
  unfold hostSpecificity
  infer_instance

theorem compare_condition_eq (a b : Option Conditions) :
    compare a b = (compare (a.map fun c => countLogicalSlashes c.locationPrefix)
      (b.map fun c => countLogicalSlashes c.locationPrefix)).then
        (compare (a.map fun c => c.conditionals.length) (b.map fun c => c.conditionals.length)) := by
  cases a with
  | none => cases b <;> rfl
  | some s => cases b <;> rfl

/-- The order of the scan is the specificity, and then whether there is an error status. -/
theorem cmp_eq (a b : ServerConfigurationFilters) :
    ServerConfigurationFilters.cmp a b = (hostSpecificity a b).then
      (compare a.errorHandlerStatus.isSome b.errorHandlerStatus.isSome) := by
  simp only [ServerConfigurationFilters.cmp, hostSpecificity, specificity, compareLex, compareOn,
    compare_condition_eq, Ordering.then_assoc]

/-! ## The depth of a location -/

theorem foldl_logicalSlashes (s : Str) (count : Nat) (prevWasSlash : Bool) :
    (s.foldl (fun (state : Nat × Bool) ch =>
      if ch == '/' then (if state.2 then state else (state.1 + 1, true)) else (state.1, false))
      (count, prevWasSlash)).1 = count + (collapseFrom prevWasSlash s).count '/' := by
  induction s generalizing count prevWasSlash with
  | nil => rfl
  | cons c s ih =>
      rw [List.foldl_cons, collapseFrom]
      by_cases hc : c = '/'
      · subst hc
        cases prevWasSlash with
        | true => exact ih count true
        | false =>
            have hstep := ih (count + 1) true
            rw [Nat.add_assoc, Nat.add_comm 1] at hstep
            simp only [beq_self_eq_true, if_true, Bool.false_eq_true, if_false,
              List.count_cons_self]
            exact hstep
      · rw [if_neg hc, List.count_cons_of_ne hc]
        have hne : (c == '/') = false := by simpa using hc
        simp only [hne, Bool.false_eq_true, if_false]
        exact ih count false

/-- The depth of a location is the number of its runs of slashes before the trailing ones. -/
theorem countLogicalSlashes_eq (s : Str) :
    countLogicalSlashes s = (collapseRuns (trimTrailingSlashes s)).count '/' := by
  have htrim : s.rdropWhile (· == '/') = trimTrailingSlashes s := by
    rw [trimTrailingSlashes]
    congr 1
  rw [countLogicalSlashes, htrim]
  split
  · next hempty =>
      rw [List.isEmpty_iff.1 hempty]
      rfl
  · dsimp only
    split
    · next hempty =>
        rw [List.isEmpty_iff.1 hempty]
        rfl
    · rw [foldl_logicalSlashes, Nat.zero_add]
      rfl

theorem containsDoubleSlash_trimTrailingSlashes {s : Str} (h : containsDoubleSlash s = false) :
    containsDoubleSlash (trimTrailingSlashes s) = false := by
  rw [← Bool.not_eq_true, containsDoubleSlash_iff] at h ⊢
  exact fun hinside => h (hinside.trans (List.rdropWhile_prefix _ _).isInfix)

/-- A location matches a path without double slashes on a segment boundary. -/
theorem matchLocation_iff_startsWith {location path : Str} (hlocation : containsDoubleSlash location = false)
    (hpath : containsDoubleSlash path = false) :
    matchLocation id location path = true ↔ path = trimTrailingSlashes location ∨
      trimTrailingSlashes location ++ ['/'] <+: path := by
  have hcollapsed : ∀ s : Str, containsDoubleSlash s = false → collapseRuns s = s := fun s hs =>
    collapseFrom_eq_self false s hs fun h => absurd h (by simp)
  rw [matchLocation_iff_of_not_contains id location hpath, UnderLocation, hcollapsed path hpath,
    hcollapsed _ (containsDoubleSlash_trimTrailingSlashes hlocation)]
  rfl

/-- Of two locations that match a path the longer one is deeper. -/
theorem depth_lt_of_length_lt {shorter longer path : Str}
    (hshorter : containsDoubleSlash shorter = false) (hlonger : containsDoubleSlash longer = false)
    (hpath : containsDoubleSlash path = false) (hmatchShorter : matchLocation id shorter path = true)
    (hmatchLonger : matchLocation id longer path = true)
    (hlength : (trimTrailingSlashes shorter).length < (trimTrailingSlashes longer).length) :
    countLogicalSlashes shorter < countLogicalSlashes longer := by
  have hcollapsed : ∀ s : Str, containsDoubleSlash s = false →
      collapseRuns (trimTrailingSlashes s) = trimTrailingSlashes s := fun s hs =>
    collapseFrom_eq_self false _ (containsDoubleSlash_trimTrailingSlashes hs) fun h =>
      absurd h (by simp)
  have hprefixLonger : trimTrailingSlashes longer <+: path := by
    rcases (matchLocation_iff_startsWith hlonger hpath).1 hmatchLonger with hsame | hstart
    · rw [hsame]
    · exact (List.prefix_append _ _).trans hstart
  have hprefixShorter : trimTrailingSlashes shorter ++ ['/'] <+: path := by
    rcases (matchLocation_iff_startsWith hshorter hpath).1 hmatchShorter with hsame | hstart
    · rw [hsame] at hprefixLonger
      exact absurd hprefixLonger.length_le (by omega)
    · exact hstart
  obtain ⟨rest, hrest⟩ := List.prefix_of_prefix_length_le hprefixShorter hprefixLonger (by
    rw [List.length_append, List.length_singleton]
    exact hlength)
  rw [countLogicalSlashes_eq, countLogicalSlashes_eq, hcollapsed _ hshorter, hcollapsed _ hlonger,
    ← hrest, List.count_append, List.count_append, List.count_singleton_self]
  omega

/-! ## The most specific configuration -/

/-- The configuration that is found matches the request, and the ones that match are no more
specific. -/
theorem matches_of_found {ε : Type}
    {matchCondition : ConditionalData → HashMap Str Str → Except ε (Bool × HashMap Str Str)}
    {toLowercase : Str → Str} {configurations : List ServerConfiguration} {path : Str}
    {hostname : Option Str} {localAddr : LocalAddress} {c : ServerConfiguration}
    (h : findConfiguration matchCondition toLowercase (.new configurations) path hostname localAddr =
      .ok (some c)) :
    c ∈ configurations ∧ Matches matchCondition toLowercase c.filters path hostname localAddr ∧
      ∀ d ∈ configurations, Matches matchCondition toLowercase d.filters path hostname localAddr →
        (hostSpecificity d.filters c.filters).isLE = true := by
  have hmem : ∀ d, d ∈ (ServerConfigurations.new configurations).inner.reverse ↔
      d ∈ configurations := by
    intro d
    rw [List.mem_reverse, ServerConfigurations.new, sortBy, List.mem_insertionSort,
      List.mem_reverse]
  have hsorted : (ServerConfigurations.new configurations).inner.reverse.Pairwise fun a b =>
      KeyLE ServerConfigurationFilters.cmp ServerConfiguration.filters b a :=
    List.pairwise_reverse.2 (List.pairwise_insertionSort _ _)
  obtain ⟨front, back, hsplit, hmatches, hfront⟩ := findMatching_eq_some h
  rw [hsplit] at hsorted
  refine ⟨?_, hmatches, ?_⟩
  · rw [← hmem, hsplit]
    exact List.mem_append_right _ List.mem_cons_self
  · intro d hd hmatchesD
    have hcmp : (ServerConfigurationFilters.cmp d.filters c.filters).isLE = true := by
      rw [← hmem, hsplit] at hd
      rcases List.mem_append.1 hd with hbefore | hafter
      · exact absurd hmatchesD (hfront d hbefore)
      · rcases List.mem_cons.1 hafter with rfl | hback
        · have hself : ServerConfigurationFilters.cmp d.filters d.filters = .eq :=
            ReflCmp.compare_self
          rw [hself]
          rfl
        · exact List.rel_of_pairwise_cons (List.pairwise_append.1 hsorted).2.1 hback
    rw [cmp_eq, hmatches.errorHandlerStatus, hmatchesD.errorHandlerStatus] at hcmp
    cases hspecificity : hostSpecificity d.filters c.filters with
    | lt => rfl
    | eq => rfl
    | gt =>
        rw [hspecificity] at hcmp
        exact absurd hcmp (by decide)

/-- Two lists have the same configurations of each specificity, in the same order. -/
def SameClasses (configurations other : List ServerConfiguration) : Prop :=
  ∀ filters, configurations.filter (fun c => hostSpecificity filters c.filters == .eq) =
    other.filter fun c => hostSpecificity filters c.filters == .eq

/-- The order in which configurations of different specificity are listed does not count. -/
theorem new_eq_of_sameClasses {configurations other : List ServerConfiguration}
    (h : SameClasses configurations other) :
    ServerConfigurations.new configurations = ServerConfigurations.new other := by
  rw [ServerConfigurations.new, ServerConfigurations.new, ServerConfigurations.mk.injEq]
  apply eq_of_filter_tied _ (List.pairwise_insertionSort _ _) (List.pairwise_insertionSort _ _)
  intro a
  -- tied configurations have one specificity
  have hclass : ∀ l : List ServerConfiguration,
      (l.filter fun c => hostSpecificity a.filters c.filters == .eq).filter
          (Tied (KeyLE ServerConfigurationFilters.cmp ServerConfiguration.filters) a) =
        l.filter (Tied (KeyLE ServerConfigurationFilters.cmp ServerConfiguration.filters) a) := by
    intro l
    rw [List.filter_filter]
    congr 1
    funext c
    rw [Bool.and_eq_left_iff_imp]
    intro htied
    obtain ⟨hle, hge⟩ := (tied_iff _).1 htied
    have hcmp := OrientedCmp.isLE_antisymm hle hge
    rw [cmp_eq, Ordering.then_eq_eq] at hcmp
    rw [hcmp.1]
    rfl
  have hsame : configurations.filter
        (Tied (KeyLE ServerConfigurationFilters.cmp ServerConfiguration.filters) a) =
      other.filter (Tied (KeyLE ServerConfigurationFilters.cmp ServerConfiguration.filters) a) := by
    rw [← hclass configurations, ← hclass other, h a.filters]
  have htied : ∀ b c, Tied (KeyLE ServerConfigurationFilters.cmp ServerConfiguration.filters) a b =
      true → Tied (KeyLE ServerConfigurationFilters.cmp ServerConfiguration.filters) a c = true →
      KeyLE ServerConfigurationFilters.cmp ServerConfiguration.filters b c := by
    intro b c hb hc
    exact IsTrans.trans b a c ((tied_iff _).1 hb).2 ((tied_iff _).1 hc).1
  rw [filter_insertionSort _ _ htied, filter_insertionSort _ _ htied, List.filter_reverse,
    List.filter_reverse, hsame]

/-- The filters are those of one host. -/
structure SameHost (a b : ServerConfigurationFilters) : Prop where
  isHost : a.isHost = b.isHost
  hostname : a.hostname = b.hostname
  ip : a.ip = b.ip
  port : a.port = b.port

/-- Under one host the depth of the location comes first. -/
theorem hostSpecificity_of_sameHost {a b : ServerConfigurationFilters} (h : SameHost a b) :
    hostSpecificity a b = (compare (a.condition.map fun c => countLogicalSlashes c.locationPrefix)
      (b.condition.map fun c => countLogicalSlashes c.locationPrefix)).then
        (compare (a.condition.map fun c => c.conditionals.length)
          (b.condition.map fun c => c.conditionals.length)) := by
  simp only [hostSpecificity, specificity, compareLex, compareOn, h.isHost, h.hostname, h.ip, h.port,
    ReflCmp.compare_self, Ordering.eq_then]

/-- No location of one host that matches the path is longer than the one that is found. -/
theorem length_le_of_isLE {a b : ServerConfigurationFilters} {conditionsA conditionsB : Conditions}
    {path : Str} (hhost : SameHost a b) (hle : (hostSpecificity a b).isLE = true)
    (hconditionA : a.condition = some conditionsA) (hconditionB : b.condition = some conditionsB)
    (hslashA : containsDoubleSlash conditionsA.locationPrefix = false)
    (hslashB : containsDoubleSlash conditionsB.locationPrefix = false)
    (hpath : containsDoubleSlash path = false)
    (hmatchA : matchLocation id conditionsA.locationPrefix path = true)
    (hmatchB : matchLocation id conditionsB.locationPrefix path = true) :
    (trimTrailingSlashes conditionsA.locationPrefix).length ≤
      (trimTrailingSlashes conditionsB.locationPrefix).length := by
  by_contra hlonger
  have hdeeper := depth_lt_of_length_lt hslashB hslashA hpath hmatchB hmatchA (by omega)
  have hgt : compare (some (countLogicalSlashes conditionsA.locationPrefix))
      (some (countLogicalSlashes conditionsB.locationPrefix)) = .gt := Nat.compare_eq_gt.2 hdeeper
  rw [hostSpecificity_of_sameHost hhost, hconditionA, hconditionB, Option.map_some,
    Option.map_some, hgt] at hle
  exact absurd hle Bool.false_ne_true

/-- The configuration that is found matches the request, and no other one that matches is more
specific: host blocks first, then by port, address, hostname, location and conditionals. Of the
locations of one host that match the path no other one is longer. Configurations of different
specificity may be listed in any order. -/
theorem findConfiguration_mostSpecific {ε : Type}
    (matchCondition : ConditionalData → HashMap Str Str → Except ε (Bool × HashMap Str Str))
    (toLowercase : Str → Str) (configurations : List ServerConfiguration) (path : Str)
    (hostname : Option Str) (localAddr : LocalAddress) (c : ServerConfiguration)
    (hfound : findConfiguration matchCondition toLowercase (.new configurations) path hostname
      localAddr = .ok (some c)) :
    Matches matchCondition toLowercase c.filters path hostname localAddr ∧
      (∀ d ∈ configurations, Matches matchCondition toLowercase d.filters path hostname localAddr →
        hostSpecificity d.filters c.filters ≠ .gt ∧
        (SameHost d.filters c.filters → containsDoubleSlash path = false →
          ∀ conditionsD conditionsC, d.filters.condition = some conditionsD →
            c.filters.condition = some conditionsC →
            containsDoubleSlash conditionsD.locationPrefix = false →
            containsDoubleSlash conditionsC.locationPrefix = false →
            (trimTrailingSlashes conditionsD.locationPrefix).length ≤
              (trimTrailingSlashes conditionsC.locationPrefix).length)) ∧
      ∀ other, SameClasses configurations other →
        findConfiguration matchCondition toLowercase (.new other) path hostname localAddr =
          .ok (some c) := by
  obtain ⟨-, hmatches, hgreatest⟩ := matches_of_found hfound
  refine ⟨hmatches, ?_, ?_⟩
  · intro d hd hmatchesD
    have hle := hgreatest d hd hmatchesD
    constructor
    · intro hgt
      rw [hgt] at hle
      exact absurd hle (by decide)
    · intro hhost hpath conditionsD conditionsC hconditionD hconditionC hslashD hslashC
      exact length_le_of_isLE hhost hle hconditionD hconditionC hslashD hslashC hpath
        (hmatchesD.condition conditionsD hconditionD).1 (hmatches.condition conditionsC hconditionC).1
  · intro other hclasses
    rw [← new_eq_of_sameClasses hclasses]
    exact hfound

/-- `globals { location "/x" { .. } }`. -/
def globalLocation : ServerConfiguration :=
  ⟨∅, ⟨false, none, none, none, some ⟨"/x".toList, []⟩, none⟩⟩

/-- `* { .. }`. -/
def anyHost : ServerConfiguration := ⟨∅, ⟨true, none, none, none, none, none⟩⟩

/-- No subcondition is asked for. -/
def noCondition (_ : ConditionalData) (constants : HashMap Str Str) :
    Except Empty (Bool × HashMap Str Str) := .ok (true, constants)

/-- A request for `/x/y`. -/
def findForX (configurations : List ServerConfiguration) :
    Except Empty (Option ServerConfiguration) :=
  findConfiguration noCondition id (.new configurations) "/x/y".toList none ⟨.v4 1, 80⟩

theorem matches_globalLocation :
    Matches noCondition id globalLocation.filters "/x/y".toList none ⟨.v4 1, 80⟩ := by
  refine ⟨rfl, Or.inl ⟨rfl, fun h => absurd h (by decide)⟩, Or.inl rfl, ?_, rfl⟩
  rintro conditions ⟨⟩
  exact ⟨by decide +kernel, rfl⟩

/-- The host block is found, though a location outside it is deeper. -/
theorem findConfiguration_hostFirst :
    findForX [globalLocation, anyHost] = .ok (some anyHost) ∧
      ¬ ∀ d ∈ [globalLocation, anyHost],
        Matches noCondition id d.filters "/x/y".toList none ⟨.v4 1, 80⟩ →
        specificity d.filters anyHost.filters ≠ .gt := by
  refine ⟨rfl, ?_⟩
  intro h
  exact h globalLocation List.mem_cons_self matches_globalLocation (by decide)

/-- Host blocks count first. -/
theorem findConfiguration_mostSpecific_host :
    Matches noCondition id anyHost.filters "/x/y".toList none ⟨.v4 1, 80⟩ ∧
      ∀ d ∈ [globalLocation, anyHost],
        Matches noCondition id d.filters "/x/y".toList none ⟨.v4 1, 80⟩ →
        hostSpecificity d.filters anyHost.filters ≠ .gt := by
  obtain ⟨hmatches, hgreatest, -⟩ := findConfiguration_mostSpecific noCondition id
    [globalLocation, anyHost] "/x/y".toList none ⟨.v4 1, 80⟩ anyHost rfl
  exact ⟨hmatches, fun d hd hmatchesD => (hgreatest d hd hmatchesD).1⟩

end Ferron.Config
