import Ferron.Config.MatchCondition
import Ferron.Lib.FirstMatch

/-!
# Hosts by address and IPv4-mapped addresses

A listener for IPv4 and IPv6 reports an IPv4 address in the IPv4-mapped form. The check for the host
`localhost` brings the local address into the canonical form, but the comparison with the address of a
host block does not, so a block for an IPv4 address is found for one form of the address only, and one
for the mapped form for the other only. What is found does not depend on the form exactly when no such
block has all else matching where the scan comes to it, and no subcondition tells the forms apart
(`findAt_eq_iff`).
-/

set_option autoImplicit false

namespace Ferron.Common.IpAddr

/-- `to_ipv6_mapped`. -/
def toIpv6Mapped (address : BitVec 32) : IpAddr := v6 (BitVec.ofNat 128 (0xffff * 2 ^ 32 + address.toNat))

/-- The canonical form of a mapped address is the IPv4 address. -/
theorem toCanonical_toIpv6Mapped (address : BitVec 32) :
    (toIpv6Mapped address).toCanonical = v4 address := by
  have hlt := address.isLt
  have hupper : BitVec.ofNat 128 (0xffff * 2 ^ 32 + address.toNat) >>> 32 = 0xffff := by
    apply BitVec.eq_of_toNat_eq
    rw [BitVec.toNat_ushiftRight, BitVec.toNat_ofNat, Nat.shiftRight_eq_div_pow]
    change _ = 0xffff
    omega
  have hlower : (BitVec.ofNat 128 (0xffff * 2 ^ 32 + address.toNat)).setWidth 32 = address := by
    apply BitVec.eq_of_toNat_eq
    rw [BitVec.toNat_setWidth, BitVec.toNat_ofNat]
    omega
  rw [toIpv6Mapped, toCanonical, if_pos hupper, hlower]

end Ferron.Common.IpAddr

namespace Ferron.Config.MappedAddresses

open Ferron.Common Ferron.Http Ferron.Lib

/-! ## Configurations at a local address -/

/-- A request as it comes to the scan, with its connection up to the local address. -/
structure Arrival where
  request : Parts
  hostname : Option Str
  remoteAddr : SocketAddr
  port : UInt16
  encrypted : Bool

namespace Arrival

/-- The connection with the local address. -/
def socketData (arrival : Arrival) (ip : IpAddr) : SocketData :=
  ⟨arrival.remoteAddr, ⟨ip, arrival.port⟩, arrival.encrypted⟩

/-- The path of the request. -/
def path (arrival : Arrival) : Str := arrival.request.uri.path

end Arrival

section Scan

variable (matcher : Matcher) (toLowercase : Str → Str) (arrival : Arrival)

/-- The subconditions at the local address. -/
def conditionAt (ip : IpAddr) :
    ConditionalData → HashMap Str Str → Except Failure (Bool × HashMap Str Str) :=
  matchCondition matcher arrival.request (arrival.socketData ip)

/-- `find_configuration` at the local address. -/
def findAt (configurations : ServerConfigurations) (ip : IpAddr) :
    Except Failure (Option ServerConfiguration) :=
  findConfiguration (conditionAt matcher arrival ip) toLowercase configurations arrival.path
    arrival.hostname ⟨ip, arrival.port⟩

/-- The predicate of the scan at the local address. -/
def matchesAt (ip : IpAddr) (filters : ServerConfigurationFilters) : Except Failure Bool :=
  matchesRequest (conditionAt matcher arrival ip) toLowercase filters arrival.path arrival.hostname
    ⟨ip, arrival.port⟩

/-- All else but the address matches: the hostname, the port, the location, the conditionals, and there
is no error status. -/
def restMatches (ip : IpAddr) (filters : ServerConfigurationFilters) : Except Failure Bool :=
  if matchHostname filters.hostname arrival.hostname &&
      (filters.port.isNone || filters.port == some arrival.port) then
    match filters.condition with
    | none => .ok filters.errorHandlerStatus.isNone
    | some conditions =>
        match matchConditions (conditionAt matcher arrival ip) conditions arrival.path with
        | .error err => .error err
        | .ok matched => .ok (matched && filters.errorHandlerStatus.isNone)
  else .ok false

/-- The address of the filters matches. -/
def ipMatches (ip : IpAddr) (filters : ServerConfigurationFilters) : Bool :=
  filters.ip.isNone && (!isLocalhost toLowercase filters.ip filters.hostname ||
    ip.toCanonical.isLoopback) || filters.ip == some ip

variable {matcher toLowercase arrival}

theorem matchesAt_eq (ip : IpAddr) (filters : ServerConfigurationFilters) :
    matchesAt matcher toLowercase arrival ip filters =
      if ipMatches toLowercase ip filters then restMatches matcher arrival ip filters
      else .ok false := by
  have hhost : matchesHost toLowercase filters arrival.hostname ⟨ip, arrival.port⟩ =
      (ipMatches toLowercase ip filters && (matchHostname filters.hostname arrival.hostname &&
        (filters.port.isNone || filters.port == some arrival.port))) := by
    rw [matchesHost, ipMatches, Bool.and_assoc, Bool.and_left_comm]
  rw [matchesAt, matchesRequest, hhost, restMatches]
  cases ipMatches toLowercase ip filters with
  | true =>
      rw [Bool.true_and, if_pos (rfl : true = true)]
      cases filters.condition with
      | none => rfl
      | some conditions =>
          dsimp only
          cases matchConditions (conditionAt matcher arrival ip) conditions arrival.path <;> rfl
  | false => rfl

/-- A configuration without an address has the same one to match in both forms. -/
theorem ipMatches_of_canonical {ip ip' : IpAddr} (hcanonical : ip.toCanonical = ip'.toCanonical)
    {filters : ServerConfigurationFilters} (hnone : filters.ip = none) :
    ipMatches toLowercase ip filters = ipMatches toLowercase ip' filters := by
  rw [ipMatches, ipMatches, hcanonical, hnone]
  simp

theorem ipMatches_of_some {ip other : IpAddr} {filters : ServerConfigurationFilters}
    (hsome : filters.ip = some other) : ipMatches toLowercase ip filters = decide (other = ip) := by
  rw [ipMatches, hsome, Bool.eq_iff_iff]
  simp

variable (matcher toLowercase arrival)

/-- The filters match alike at two forms of an address: without an address, all else matches alike in
both forms, and with the address in one of them, all else does not match in it. -/
structure SameInBoth (ip ip' : IpAddr) (filters : ServerConfigurationFilters) : Prop where
  absent : filters.ip = none → ipMatches toLowercase ip filters = true →
    restMatches matcher arrival ip filters = restMatches matcher arrival ip' filters
  left : filters.ip = some ip → restMatches matcher arrival ip filters = .ok false
  right : filters.ip = some ip' → restMatches matcher arrival ip' filters = .ok false

variable {matcher toLowercase arrival}

theorem matchesAt_eq_iff {ip ip' : IpAddr} (hcanonical : ip.toCanonical = ip'.toCanonical)
    (hne : ip ≠ ip') (filters : ServerConfigurationFilters) :
    matchesAt matcher toLowercase arrival ip filters =
        matchesAt matcher toLowercase arrival ip' filters ↔
      SameInBoth matcher toLowercase arrival ip ip' filters := by
  rw [matchesAt_eq, matchesAt_eq]
  cases hip : filters.ip with
  | none =>
      rw [← ipMatches_of_canonical hcanonical hip]
      constructor
      · intro h
        refine ⟨fun _ hmatches => ?_, fun hsome => ?_, fun hsome => ?_⟩
        · rwa [if_pos hmatches, if_pos hmatches] at h
        · rw [hip] at hsome
          exact absurd hsome (by simp)
        · rw [hip] at hsome
          exact absurd hsome (by simp)
      · intro h
        split
        · next hmatches => exact h.absent hip hmatches
        · rfl
  | some other =>
      rw [ipMatches_of_some hip, ipMatches_of_some hip]
      have hnone : ¬filters.ip = none := by simp [hip]
      by_cases hleft : other = ip
      · subst hleft
        rw [if_pos (decide_eq_true rfl), if_neg (by simpa using hne)]
        constructor
        · exact fun h => ⟨fun habsent => absurd habsent hnone, fun _ => h, fun hright =>
            absurd (Option.some.inj (hip.symm.trans hright)) hne⟩
        · exact fun h => h.left hip
      · rw [if_neg (by simpa using hleft)]
        by_cases hright : other = ip'
        · subst hright
          rw [if_pos (decide_eq_true rfl)]
          constructor
          · exact fun h => ⟨fun habsent => absurd habsent hnone, fun hleft' =>
              absurd (Option.some.inj (hip.symm.trans hleft')) hleft, fun _ => h.symm⟩
          · exact fun h => (h.right hip).symm
        · rw [if_neg (by simpa using hright)]
          refine iff_of_true rfl ⟨fun habsent => absurd habsent hnone, fun hleft' => ?_,
            fun hright' => ?_⟩
          · exact absurd (Option.some.inj (hip.symm.trans hleft')) hleft
          · exact absurd (Option.some.inj (hip.symm.trans hright')) hright

/-! ## The scan -/

variable (matcher toLowercase arrival)

/-- The scan goes on past the filters. -/
def PassedOver (ip : IpAddr) (c : ServerConfiguration) : Prop :=
  matchesAt matcher toLowercase arrival ip c.filters = .ok false

/-- The first configuration that the scan does not go past ends it with the error. -/
def FailsFirst (ip : IpAddr) (err : Failure) (configurations : List ServerConfiguration) : Prop :=
  ∃ front c back, configurations = front ++ c :: back ∧
    (∀ d ∈ front, PassedOver matcher toLowercase arrival ip d) ∧
    matchesAt matcher toLowercase arrival ip c.filters = .error err

/-- The configuration ends the scan with an error at one address, and at the other one the scan goes past
it and ends with the same error later. -/
def FailsLater (ip ip' : IpAddr) (c : ServerConfiguration) (back : List ServerConfiguration) : Prop :=
  ∃ err, matchesAt matcher toLowercase arrival ip c.filters = .error err ∧
    PassedOver matcher toLowercase arrival ip' c ∧
    FailsFirst matcher toLowercase arrival ip' err back

/-- What a configuration ends the scan with, if it does. -/
def verdict (ip : IpAddr) (c : ServerConfiguration) : Option (Except Failure ServerConfiguration) :=
  match matchesAt matcher toLowercase arrival ip c.filters with
  | .error err => some (.error err)
  | .ok true => some (.ok c)
  | .ok false => none

variable {matcher toLowercase arrival}

theorem verdict_eq_none_iff {ip : IpAddr} {c : ServerConfiguration} :
    verdict matcher toLowercase arrival ip c = none ↔ PassedOver matcher toLowercase arrival ip c := by
  unfold verdict PassedOver
  split <;> simp_all

theorem verdict_eq_error_iff {ip : IpAddr} {c : ServerConfiguration} {err : Failure} :
    verdict matcher toLowercase arrival ip c = some (.error err) ↔
      matchesAt matcher toLowercase arrival ip c.filters = .error err := by
  unfold verdict
  split <;> simp_all

theorem verdict_eq_ok {ip : IpAddr} {c c' : ServerConfiguration}
    (h : verdict matcher toLowercase arrival ip c = some (.ok c')) : c' = c := by
  unfold verdict at h
  split at h
  · exact absurd h (by simp)
  · exact (Except.ok.inj (Option.some.inj h)).symm
  · exact absurd h (by simp)

/-- The verdicts of a configuration at two addresses are the same when the predicates are. -/
theorem verdict_eq_iff {ip ip' : IpAddr} {c : ServerConfiguration} :
    verdict matcher toLowercase arrival ip c = verdict matcher toLowercase arrival ip' c ↔
      matchesAt matcher toLowercase arrival ip c.filters =
        matchesAt matcher toLowercase arrival ip' c.filters := by
  unfold verdict
  split <;> split <;> simp_all

/-- The result of the scan with the verdict that ends it. -/
def ofVerdict : Option (Except Failure ServerConfiguration) →
    Except Failure (Option ServerConfiguration)
  | none => .ok none
  | some (.ok c) => .ok (some c)
  | some (.error err) => .error err

theorem ofVerdict_injective : Function.Injective ofVerdict := by
  rintro (_ | _ | c) (_ | _ | c') h <;> simp_all [ofVerdict]

/-- The scan stops at the first verdict. -/
theorem findAt_eq (configurations : ServerConfigurations) (ip : IpAddr) :
    findAt matcher toLowercase arrival configurations ip =
      ofVerdict (configurations.inner.reverse.findSome? (verdict matcher toLowercase arrival ip)) := by
  unfold findAt findConfiguration
  induction configurations.inner.reverse with
  | nil => rfl
  | cons c rest ih =>
      rw [findMatching, List.findSome?_cons, verdict, matchesAt]
      split <;> simp_all [ofVerdict]

theorem failsFirst_iff {ip : IpAddr} {err : Failure} {configurations : List ServerConfiguration} :
    FailsFirst matcher toLowercase arrival ip err configurations ↔
      configurations.findSome? (verdict matcher toLowercase arrival ip) = some (.error err) := by
  rw [List.findSome?_eq_some_iff]
  unfold FailsFirst
  refine exists_congr fun front => exists_congr fun c => exists_congr fun back =>
    and_congr_right fun _ => ?_
  rw [verdict_eq_error_iff, and_comm]
  refine and_congr_right fun _ => forall₂_congr fun d _ => ?_
  exact verdict_eq_none_iff.symm

/-- Only an error can be the verdict of another configuration as well. -/
theorem failsLater_of_verdict {ip ip' : IpAddr} {c : ServerConfiguration}
    {back : List ServerConfiguration} (hresult : verdict matcher toLowercase arrival ip c ≠ none)
    (hpassed : verdict matcher toLowercase arrival ip' c = none)
    (hlater : verdict matcher toLowercase arrival ip c =
      back.findSome? (verdict matcher toLowercase arrival ip')) :
    FailsLater matcher toLowercase arrival ip ip' c back := by
  obtain ⟨result, hverdict⟩ := Option.ne_none_iff_exists'.1 hresult
  cases result with
  | error err =>
      refine ⟨err, verdict_eq_error_iff.1 hverdict, verdict_eq_none_iff.1 hpassed, ?_⟩
      rw [failsFirst_iff, ← hlater, hverdict]
  | ok c' =>
      -- a configuration that is found later is the same one, which was passed over
      obtain rfl := verdict_eq_ok hverdict
      obtain ⟨-, d, -, -, hd, -⟩ := List.findSome?_eq_some_iff.1 (hlater.symm.trans hverdict)
      obtain rfl := verdict_eq_ok hd
      rw [hpassed] at hd
      exact absurd hd (by simp)

theorem verdict_of_failsLater {ip ip' : IpAddr} {c : ServerConfiguration}
    {back : List ServerConfiguration} (h : FailsLater matcher toLowercase arrival ip ip' c back) :
    verdict matcher toLowercase arrival ip' c = none ∧
      verdict matcher toLowercase arrival ip c =
        back.findSome? (verdict matcher toLowercase arrival ip') := by
  obtain ⟨err, herr, hpassed, hlater⟩ := h
  refine ⟨verdict_eq_none_iff.2 hpassed, ?_⟩
  rw [verdict_eq_error_iff.2 herr, failsFirst_iff.1 hlater]

/-- From a configuration on, the scan has the same result at both addresses. -/
theorem alike_iff {ip ip' : IpAddr} {c : ServerConfiguration} {back : List ServerConfiguration} :
    ((verdict matcher toLowercase arrival ip c ≠ none ∨
        verdict matcher toLowercase arrival ip' c ≠ none) →
      FirstMatch.Alike (verdict matcher toLowercase arrival ip)
        (verdict matcher toLowercase arrival ip') c back) ↔
      matchesAt matcher toLowercase arrival ip c.filters =
          matchesAt matcher toLowercase arrival ip' c.filters ∨
        FailsLater matcher toLowercase arrival ip ip' c back ∨
        FailsLater matcher toLowercase arrival ip' ip c back := by
  rw [← verdict_eq_iff]
  constructor
  · intro h
    by_cases hsame : verdict matcher toLowercase arrival ip c =
        verdict matcher toLowercase arrival ip' c
    · exact Or.inl hsame
    · have hresult : verdict matcher toLowercase arrival ip c ≠ none ∨
          verdict matcher toLowercase arrival ip' c ≠ none := by
        by_contra hnone
        rw [not_or, not_not, not_not] at hnone
        exact hsame (hnone.1.trans hnone.2.symm)
      rcases h hresult with heq | ⟨hpassed, hlater⟩ | ⟨hpassed, hlater⟩
      · exact absurd heq hsame
      · exact Or.inr (Or.inl (failsLater_of_verdict (hpassed ▸ hsame) hpassed hlater))
      · refine Or.inr (Or.inr (failsLater_of_verdict ?_ hpassed hlater))
        exact fun hnone => hsame (hpassed.trans hnone.symm)
  · rintro (hsame | hfails | hfails) -
    · exact Or.inl hsame
    · exact Or.inr (Or.inl (verdict_of_failsLater hfails))
    · exact Or.inr (Or.inr (verdict_of_failsLater hfails))

variable (matcher toLowercase arrival)

/-- The result for an IPv4 address is the same in both forms exactly when the first configuration of the
scan that is not passed over in both forms matches alike in both: without an address filter, all else
matches alike; with one of the two forms as its address, all else does not match. Otherwise it can only
be that its conditionals end in an error in one form and the scan ends with the same error in the
other. -/
theorem findAt_eq_iff (configurations : ServerConfigurations) (address : BitVec 32) :
    findAt matcher toLowercase arrival configurations (.v4 address) =
        findAt matcher toLowercase arrival configurations (.toIpv6Mapped address) ↔
      ∀ front c back, configurations.inner.reverse = front ++ c :: back →
        (∀ d ∈ front, PassedOver matcher toLowercase arrival (.v4 address) d ∧
          PassedOver matcher toLowercase arrival (.toIpv6Mapped address) d) →
        SameInBoth matcher toLowercase arrival (.v4 address) (.toIpv6Mapped address) c.filters ∨
          FailsLater matcher toLowercase arrival (.v4 address) (.toIpv6Mapped address) c back ∨
          FailsLater matcher toLowercase arrival (.toIpv6Mapped address) (.v4 address) c back := by
  have hcanonical : (IpAddr.v4 address).toCanonical = (IpAddr.toIpv6Mapped address).toCanonical := by
    rw [IpAddr.toCanonical_toIpv6Mapped, IpAddr.toCanonical]
  have hne : IpAddr.v4 address ≠ IpAddr.toIpv6Mapped address := by simp [IpAddr.toIpv6Mapped]
  rw [findAt_eq, findAt_eq, ofVerdict_injective.eq_iff, FirstMatch.findSome?_eq_findSome?_iff]
  refine forall₃_congr fun front c back => imp_congr_right fun _ => ?_
  rw [alike_iff, matchesAt_eq_iff hcanonical hne]
  simp only [verdict_eq_none_iff]

end Scan

/-! ## A host block for an address -/

/-- `192.0.2.1 { .. }`. -/
def addressBlock : ServerConfiguration :=
  ⟨∅, ⟨true, none, some (.v4 0xC0000201), none, none, none⟩⟩

/-- A request without a Host header. -/
def plainArrival : Arrival := ⟨adminRequest, none, ⟨.v4 1, 1000⟩, 80, false⟩

/-- The block is found for connections to its address, but not where a listener for IPv4 and IPv6 reports
the address in the mapped form. -/
theorem findAt_mapped :
    findAt literalMatcher id plainArrival (.new [addressBlock]) (.v4 0xC0000201) =
        .ok (some addressBlock) ∧
      findAt literalMatcher id plainArrival (.new [addressBlock]) (.toIpv6Mapped 0xC0000201) = .ok none ∧
      ¬findAt literalMatcher id plainArrival (.new [addressBlock]) (.v4 0xC0000201) =
        findAt literalMatcher id plainArrival (.new [addressBlock]) (.toIpv6Mapped 0xC0000201) := by
  have hdirect : findAt literalMatcher id plainArrival (.new [addressBlock]) (.v4 0xC0000201) =
      .ok (some addressBlock) := rfl
  have hmapped : findAt literalMatcher id plainArrival (.new [addressBlock])
      (.toIpv6Mapped 0xC0000201) = .ok none := rfl
  refine ⟨hdirect, hmapped, ?_⟩
  rw [hdirect, hmapped]
  exact fun h => absurd (Except.ok.inj h) (by simp)

end Ferron.Config.MappedAddresses
