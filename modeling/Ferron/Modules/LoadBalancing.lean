import Ferron.Modules.HealthChecks
import Ferron.Modules.LeastConnections

/-!
# Choosing and retrying backend servers

A request takes a backend server out of the list of the configured ones, by one of four load balancing
algorithms. When the connection fails, another one is taken out of what is left. With health checks, the
backend servers that are chosen are taken out until one has not failed too often.

`retryLoop_takesEach` says that the backend server is one of the list, that nothing is taken out besides it
and those with too many failures, that one with too many failures is only used when all have, and that
a request ends after it has tried each of the configured backend servers once at most.
-/

set_option autoImplicit false

namespace Ferron.Modules.LoadBalancing

open Ferron.Modules.ReverseProxy (Backend)
open Ferron.Modules.RoundRobin
open Ferron.Modules.ConnectionTrack (Selecting pickIndex selectedIndex selectedIndex_lt)
open Ferron.Modules.HealthChecks (ConnectError)

/-! ## The algorithms -/

/-- `LoadBalancerAlgorithm`. -/
inductive LoadBalancerAlgorithm where
  | twoRandomChoices
  | leastConnections
  | roundRobin
  | random

/-- What the algorithms share: the counts of connections, the counter of round robin, and the random numbers
that are drawn one after the other. -/
structure Balancer where
  connectionTrack : HashMap Backend Nat
  roundRobinIndex : Nat
  draws : List ConnectionTrack.Answer

namespace Balancer

/-- The next random numbers. -/
def draw (balancer : Balancer) : ConnectionTrack.Answer := balancer.draws.headD ⟨0, 0, 0, false, false⟩

/-- The algorithms that look at the counts of connections. -/
def selectByConnections (algorithm : ConnectionTrack.LoadBalancerAlgorithm) (balancer : Balancer)
    (backends : List Backend) : Nat × Balancer :=
  let counts := ((ConnectionTrack.selectBackendIndex algorithm balancer.draw.random₁
    balancer.draw.random₂ backends).eval balancer.connectionTrack).2
  (selectedIndex algorithm balancer.connectionTrack backends balancer.draw,
    { balancer with connectionTrack := counts, draws := balancer.draws.tail })

/-- `select_backend_index`. A number of the counter has so many bits. -/
def selectBackendIndex {β : Type} (bits : Nat) (algorithm : LoadBalancerAlgorithm)
    (backend : β → Backend) (balancer : Balancer) (backends : List β) : Nat × Balancer :=
  match algorithm with
  | .twoRandomChoices => balancer.selectByConnections .twoRandomChoices (backends.map backend)
  | .leastConnections => balancer.selectByConnections .leastConnections (backends.map backend)
  | .roundRobin =>
      let (index, roundRobinIndex) := selectRoundRobin bits balancer.roundRobinIndex backends
      (index, { balancer with roundRobinIndex })
  | .random =>
      (balancer.draw.random₁ % backends.length, { balancer with draws := balancer.draws.tail })

/-- Every algorithm gives an index of a list that is not empty. -/
theorem selectBackendIndex_lt {β : Type} (bits : Nat) (algorithm : LoadBalancerAlgorithm)
    (backend : β → Backend) (balancer : Balancer) {backends : List β} (hne : backends ≠ []) :
    (selectBackendIndex bits algorithm backend balancer backends).1 < backends.length := by
  have hpos : 0 < backends.length := List.length_pos_of_ne_nil hne
  have hconnections (tracked : ConnectionTrack.LoadBalancerAlgorithm) :
      (balancer.selectByConnections tracked (backends.map backend)).1 < backends.length := by
    have hmapped : backends.map backend ≠ [] := fun hnil => hne (List.map_eq_nil_iff.1 hnil)
    have hlt := selectedIndex_lt tracked balancer.connectionTrack hmapped balancer.draw
    rwa [List.length_map] at hlt
  cases algorithm with
  | twoRandomChoices => exact hconnections .twoRandomChoices
  | leastConnections => exact hconnections .leastConnections
  | roundRobin => exact Nat.mod_lt _ hpos
  | random => exact Nat.mod_lt _ hpos

end Balancer

/-! ## Taking a backend server out of the list -/

section Taking

variable {σ β : Type} {healthCheck : HealthCheck} {backend : β → Backend}
  {select : σ → List β → Nat × σ}

/-- A candidate is chosen, others are passed over, and some are left: these are all, those that are left
keep their order, only candidates with too many failures are passed over, and one with too many failures
is only chosen when all candidates are such. -/
structure TakenFrom (healthCheck : HealthCheck) (backend : β → Backend) (candidates : List β) (chosen : β)
    (passedOver left : List β) : Prop where
  removed : (chosen :: passedOver ++ left).Perm candidates
  order : left.Sublist candidates
  unhealthy : ∀ passed ∈ passedOver,
    healthCheck.enableHealthCheck = true ∧ healthCheck.isUnhealthy (backend passed) = true
  lastResort : healthCheck.enableHealthCheck = true → healthCheck.isUnhealthy (backend chosen) = true →
    ∀ candidate ∈ candidates, healthCheck.isUnhealthy (backend candidate) = true

/-- What `determine_proxy_to` gives: nothing for an empty list, and a candidate otherwise. -/
def Determines (healthCheck : HealthCheck) (backend : β → Backend) (candidates : List β)
    (determined : Determined σ β) : Prop :=
  match determined.proxyTo with
  | none => candidates = [] ∧ determined.proxyToVector = []
  | some chosen => ∃ passedOver,
      TakenFrom healthCheck backend candidates chosen passedOver determined.proxyToVector

/-- A candidate that is taken at once. -/
theorem takenFrom_eraseIdx {candidates : List β} {index : Nat} (hindex : index < candidates.length)
    (hhealthy : healthCheck.enableHealthCheck = true →
      healthCheck.isUnhealthy (backend candidates[index]) = true →
        ∀ candidate ∈ candidates, healthCheck.isUnhealthy (backend candidate) = true) :
    TakenFrom healthCheck backend candidates candidates[index] [] (candidates.eraseIdx index) where
  removed := List.getElem_cons_eraseIdx_perm hindex
  order := List.eraseIdx_sublist candidates index
  unhealthy := fun _ h => absurd h List.not_mem_nil
  lastResort := hhealthy

/-- A candidate with too many failures is passed over, and another one is taken from the rest. -/
theorem TakenFrom.passOver {candidates : List β} {index : Nat} {chosen : β} {passedOver left : List β}
    (hindex : index < candidates.length) (henabled : healthCheck.enableHealthCheck = true)
    (hunhealthy : healthCheck.isUnhealthy (backend candidates[index]) = true)
    (h : TakenFrom healthCheck backend (candidates.eraseIdx index) chosen passedOver left) :
    TakenFrom healthCheck backend candidates chosen (candidates[index] :: passedOver) left := by
  have hperm : (candidates[index] :: candidates.eraseIdx index).Perm candidates :=
    List.getElem_cons_eraseIdx_perm hindex
  constructor
  · have hswap : (chosen :: candidates[index] :: passedOver ++ left).Perm
        (candidates[index] :: (chosen :: passedOver ++ left)) := List.Perm.swap _ _ _
    exact (hswap.trans (h.removed.cons _)).trans hperm
  · exact h.order.trans (List.eraseIdx_sublist candidates index)
  · intro passed hpassed
    rcases List.mem_cons.1 hpassed with rfl | hrest
    · exact ⟨henabled, hunhealthy⟩
    · exact h.unhealthy passed hrest
  · -- the one that is passed over is unhealthy itself, and so are the others when one of them is chosen
    intro _ hchosen candidate hcandidate
    rcases List.mem_cons.1 (hperm.mem_iff.2 hcandidate) with rfl | hrest
    · exact hunhealthy
    · exact h.lastResort henabled hchosen candidate hrest

/-- The loop of `determine_proxy_to`. -/
theorem determineHealthy_spec (henabled : healthCheck.enableHealthCheck = true)
    (hselect : ∀ state candidates, candidates ≠ [] → (select state candidates).1 < candidates.length)
    (length : Nat) : ∀ (state : σ) (candidates : List β) (proxyTo : Option β),
      candidates.length = length + 1 →
        ∃ chosen passedOver,
          (determineHealthy healthCheck backend select (length + 1) state candidates proxyTo).proxyTo =
            some chosen ∧
          TakenFrom healthCheck backend candidates chosen passedOver
            (determineHealthy healthCheck backend select (length + 1) state candidates
              proxyTo).proxyToVector := by
  induction length with
  | zero =>
      intro state candidates proxyTo hlength
      -- the only candidate is taken, healthy or not
      obtain ⟨only, rfl⟩ := List.length_eq_one_iff.1 hlength
      have hindex : (select state [only]).1 = 0 := by
        have hlt := hselect state [only] (List.cons_ne_nil _ _)
        rw [List.length_singleton] at hlt
        omega
      have htaken : TakenFrom healthCheck backend [only] only [] [] := by
        have hzero : 0 < [only].length := Nat.one_pos
        refine takenFrom_eraseIdx hzero ?_
        intro _ hunhealthy candidate hcandidate
        rwa [List.mem_singleton.1 hcandidate]
      rw [determineHealthy]
      dsimp only
      rw [hindex]
      dsimp only [List.getElem?_cons_zero, determineHealthy, List.eraseIdx_cons_zero]
      split <;> exact ⟨only, [], rfl, htaken⟩
  | succ length ih =>
      intro state candidates proxyTo hlength
      have hindex := hselect state candidates (List.ne_nil_of_length_eq_add_one hlength)
      rw [determineHealthy]
      dsimp only
      rw [List.getElem?_eq_getElem hindex]
      dsimp only
      split
      · rename_i hunhealthy
        have hrest : (candidates.eraseIdx (select state candidates).1).length = length + 1 := by
          rw [List.length_eraseIdx_of_lt hindex, hlength]
          rfl
        -- the loop goes on with one candidate less
        obtain ⟨chosen, passedOver, hchosen, htaken⟩ := ih (select state candidates).2 _
          (some candidates[(select state candidates).1]) hrest
        exact ⟨chosen, _, hchosen, htaken.passOver hindex henabled hunhealthy⟩
      · rename_i hhealthy
        exact ⟨_, [], rfl, takenFrom_eraseIdx hindex fun _ h => absurd h hhealthy⟩

/-- What `determine_proxy_to` takes out of the list. -/
theorem determineProxyTo_spec
    (hselect : ∀ state candidates, candidates ≠ [] → (select state candidates).1 < candidates.length)
    (state : σ) (candidates : List β) :
    Determines healthCheck backend candidates
      (determineProxyTo healthCheck backend select state candidates) := by
  rcases candidates with - | ⟨first, - | ⟨second, rest⟩⟩
  · exact ⟨rfl, rfl⟩
  · have hzero : 0 < [first].length := Nat.one_pos
    refine ⟨[], takenFrom_eraseIdx hzero ?_⟩
    intro _ hunhealthy candidate hcandidate
    rwa [List.mem_singleton.1 hcandidate]
  · have hdetermine : determineProxyTo healthCheck backend select state (first :: second :: rest) =
        if healthCheck.enableHealthCheck then
          determineHealthy healthCheck backend select (rest.length + 1 + 1) state
            (first :: second :: rest) none
        else
          ⟨(first :: second :: rest)[(select state (first :: second :: rest)).1]?,
            (first :: second :: rest).eraseIdx (select state (first :: second :: rest)).1,
            (select state (first :: second :: rest)).2⟩ := rfl
    rw [hdetermine]
    split
    · rename_i henabled
      obtain ⟨chosen, passedOver, hchosen, htaken⟩ := @determineHealthy_spec _ _ _ backend _ henabled
        hselect (rest.length + 1) state (first :: second :: rest) none rfl
      rw [Determines, hchosen]
      exact ⟨passedOver, htaken⟩
    · rename_i hdisabled
      have hindex := hselect state (first :: second :: rest) (List.cons_ne_nil _ _)
      rw [Determines]
      dsimp only
      rw [List.getElem?_eq_getElem hindex]
      exact ⟨[], takenFrom_eraseIdx hindex fun h => absurd h hdisabled⟩

end Taking

/-! ## Retrying -/

/-- An entry of the list of backend servers, with its own limit of connections and how long these are kept
alive. -/
structure ProxyToVectorContents where
  proxyTo : Str
  proxyUnix : Option Str
  localLimitIndex : Option Nat
  keepaliveIdleTimeout : Option Nat
  deriving DecidableEq

/-- The backend server of an entry. -/
def ProxyToVectorContents.backend (contents : ProxyToVectorContents) : Backend :=
  ⟨contents.proxyTo, contents.proxyUnix⟩

/-- What a pass of the loop of `request_handler` finds: the failures that are known then, the state of the
load balancer, and how the attempt ends. Other requests may have changed the first two since the last pass. -/
structure Pass where
  healthCheck : HealthCheck
  balancer : Balancer
  result : Except ConnectError HealthChecks.Answer

section Retrying

variable (bits : Nat) (algorithm : LoadBalancerAlgorithm) (retryConnection : Bool)

/-- `determine_proxy_to` in a pass. -/
def Pass.determine (pass : Pass) (proxyToVector : List ProxyToVectorContents) :
    Determined Balancer ProxyToVectorContents :=
  determineProxyTo pass.healthCheck ProxyToVectorContents.backend
    (Balancer.selectBackendIndex bits algorithm ProxyToVectorContents.backend) pass.balancer proxyToVector

/-- The loop of `request_handler`, with the entries that it tries and the answer. It gives nothing when it
runs out of fuel. -/
def retryLoop (passes : Nat → Pass) : Nat → Nat → List ProxyToVectorContents →
    Option (List ProxyToVectorContents × HealthChecks.Answer)
  | 0, _, _ => none
  | fuel + 1, index, proxyToVector =>
      let pass := passes index
      let determined := pass.determine bits algorithm proxyToVector
      match determined.proxyTo with
      | none => some ([], .passed)
      | some chosen =>
          match pass.result with
          | .ok answer => some ([chosen], answer)
          | .error err =>
              if retryConnection && !determined.proxyToVector.isEmpty then
                (retryLoop passes fuel (index + 1) determined.proxyToVector).map fun (tried, answer) =>
                  (chosen :: tried, answer)
              else some ([chosen], .status err.responseStatus)

variable {bits algorithm retryConnection}

theorem Pass.determine_spec (pass : Pass) (proxyToVector : List ProxyToVectorContents) :
    Determines pass.healthCheck ProxyToVectorContents.backend proxyToVector
      (pass.determine bits algorithm proxyToVector) :=
  determineProxyTo_spec
    (fun _ _ hne => Balancer.selectBackendIndex_lt bits algorithm _ _ hne) pass.balancer proxyToVector

/-- With an entry in front of those that are left, nothing is tried that was not a candidate. -/
theorem TakenFrom.subperm {healthCheck : HealthCheck} {backend : ProxyToVectorContents → Backend}
    {candidates passedOver left tried : List ProxyToVectorContents} {chosen : ProxyToVectorContents}
    (h : TakenFrom healthCheck backend candidates chosen passedOver left) (htried : tried.Subperm left) :
    (chosen :: tried).Subperm candidates := by
  -- what is tried later is left, and what is left was a candidate besides the chosen one
  have hcons : (chosen :: tried).Subperm (chosen :: left) := (List.subperm_cons chosen).2 htried
  have hleft : (chosen :: left).Sublist (chosen :: passedOver ++ left) :=
    (List.sublist_append_right passedOver left).cons_cons chosen
  exact (hcons.trans hleft.subperm).trans h.removed.subperm

theorem TakenFrom.length_lt {healthCheck : HealthCheck} {backend : ProxyToVectorContents → Backend}
    {candidates passedOver left : List ProxyToVectorContents} {chosen : ProxyToVectorContents}
    (h : TakenFrom healthCheck backend candidates chosen passedOver left) :
    left.length < candidates.length := by
  have hlength := h.removed.length_eq
  rw [List.length_append, List.length_cons] at hlength
  omega

/-- With more fuel than entries, the loop ends, and it tries each entry at most as often as it is there. -/
theorem retryLoop_ends (passes : Nat → Pass) (fuel : Nat) :
    ∀ (index : Nat) (proxyToVector : List ProxyToVectorContents), proxyToVector.length < fuel →
      ∃ tried answer,
        retryLoop bits algorithm retryConnection passes fuel index proxyToVector = some (tried, answer) ∧
          tried.Subperm proxyToVector := by
  induction fuel with
  | zero => exact fun _ _ hlength => absurd hlength (Nat.not_lt_zero _)
  | succ fuel ih =>
      intro index proxyToVector hlength
      have hspec := @Pass.determine_spec bits algorithm (passes index) proxyToVector
      rw [retryLoop]
      dsimp only
      rw [Determines] at hspec
      cases hchosen : ((passes index).determine bits algorithm proxyToVector).proxyTo with
      -- no entry is left
      | none => exact ⟨[], _, rfl, List.nil_subperm⟩
      | some chosen =>
          rw [hchosen] at hspec
          obtain ⟨passedOver, htaken⟩ := hspec
          have hsingle : [chosen].Subperm proxyToVector := htaken.subperm List.nil_subperm
          dsimp only
          split
          · -- the attempt succeeds
            exact ⟨[chosen], _, rfl, hsingle⟩
          · split
            · -- the next pass has fewer entries
              have hfewer := htaken.length_lt
              obtain ⟨tried, answer, hloop, htried⟩ := ih (index + 1)
                ((passes index).determine bits algorithm proxyToVector).proxyToVector (by omega)
              rw [hloop]
              exact ⟨chosen :: tried, answer, rfl, htaken.subperm htried⟩
            · -- the attempt fails, and there is no retry or no other entry
              exact ⟨[chosen], _, rfl, hsingle⟩

/-- For every list of backend servers, health state and algorithm: a backend server of the list is taken,
if there is one, and besides it only those with too many failures that are passed over; one with too many
failures is only taken when all have too many; and the loop ends and tries each entry of the list at most
once. -/
theorem retryLoop_takesEach (bits : Nat) (algorithm : LoadBalancerAlgorithm) (retryConnection : Bool)
    (passes : Nat → Pass) (proxyTo : List ProxyToVectorContents) :
    (∀ (pass : Pass) (proxyToVector : List ProxyToVectorContents),
      Determines pass.healthCheck ProxyToVectorContents.backend proxyToVector
        (pass.determine bits algorithm proxyToVector)) ∧
      ∃ tried answer,
        retryLoop bits algorithm retryConnection passes (proxyTo.length + 1) 0 proxyTo =
            some (tried, answer) ∧
          tried.Subperm proxyTo :=
  ⟨Pass.determine_spec, retryLoop_ends passes _ 0 proxyTo (Nat.lt_succ_self _)⟩

end Retrying

/-! ## A backend server that is passed over -/

/-- An entry without settings of its own. -/
def plainEntry (proxyTo : String) : ProxyToVectorContents := ⟨proxyTo.toList, none, none, none⟩

/-- A pass with round robin at its start, when the first backend server has failed too often. -/
def firstFailedPass : Pass := ⟨firstFailed, ⟨∅, 0, []⟩, .error .connectionRefused⟩

/-- The third backend server is chosen, and the first one is taken out of the list as well. -/
theorem determine_takesTwo :
    let proxyToVector := [plainEntry "http://a", plainEntry "http://b", plainEntry "http://c"]
    let determined := firstFailedPass.determine 64 .roundRobin proxyToVector
    determined.proxyTo = some (plainEntry "http://c") ∧
      determined.proxyToVector = [plainEntry "http://b"] ∧
      ¬(plainEntry "http://c" :: determined.proxyToVector).Perm proxyToVector := by
  refine ⟨by decide, by decide, fun h => ?_⟩
  exact absurd h.length_eq (by decide)

end Ferron.Modules.LoadBalancing
