import Ferron.Lib.Run
import Ferron.Modules.ReverseProxy
import Mathlib.Data.Int.CardIntervalMod

/-!
# Round-robin load balancing

The requests of a reverse proxy share a counter. A request takes the backend server at the counter,
modulo the number of backend servers, and advances the counter. With health checks an unhealthy backend
server is taken off the list and the next one is chosen from what is left, so a request may advance the
counter several times, and modulo shorter lists.

`timesChosen_fair` says when healthy backend servers are chosen equally often: in every run in which no
request passes over a backend server and the counter does not overflow.
-/

set_option autoImplicit false

namespace Ferron.Modules.RoundRobin

open Ferron.Lib.Run
open Ferron.Modules.ReverseProxy (Backend)

/-! ## Choosing a backend server -/

/-- What is known of the backend servers: their fails in `failed_backends`, whether these are looked at,
and how many of them a healthy one may have. -/
structure HealthCheck where
  failedBackends : Backend → Option Nat
  enableHealthCheck : Bool
  healthCheckMaxFails : Nat

/-- A backend server with more fails than allowed. -/
def HealthCheck.isUnhealthy (healthCheck : HealthCheck) (backend : Backend) : Bool :=
  match healthCheck.failedBackends backend with
  | none => false
  | some fails => healthCheck.healthCheckMaxFails < fails

/-- What `determine_proxy_to` gives: the backend server, the ones that are left, and the state of the
load balancer. -/
structure Determined (σ β : Type) where
  proxyTo : Option β
  proxyToVector : List β
  state : σ

section Determine

-- A backend server may carry more data. `select` gives an index into a list.
variable {σ β : Type} (healthCheck : HealthCheck) (backend : β → Backend)
  (select : σ → List β → Nat × σ)

/-- The loop of `determine_proxy_to` with health checks. Every pass takes one backend server off the
list, so the first argument is the length of the list. -/
def determineHealthy : Nat → σ → List β → Option β → Determined σ β
  | 0, state, proxyToVector, proxyTo => ⟨proxyTo, proxyToVector, state⟩
  | length + 1, state, proxyToVector, proxyTo =>
      let (index, state) := select state proxyToVector
      match proxyToVector[index]? with
      | none => ⟨proxyTo, proxyToVector, state⟩
      | some chosen =>
          if healthCheck.isUnhealthy (backend chosen) then
            determineHealthy length state (proxyToVector.eraseIdx index) (some chosen)
          else ⟨some chosen, proxyToVector.eraseIdx index, state⟩

/-- `determine_proxy_to`. -/
def determineProxyTo (state : σ) (proxyToVector : List β) : Determined σ β :=
  match proxyToVector with
  | [] => ⟨none, [], state⟩
  -- a single backend server is taken as it is
  | [only] => ⟨some only, [], state⟩
  | _ =>
      if healthCheck.enableHealthCheck then
        determineHealthy healthCheck backend select proxyToVector.length state proxyToVector none
      else
        let (index, state) := select state proxyToVector
        ⟨proxyToVector[index]?, proxyToVector.eraseIdx index, state⟩

variable {healthCheck backend select}

/-- Of several backend servers the one at the selected index is taken, when it is not passed over. -/
theorem determineProxyTo_of_taken {state state' : σ} {proxyToVector : List β} {index : Nat}
    {chosen : β} (hlength : 1 < proxyToVector.length)
    (hselect : select state proxyToVector = (index, state'))
    (hchosen : proxyToVector[index]? = some chosen)
    (htaken : healthCheck.enableHealthCheck = false ∨
      healthCheck.isUnhealthy (backend chosen) = false) :
    determineProxyTo healthCheck backend select state proxyToVector =
      ⟨some chosen, proxyToVector.eraseIdx index, state'⟩ := by
  rcases proxyToVector with - | ⟨first, - | ⟨second, rest⟩⟩
  · exact absurd hlength (by simp)
  · exact absurd hlength (by simp)
  · have hseveral : ∀ only, first :: second :: rest ≠ [only] := fun only h => by simp at h
    rw [determineProxyTo.eq_3 _ _ _ _ _ (by simp) hseveral]
    split
    · rename_i henabled
      have hhealthy : healthCheck.isUnhealthy (backend chosen) = false := by
        rcases htaken with hdisabled | hhealthy
        · exact absurd (henabled.symm.trans hdisabled) (by simp)
        · exact hhealthy
      rw [List.length_cons, determineHealthy, hselect]
      simp only [hchosen, hhealthy, Bool.false_eq_true, if_false]
    · simp only [hselect, hchosen]

end Determine

/-- `select_backend_index` with round robin. A number of the counter has so many bits. -/
def selectRoundRobin {β : Type} (bits : Nat) (roundRobinIndex : Nat) (backends : List β) :
    Nat × Nat :=
  (roundRobinIndex % backends.length, (roundRobinIndex + 1) % 2 ^ bits)

/-! ## Runs -/

/-- The counter, and the backend servers that have been chosen, each with its position. -/
structure State where
  roundRobinIndex : Nat
  chosen : List (Backend × Nat)

section Runs

variable (bits : Nat) (healthCheck : HealthCheck) (proxyTo : List Backend)

/-- A request chooses a backend server from the whole list. -/
def step (state : State) (_ : Unit) : State :=
  let determined := determineProxyTo healthCheck Prod.fst (selectRoundRobin bits)
    state.roundRobinIndex proxyTo.zipIdx
  ⟨determined.state, state.chosen ++ determined.proxyTo.toList⟩

/-- How often the backend server at a position has been chosen. -/
def State.timesChosen (state : State) (position : Nat) : Nat :=
  state.chosen.countP fun chosen => chosen.2 = position

/-- There is a healthy backend server at the position. -/
def HealthyAt (position : Nat) : Prop :=
  ∃ backend, proxyTo[position]? = some backend ∧ healthCheck.isUnhealthy backend = false

/-- The backend server at the counter is not passed over: health checks are off, or it is healthy. -/
def TakesTurn (state : State) : Prop :=
  healthCheck.enableHealthCheck = false ∨
    HealthyAt healthCheck proxyTo (state.roundRobinIndex % proxyTo.length)

/-- The counter goes on with the next position, also when it overflows. -/
def KeepsTurns (state : State) : Prop :=
  state.roundRobinIndex + 1 < 2 ^ bits ∨ proxyTo.length ∣ 2 ^ bits

/-- A request takes the backend server at the counter and leaves the counter at the next one, or there
are no two healthy backend servers. -/
def InTurn (state : State) (_ : Unit) : Prop :=
  (∀ i j, HealthyAt healthCheck proxyTo i → HealthyAt healthCheck proxyTo j → i = j) ∨
    TakesTurn healthCheck proxyTo state ∧ KeepsTurns bits proxyTo state

/-! ## Turns -/

/-- So many turns have been taken, from a position on. -/
structure Turns (start turns : Nat) (state : State) : Prop where
  index : state.roundRobinIndex ≡ start + turns [MOD proxyTo.length]
  timesChosen : ∀ position,
    state.timesChosen position = turns.count fun k => (start + k) % proxyTo.length = position

/-- Some turns have been taken, from a position on. -/
def InTurns (start : Nat) (state : State) : Prop := ∃ turns, Turns proxyTo start turns state

variable {bits healthCheck proxyTo}

/-- A request in turn takes the next turn. -/
theorem Turns.step {start turns : Nat} {state : State} (h : Turns proxyTo start turns state)
    (hlength : 1 < proxyTo.length) (htakes : TakesTurn healthCheck proxyTo state)
    (hkeeps : KeepsTurns bits proxyTo state) (call : Unit) :
    Turns proxyTo start (turns + 1) (step bits healthCheck proxyTo state call) := by
  let position := state.roundRobinIndex % proxyTo.length
  have hposition : position < proxyTo.length := Nat.mod_lt _ (by omega)
  have hturn : (start + turns) % proxyTo.length = position := h.index.symm
  have hstep : RoundRobin.step bits healthCheck proxyTo state call =
      ⟨(state.roundRobinIndex + 1) % 2 ^ bits, state.chosen ++ [(proxyTo[position], position)]⟩ := by
    have hselect : selectRoundRobin bits state.roundRobinIndex proxyTo.zipIdx =
        (position, (state.roundRobinIndex + 1) % 2 ^ bits) := by
      rw [selectRoundRobin, List.length_zipIdx]
    have hchosen : proxyTo.zipIdx[position]? = some (proxyTo[position], position) := by
      rw [List.getElem?_zipIdx, List.getElem?_eq_getElem hposition]
      simp
    have htaken : healthCheck.enableHealthCheck = false ∨
        healthCheck.isUnhealthy proxyTo[position] = false := by
      apply htakes.imp_right
      rintro ⟨backend, hbackend, hhealthy⟩
      rw [List.getElem?_eq_getElem hposition, Option.some.injEq] at hbackend
      rw [hbackend]
      exact hhealthy
    rw [RoundRobin.step, determineProxyTo_of_taken (by rwa [List.length_zipIdx]) hselect hchosen htaken]
    rfl
  rw [hstep]
  constructor
  · have hsucc : (state.roundRobinIndex + 1) % 2 ^ bits ≡ state.roundRobinIndex + 1
        [MOD proxyTo.length] := by
      rcases hkeeps with hlt | hdvd
      · rw [Nat.mod_eq_of_lt hlt]
      · exact (Nat.mod_modEq _ _).of_dvd hdvd
    exact hsucc.trans (h.index.add_right 1)
  · intro other
    have hcount := h.timesChosen other
    rw [State.timesChosen] at hcount
    rw [State.timesChosen, List.countP_append, hcount, Nat.count_succ, hturn]
    simp [List.countP_cons]

/-- Of the positions that are taken in turn none is taken more than once more often than another. -/
theorem count_turns_le (start turns : Nat) {length i j : Nat} (hi : i < length) (hj : j < length) :
    turns.count (fun k => (start + k) % length = i) ≤
      turns.count (fun k => (start + k) % length = j) + 1 := by
  -- the turns of a position are those of one residue class
  have hclass : ∀ position < length, ∃ v, ∀ k, (start + k) % length = position ↔
      k ≡ v [MOD length] := by
    intro position hposition
    refine ⟨position + (length - start % length), fun k => ?_⟩
    have hstart : start + (length - start % length) ≡ 0 [MOD length] := by
      have hmod := Nat.mod_add_div start length
      have hlt := Nat.mod_lt start (Nat.zero_lt_of_lt hi)
      rw [Nat.modEq_zero_iff_dvd]
      exact ⟨start / length + 1, by rw [Nat.mul_add, Nat.mul_one]; omega⟩
    have hiff : (start + k) % length = position ↔ start + k ≡ position [MOD length] := by
      rw [Nat.ModEq, Nat.mod_eq_of_lt hposition]
    rw [hiff]
    constructor
    · intro h
      have hsum : k + (start + (length - start % length)) ≡ position + (length - start % length)
          [MOD length] := by
        have := h.add_right (length - start % length)
        rwa [show start + k + (length - start % length) =
          k + (start + (length - start % length)) by omega] at this
      exact ((hstart.add_left k).symm.trans hsum)
    · intro h
      have hsum := h.add_left start
      rw [show start + (position + (length - start % length)) =
        position + (start + (length - start % length)) by omega] at hsum
      exact hsum.trans (hstart.add_left position)
  obtain ⟨v, hv⟩ := hclass i hi
  obtain ⟨w, hw⟩ := hclass j hj
  simp only [hv, hw]
  rw [Nat.count_modEq_card _ (Nat.zero_lt_of_lt hi), Nat.count_modEq_card _ (Nat.zero_lt_of_lt hi)]
  split <;> split <;> omega

/-- Healthy backend servers are chosen equally often, up to one time, in every run whose requests are in
turn. -/
theorem timesChosen_fair (bits : Nat) (healthCheck : HealthCheck) (proxyTo : List Backend)
    (roundRobinIndex : Nat) (calls : List Unit)
    (hturns : AllSteps (step bits healthCheck proxyTo) (InTurn bits healthCheck proxyTo)
      ⟨roundRobinIndex, []⟩ calls) :
    ∀ i j, HealthyAt healthCheck proxyTo i → HealthyAt healthCheck proxyTo j →
      (run (step bits healthCheck proxyTo) ⟨roundRobinIndex, []⟩ calls).timesChosen i ≤
        (run (step bits healthCheck proxyTo) ⟨roundRobinIndex, []⟩ calls).timesChosen j + 1 := by
  intro i j hi hj
  by_cases hij : i = j
  · rw [hij]
    exact Nat.le_succ _
  · have hlt : ∀ position, HealthyAt healthCheck proxyTo position → position < proxyTo.length := by
      rintro position ⟨backend, hbackend, -⟩
      exact (List.getElem?_eq_some_iff.1 hbackend).1
    have hlength : 1 < proxyTo.length := by
      have := hlt i hi
      have := hlt j hj
      omega
    -- there are two healthy backend servers, so every request takes its turn
    have hinv : InTurns proxyTo roundRobinIndex
        (run (step bits healthCheck proxyTo) ⟨roundRobinIndex, []⟩ calls) := by
      refine run_invariant ?_ ?_ hturns
      · rintro state call hturn ⟨turns, h⟩
        rcases hturn with hsingle | ⟨htakes, hkeeps⟩
        · exact absurd (hsingle i j hi hj) hij
        · exact ⟨turns + 1, h.step hlength htakes hkeeps call⟩
      · exact ⟨0, rfl, fun position => by simp [State.timesChosen]⟩
    obtain ⟨turns, h⟩ := hinv
    rw [h.timesChosen, h.timesChosen]
    exact count_turns_le roundRobinIndex turns (hlt i hi) (hlt j hj)

end Runs

/-! ## Passing over a backend server -/

/-- Three backend servers. -/
def threeBackends : List Backend :=
  [⟨"http://a".toList, none⟩, ⟨"http://b".toList, none⟩, ⟨"http://c".toList, none⟩]

/-- The first one has failed too often. -/
def firstFailed : HealthCheck where
  failedBackends backend := if backend.proxyTo = "http://a".toList then some 4 else none
  enableHealthCheck := true
  healthCheckMaxFails := 3

/-- The first request passes over the first backend server and chooses the third one, which the second request
then finds at the counter. -/
theorem timesChosen_unfair :
    HealthyAt firstFailed threeBackends 1 ∧ HealthyAt firstFailed threeBackends 2 ∧
      (run (step 64 firstFailed threeBackends) ⟨0, []⟩ [(), ()]).timesChosen 2 = 2 ∧
      (run (step 64 firstFailed threeBackends) ⟨0, []⟩ [(), ()]).timesChosen 1 = 0 :=
  ⟨⟨_, rfl, rfl⟩, ⟨_, rfl, rfl⟩, rfl, rfl⟩

/-- With healthy backend servers only, every request takes its turn. -/
theorem timesChosen_fair_healthy :
    (run (step 64 ⟨fun _ => none, true, 3⟩ threeBackends) ⟨0, []⟩ [(), ()]).timesChosen 0 ≤
      (run (step 64 ⟨fun _ => none, true, 3⟩ threeBackends) ⟨0, []⟩ [(), ()]).timesChosen 2 + 1 := by
  apply timesChosen_fair 64 ⟨fun _ => none, true, 3⟩ threeBackends 0 [(), ()]
  · exact ⟨Or.inr ⟨Or.inr ⟨_, rfl, rfl⟩, Or.inl (by decide)⟩,
      Or.inr ⟨Or.inr ⟨_, rfl, rfl⟩, Or.inl (by decide)⟩, trivial⟩
  · exact ⟨_, rfl, rfl⟩
  · exact ⟨_, rfl, rfl⟩

end Ferron.Modules.RoundRobin
