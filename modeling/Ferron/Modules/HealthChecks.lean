import Ferron.Common.TtlCache
import Ferron.Modules.RoundRobin

/-!
# Passive health checks

A reverse proxy counts the failed attempts to connect to a backend server in a cache whose entries live
for the window of the health checks after the last failure. A connection that succeeds leaves the count
as it is.

`unhealthy_consecutive` says when a backend server that is passed over has failed consecutively: in every
run in which no attempt succeeds while failures of its backend server are counted, and no failure is
counted together with one that is a window old. A backend server whose failures are all older than the
window is not passed over in any run.
-/

set_option autoImplicit false

namespace Ferron.Modules.HealthChecks

open Ferron.Common Ferron.Lib.Run
open Ferron.Modules.ReverseProxy (Backend)
open Ferron.Modules.RoundRobin (HealthCheck Determined determineProxyTo)

/-! ## The handlers of the requests -/

/-- Why an attempt to connect fails: what the operating system says of the connection, or an error in
what comes after it (its options, the PROXY header, TLS, or the HTTP handshake). -/
inductive ConnectError where
  | connectionRefused
  | notFound
  | hostUnreachable
  | timedOut
  | other
  | afterwards
  deriving DecidableEq

/-- The status of the response when there is no other backend server to try. -/
def ConnectError.responseStatus : ConnectError → Nat
  | .connectionRefused | .notFound | .hostUnreachable => 503
  | .timedOut => 504
  | .other | .afterwards => 502

/-- A reverse proxy module: its backend servers and its settings. The window is in nanoseconds. -/
structure Module where
  proxyTo : List Backend
  enableHealthCheck : Bool
  retryConnection : Bool
  healthCheckMaxFails : UInt64
  window : Nat

/-- The response of a backend server, a status, no response, or an error. -/
inductive Answer where
  | proxied (backend : Backend)
  | status (code : Nat)
  | passed
  | failed
  deriving DecidableEq

/-- Where a handler is: it chooses one of the backend servers that are left, it connects to one while the
others are left, or it has answered. -/
inductive Phase where
  | choosing (proxyToVector : List Backend)
  | connecting (backend : Backend) (proxyToVector : List Backend)
  | answered (answer : Answer)
  deriving DecidableEq

/-- An attempt to connect to a backend server. -/
structure Attempt where
  backend : Backend
  time : Nat
  connected : Bool
  deriving DecidableEq

/-- The time, the counts of the failures, the handlers of all requests so far, and the attempts so far, the
last one first. -/
structure State where
  now : Nat
  failedBackends : TtlCache Backend UInt64
  handlers : List Phase
  attempts : List Attempt

/-- Time passes, a request arrives, its handler chooses a backend server, an attempt to connect ends, a
kept connection is used, or the handler fails. The load balancer chooses indexes in any way. -/
inductive Action where
  | wait (time : Nat)
  | request
  | choose (index : Nat) (choices : List Nat)
  | attempt (index : Nat) (result : Except ConnectError Unit)
  | keptAlive (index : Nat)
  | fail (index : Nat)

/-- `select_backend_index`, with what the load balancer chooses one after the other. -/
def selectBackendIndex (choices : List Nat) (backends : List Backend) : Nat × List Nat :=
  (choices.headD 0 % backends.length, choices.tail)

namespace State

/-- What the load balancer knows of the backend servers. -/
def healthCheck (module : Module) (state : State) : HealthCheck where
  failedBackends backend := (state.failedBackends.get state.now backend).map UInt64.toNat
  enableHealthCheck := module.enableHealthCheck
  healthCheckMaxFails := module.healthCheckMaxFails.toNat

/-- A handler goes on. -/
def setPhase (state : State) (index : Nat) (phase : Phase) : State :=
  { state with handlers := state.handlers.set index phase }

/-- `failed_backends_write.insert`, with the write lock held. -/
def countFailure (module : Module) (state : State) (backend : Backend) : State :=
  if module.enableHealthCheck then
    let failedAttempts := state.failedBackends.get state.now backend
    { state with
      failedBackends :=
        state.failedBackends.insert state.now backend (failedAttempts.elim 1 fun x => x + 1) }
  else state

/-- An attempt has ended. -/
def record (state : State) (backend : Backend) (connected : Bool) : State :=
  { state with attempts := ⟨backend, state.now, connected⟩ :: state.attempts }

end State

section Step

variable (module : Module)

/-- The handler after `determine_proxy_to`. -/
def determined : Determined (List Nat) Backend → Phase
  | ⟨some backend, proxyToVector, _⟩ => .connecting backend proxyToVector
  | ⟨none, _, _⟩ => .answered .passed

/-- An attempt to connect ends. After a failure another backend server is tried if there is one. -/
def attemptStep (state : State) (index : Nat) (backend : Backend) (proxyToVector : List Backend) :
    Except ConnectError Unit → State
  | .ok () => (state.record backend true).setPhase index (.answered (.proxied backend))
  | .error err =>
      ((state.countFailure module backend).record backend false).setPhase index <|
        if module.retryConnection && !proxyToVector.isEmpty then .choosing proxyToVector
        else .answered (.status err.responseStatus)

/-- The server after an action. -/
def step (state : State) : Action → State
  | .wait time => { state with now := state.now + time }
  | .request => { state with handlers := state.handlers ++ [.choosing module.proxyTo] }
  | .choose index choices =>
      match state.handlers[index]? with
      | some (.choosing proxyToVector) =>
          state.setPhase index (determined (determineProxyTo (state.healthCheck module) id
            selectBackendIndex choices proxyToVector))
      | _ => state
  | .attempt index result =>
      match state.handlers[index]? with
      | some (.connecting backend proxyToVector) =>
          attemptStep module state index backend proxyToVector result
      | _ => state
  | .keptAlive index =>
      match state.handlers[index]? with
      | some (.connecting backend _) => state.setPhase index (.answered (.proxied backend))
      | _ => state
  | .fail index =>
      match state.handlers[index]? with
      | some (.connecting _ _) => state.setPhase index (.answered .failed)
      | _ => state

/-- The server before the first request. -/
def init : State := ⟨0, .new module.window, [], []⟩

end Step

/-! ## Consecutive failures -/

/-- The times of the failed attempts of a backend server since the last one that succeeded, the last one
first. -/
def recentFails (attempts : List Attempt) (backend : Backend) : List Nat :=
  ((attempts.filter fun attempt => attempt.backend = backend).takeWhile fun attempt =>
    !attempt.connected).map Attempt.time

/-- The times that follow one another in less than a window, back from some time on. -/
def chain (window : Nat) : Nat → List Nat → List Nat
  | _, [] => []
  | later, time :: times => if later - time < window then time :: chain window time times else []

/-- More consecutive attempts than allowed have failed within one window, the last one less than a window
ago. -/
def FailedConsecutively (module : Module) (state : State) (backend : Backend) : Prop :=
  ∃ fails earlier, recentFails state.attempts backend = fails ++ earlier ∧
    module.healthCheckMaxFails.toNat < fails.length ∧
    ∃ last, fails.head? = some last ∧ state.now - last < module.window ∧
      ∀ time ∈ fails, last - time < module.window

/-- No attempt succeeds while failures of its backend server are counted, and a failure is only counted
together with others that are less than a window old. -/
def CountsTogether (module : Module) (state : State) : Action → Prop
  | .attempt index result => ∀ backend proxyToVector,
      state.handlers[index]? = some (.connecting backend proxyToVector) →
        match result with
        | .ok () => state.failedBackends.get state.now backend = none
        | .error _ => ∀ time ∈ chain module.window state.now (recentFails state.attempts backend),
            state.now - time < module.window
  | _ => True

theorem recentFails_record (state : State) (backend other : Backend) (connected : Bool) :
    recentFails (state.record other connected).attempts backend =
      if other = backend then
        if connected then [] else state.now :: recentFails state.attempts backend
      else recentFails state.attempts backend := by
  rw [recentFails, State.record, List.filter_cons]
  by_cases hbackend : other = backend
  · rw [if_pos (decide_eq_true hbackend), if_pos hbackend, List.takeWhile_cons]
    cases connected <;> rfl
  · rw [if_neg (by simpa using hbackend), if_neg hbackend]
    rfl

theorem mem_chain {window later : Nat} {fails earlier : List Nat}
    (hfirst : ∀ last ∈ fails.head?, later - last < window)
    (hgaps : fails.IsChain fun time before => time - before < window) :
    ∀ time ∈ fails, time ∈ chain window later (fails ++ earlier) := by
  induction fails generalizing later with
  | nil => exact fun _ h => absurd h List.not_mem_nil
  | cons last fails ih =>
      intro time htime
      rw [List.cons_append, chain, if_pos (hfirst last rfl)]
      rcases List.mem_cons.1 htime with rfl | htime
      · exact List.mem_cons_self
      · refine List.mem_cons_of_mem _ (ih ?_ hgaps.tail time htime)
        intro before hbefore
        obtain ⟨rest, rfl⟩ := List.head?_eq_some_iff.1 hbefore
        exact (List.isChain_cons_cons.1 hgaps).1

/-! ## Steps -/

section Steps

variable {module : Module}

/-- What a step changes of the time, the counts and the attempts: at most the time, unless an attempt
ends. -/
theorem step_cases (state : State) (action : Action) :
    (state.now ≤ (step module state action).now ∧
        (step module state action).failedBackends = state.failedBackends ∧
        (step module state action).attempts = state.attempts) ∨
      ∃ index result backend proxyToVector, action = .attempt index result ∧
        state.handlers[index]? = some (.connecting backend proxyToVector) ∧
        (step module state action).now = state.now ∧
        ((result = .ok () ∧ (step module state action).failedBackends = state.failedBackends ∧
            (step module state action).attempts = (state.record backend true).attempts) ∨
          ((∃ err, result = .error err) ∧
            (step module state action).failedBackends =
              (state.countFailure module backend).failedBackends ∧
            (step module state action).attempts = (state.record backend false).attempts)) := by
  have hsame : ∀ other : State, other = state →
      state.now ≤ other.now ∧ other.failedBackends = state.failedBackends ∧
        other.attempts = state.attempts := by
    rintro _ rfl
    exact ⟨le_rfl, rfl, rfl⟩
  cases action with
  | wait time => exact .inl ⟨Nat.le_add_right _ _, rfl, rfl⟩
  | request => exact .inl ⟨le_rfl, rfl, rfl⟩
  | choose index choices =>
      rw [step]
      split
      · exact .inl ⟨le_rfl, rfl, rfl⟩
      · exact .inl (hsame _ rfl)
  | attempt index result =>
      rw [step]
      split
      · rename_i backend proxyToVector hhandler
        refine .inr ⟨index, result, backend, proxyToVector, rfl, hhandler, ?_⟩
        cases result with
        | ok _ => exact ⟨rfl, .inl ⟨rfl, rfl, rfl⟩⟩
        | error err =>
            -- counting changes neither the clock nor the attempts
            have hcount : (state.countFailure module backend).now = state.now ∧
                (state.countFailure module backend).attempts = state.attempts := by
              rw [State.countFailure]
              split
              · exact ⟨rfl, rfl⟩
              · exact ⟨rfl, rfl⟩
            refine ⟨hcount.1, .inr ⟨⟨err, rfl⟩, rfl, ?_⟩⟩
            rw [attemptStep, State.setPhase, State.record, State.record]
            dsimp only
            rw [hcount.1, hcount.2]
      · exact .inl (hsame _ rfl)
  | keptAlive index =>
      rw [step]
      split
      · exact .inl ⟨le_rfl, rfl, rfl⟩
      · exact .inl (hsame _ rfl)
  | fail index =>
      rw [step]
      split
      · exact .inl ⟨le_rfl, rfl, rfl⟩
      · exact .inl (hsame _ rfl)

/-- A count is counted up, or it begins anew. -/
theorem lookup_countFailure {state : State} {backend other : Backend} {count : UInt64} {last : Nat}
    (h : (state.countFailure module backend).failedBackends.cache.lookup other = some (count, last)) :
    (other = backend ∧ last = state.now ∧
        ((state.failedBackends.get state.now backend = none ∧ count = 1) ∨
          ∃ before, state.failedBackends.get state.now backend = some before ∧ count = before + 1)) ∨
      ((other ≠ backend ∨ module.enableHealthCheck = false) ∧
        state.failedBackends.cache.lookup other = some (count, last)) := by
  rw [State.countFailure] at h
  split at h
  · by_cases hother : other = backend
    · subst hother
      dsimp only [TtlCache.insert] at h
      rw [AList.lookup_insert, Option.some_inj] at h
      obtain ⟨rfl, rfl⟩ := Prod.mk.inj h
      refine .inl ⟨rfl, rfl, ?_⟩
      cases hget : state.failedBackends.get state.now other with
      | none => exact .inl ⟨rfl, rfl⟩
      | some before => exact .inr ⟨before, rfl, rfl⟩
    · dsimp only [TtlCache.insert] at h
      rw [AList.lookup_insert_ne hother] at h
      exact .inr ⟨.inl hother, h⟩
  · rename_i hdisabled
    exact .inr ⟨.inr (Bool.eq_false_iff.2 hdisabled), h⟩

theorem ttl_countFailure (state : State) (backend : Backend) :
    (state.countFailure module backend).failedBackends.ttl = state.failedBackends.ttl := by
  rw [State.countFailure]
  split
  · rfl
  · rfl

/-- Every count is stamped with the time of a failed attempt. -/
structure Stamped (module : Module) (state : State) : Prop where
  ttl : state.failedBackends.ttl = module.window
  failed : ∀ backend count last, state.failedBackends.cache.lookup backend = some (count, last) →
    ⟨backend, last, false⟩ ∈ state.attempts
  disabled : module.enableHealthCheck = false → ∀ backend,
    state.failedBackends.cache.lookup backend = none

theorem Stamped.init : Stamped module (init module) where
  ttl := rfl
  failed _ _ _ h := nomatch h
  disabled _ _ := rfl

theorem Stamped.step {state : State} (h : Stamped module state) (action : Action) :
    Stamped module (step module state action) := by
  rcases @step_cases module state action with ⟨-, hcache, hattempts⟩ |
    ⟨index, result, backend, proxyToVector, -, -, -, ⟨-, hcache, hattempts⟩ | ⟨-, hcache, hattempts⟩⟩
  · refine ⟨by rw [hcache, h.ttl], ?_, ?_⟩
    · rw [hcache, hattempts]
      exact h.failed
    · rw [hcache]
      exact h.disabled
  · refine ⟨by rw [hcache, h.ttl], ?_, ?_⟩
    · rw [hcache, hattempts]
      exact fun other count last hlookup => List.mem_cons_of_mem _ (h.failed other count last hlookup)
    · rw [hcache]
      exact h.disabled
  · refine ⟨by rw [hcache, ttl_countFailure, h.ttl], ?_, ?_⟩
    · rw [hcache, hattempts]
      intro other count last hlookup
      rcases lookup_countFailure hlookup with ⟨rfl, rfl, -⟩ | ⟨-, hold⟩
      · exact List.mem_cons_self
      · exact List.mem_cons_of_mem _ (h.failed other count last hold)
    · rw [hcache]
      intro hdisabled other
      rw [State.countFailure, hdisabled, if_neg Bool.false_ne_true]
      exact h.disabled hdisabled other

/-- The failures that are counted are the last ones, without one that succeeded in between, and they
have followed one another within one window. -/
def Tracks (module : Module) (state : State) : Prop :=
  ∀ backend count last, state.failedBackends.cache.lookup backend = some (count, last) →
    state.now - last < module.window →
    ∃ fails earlier, recentFails state.attempts backend = fails ++ earlier ∧
      fails.head? = some last ∧ count.toNat ≤ fails.length ∧
      (fails.IsChain fun time before => time - before < module.window) ∧
      ∀ time ∈ fails, last - time < module.window

theorem Tracks.step {state : State} (hstamped : Stamped module state) (h : Tracks module state)
    {action : Action} (hcounts : CountsTogether module state action) :
    Tracks module (step module state action) := by
  rcases @step_cases module state action with ⟨hnow, hcache, hattempts⟩ |
    ⟨index, result, backend, proxyToVector, rfl, hhandler, hnow,
      ⟨rfl, hcache, hattempts⟩ | ⟨⟨err, rfl⟩, hcache, hattempts⟩⟩
  · intro other count last hlookup halive
    rw [hcache] at hlookup
    rw [hattempts]
    exact h other count last hlookup (by omega)
  · intro other count last hlookup halive
    rw [hcache] at hlookup
    rw [hnow] at halive
    rw [hattempts, recentFails_record]
    -- the condition has no success while failures of the backend are counted
    have hnone : state.failedBackends.get state.now backend = none := hcounts _ _ hhandler
    have hne : ¬ backend = other := by
      rintro rfl
      have hsome := TtlCache.get_eq_some_iff.2 ⟨last, hlookup, by rw [hstamped.ttl]; exact halive⟩
      exact nomatch hnone.symm.trans hsome
    rw [if_neg hne]
    exact h other count last hlookup halive
  · intro other count last hlookup halive
    rw [hcache] at hlookup
    rw [hnow] at halive
    rw [hattempts, recentFails_record]
    rcases lookup_countFailure hlookup with ⟨rfl, rfl, hbegin | hup⟩ | ⟨hkept, hold⟩
    · -- the count begins anew
      obtain ⟨-, rfl⟩ := hbegin
      rw [if_pos rfl, if_neg Bool.false_ne_true]
      refine ⟨[state.now], recentFails state.attempts other, rfl, rfl, le_rfl, List.isChain_singleton _, ?_⟩
      intro time htime
      rw [List.mem_singleton.1 htime]
      exact halive
    · -- the failure is counted together with others
      obtain ⟨before, hbefore, rfl⟩ := hup
      obtain ⟨stamp, hstamp, hfresh⟩ := TtlCache.get_eq_some_iff.1 hbefore
      rw [hstamped.ttl] at hfresh
      obtain ⟨fails, earlier, hfails, hhead, hcount, hgaps, -⟩ := h other before stamp hstamp hfresh
      have hwindow := hcounts _ _ hhandler
      rw [if_pos rfl, if_neg Bool.false_ne_true, hfails]
      refine ⟨state.now :: fails, earlier, rfl, rfl, ?_, ?_, ?_⟩
      · have hle : (before + 1).toNat ≤ before.toNat + 1 := by
          rw [UInt64.toNat_add]
          exact Nat.mod_le _ _
        rw [List.length_cons]
        omega
      · obtain ⟨rest, rfl⟩ := List.head?_eq_some_iff.1 hhead
        exact List.isChain_cons_cons.2 ⟨hfresh, hgaps⟩
      · intro time htime
        rcases List.mem_cons.1 htime with rfl | htime
        · exact halive
        · refine hwindow time ?_
          rw [hfails]
          refine mem_chain ?_ hgaps time htime
          intro first hfirst
          rw [← Option.some.inj (hhead.symm.trans hfirst)]
          exact hfresh
    -- the count of another backend, or health checks are off
    · by_cases hother : backend = other
      · have hdisabled := hkept.resolve_left (not_not_intro hother.symm)
        exact nomatch (hstamped.disabled hdisabled other).symm.trans hold
      · rw [if_neg hother]
        exact h other count last hold halive

end Steps

/-! ## Runs -/

/-- A backend server that is passed over has failed consecutively, more often than allowed and within one
window, in every run in which no attempt succeeds while failures of its backend server are counted and no
failure is counted together with one that is a window old. In no run is a backend server passed over whose
failures are all older than the window. -/
theorem unhealthy_consecutive (module : Module) (actions : List Action) (backend : Backend) :
    (AllSteps (step module) (CountsTogether module) (init module) actions →
      ((run (step module) (init module) actions).healthCheck module).isUnhealthy backend = true →
        FailedConsecutively module (run (step module) (init module) actions) backend) ∧
    ((∀ attempt ∈ (run (step module) (init module) actions).attempts,
        attempt.backend = backend → attempt.connected = false →
          module.window ≤ (run (step module) (init module) actions).now - attempt.time) →
      ((run (step module) (init module) actions).healthCheck module).isUnhealthy backend = false) := by
  have hstamped : Stamped module (run (step module) (init module) actions) :=
    run_invariant' (fun _ action h => h.step action) actions .init
  have hunhealthy : ∀ state : State, (state.healthCheck module).isUnhealthy backend = true →
      ∃ count, state.failedBackends.get state.now backend = some count ∧
        module.healthCheckMaxFails < count := by
    intro state h
    rw [HealthCheck.isUnhealthy] at h
    dsimp only [State.healthCheck] at h
    cases hget : state.failedBackends.get state.now backend with
    | none =>
        rw [hget] at h
        exact nomatch h
    | some count =>
        rw [hget] at h
        exact ⟨count, rfl, UInt64.lt_iff_toNat_lt.2 (of_decide_eq_true h)⟩
  constructor
  · intro hall h
    have hstep : ∀ state action, CountsTogether module state action →
        Stamped module state ∧ Tracks module state →
          Stamped module (step module state action) ∧ Tracks module (step module state action) :=
      fun state action hcounts h => ⟨h.1.step action, h.2.step h.1 hcounts⟩
    have hinit : Tracks module (init module) := fun _ _ _ h => nomatch h
    have htracks := (run_invariant hstep ⟨.init, hinit⟩ hall).2
    -- the count that makes it unhealthy is one of failures within the window
    obtain ⟨count, hget, hmany⟩ := hunhealthy _ h
    obtain ⟨last, hlookup, halive⟩ := TtlCache.get_eq_some_iff.1 hget
    rw [hstamped.ttl] at halive
    obtain ⟨fails, earlier, hfails, hhead, hcount, -, hwithin⟩ :=
      htracks backend count last hlookup halive
    refine ⟨fails, earlier, hfails, ?_, last, hhead, halive, hwithin⟩
    exact (UInt64.lt_iff_toNat_lt.1 hmany).trans_le hcount
  · intro hold
    apply Bool.eq_false_iff.2
    intro h
    obtain ⟨count, hget, -⟩ := hunhealthy _ h
    obtain ⟨last, hlookup, halive⟩ := TtlCache.get_eq_some_iff.1 hget
    rw [hstamped.ttl] at halive
    have hwindow := hold _ (hstamped.failed backend count last hlookup) rfl rfl
    exact absurd halive (Nat.not_lt.2 hwindow)

/-- Two backend servers, and how often one of them may fail. -/
def twoBackends (healthCheckMaxFails : UInt64) : Module where
  proxyTo := [⟨['a'], none⟩, ⟨['b'], none⟩]
  enableHealthCheck := true
  retryConnection := false
  healthCheckMaxFails := healthCheckMaxFails
  window := 5000000000

/-- A request arrives, its handler chooses the first backend server, and the attempt to connect ends. -/
def requestFirst (index : Nat) (result : Except ConnectError Unit) : List Action :=
  [.request, .choose index [0], .attempt index result]

/-- A backend server fails twice within a second when it may fail once. -/
theorem unhealthy_consecutive_twice :
    let actions := requestFirst 0 (.error .timedOut) ++
      .wait 1000000000 :: requestFirst 1 (.error .timedOut)
    FailedConsecutively (twoBackends 1)
      (run (step (twoBackends 1)) (init (twoBackends 1)) actions) ⟨['a'], none⟩ := by
  refine (unhealthy_consecutive (twoBackends 1) _ _).1 ?_ rfl
  refine ⟨trivial, trivial, ?_, trivial, trivial, trivial, ?_, trivial⟩
  · exact fun _ _ _ _ htime => absurd htime List.not_mem_nil
  · rintro backend proxyToVector ⟨⟩
    decide

/-- A backend server is passed over after one failure, a connection that succeeds, and another failure,
though two consecutive failures would be too many. -/
theorem unhealthy_failsAroundSuccess :
    let actions := requestFirst 0 (.error .timedOut) ++ requestFirst 1 (.ok ()) ++
      requestFirst 2 (.error .timedOut)
    ((run (step (twoBackends 1)) (init (twoBackends 1)) actions).healthCheck
        (twoBackends 1)).isUnhealthy ⟨['a'], none⟩ = true ∧
      ¬ FailedConsecutively (twoBackends 1)
        (run (step (twoBackends 1)) (init (twoBackends 1)) actions) ⟨['a'], none⟩ := by
  intro actions
  refine ⟨rfl, ?_⟩
  rintro ⟨fails, earlier, hfails, hmany, -⟩
  have hone : recentFails (run (step (twoBackends 1)) (init (twoBackends 1)) actions).attempts
      ⟨['a'], none⟩ = [0] := rfl
  have hlength := congrArg List.length (hone.symm.trans hfails)
  rw [List.length_singleton, List.length_append] at hlength
  change 1 < fails.length at hmany
  omega

end Ferron.Modules.HealthChecks
