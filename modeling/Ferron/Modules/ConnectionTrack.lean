import Ferron.Lib.Registry
import Ferron.Lib.Run
import Ferron.Modules.ReverseProxy
import Ferron.Rust.Collections

/-!
# Counting the requests of backend servers

Two load balancing algorithms choose a backend server with few requests. A backend server has a counter,
which is a reference-counted object in a map: each request that is sent to it holds a reference, and the
algorithms read the number of references other than that of the map. A counter is made on demand, by a
request that is about to be sent or by an algorithm that reads it: the map is read under one lock and
written under another one, so other requests may go on in between.

A request that is sent is in flight until its response has been given or it is dropped.
`connectionCount_eq` says that the algorithms read the number of requests in flight in every run in
which no counter is put into the map while its backend server has requests in flight.
-/

set_option autoImplicit false

namespace Ferron.Modules.ConnectionTrack

open Ferron.Lib.Registry Ferron.Lib.Run
open Ferron.Modules.ReverseProxy (Backend)

/-! ## The algorithms -/

/-- The algorithms that track connections. -/
inductive LoadBalancerAlgorithm where
  | twoRandomChoices
  | leastConnections

/-- What an algorithm still does: it reads counters under the read lock, it puts a new counter into the
map under the write lock, or it has come to some indexes, of which one is taken at random. -/
inductive Selecting where
  | read (keys : List Backend) (next : List (Option Nat) → Selecting)
  | insert (key : Backend) (next : Selecting)
  | done (indexes : List Nat)

namespace Selecting

/-- A count that has been read is used. For a backend server without a counter one is made. -/
def withCount (key : Backend) (count : Option Nat) (next : Nat → Selecting) : Selecting :=
  match count with
  | some count => next count
  | none => insert key (next 0)

/-- The loop of `LeastConnections`, from an index on. -/
def leastConnections (index : Nat) (minIndexes : List Nat) (minConnections : Option Nat) :
    List Backend → Selecting
  | [] => done minIndexes
  | key :: backends =>
      read [key] fun counts =>
        withCount key (counts.head?.getD none) fun connectionCount =>
          if minConnections.all fun min => connectionCount < min then
            leastConnections (index + 1) [index] (some connectionCount) backends
          else leastConnections (index + 1) (minIndexes ++ [index]) minConnections backends

/-- `TwoRandomChoices`, with two random numbers. -/
def twoRandomChoices (random₁ random₂ : Nat) (backends : List Backend) : Selecting :=
  let randomChoice1 := random₁ % backends.length
  let randomChoice2 := if 1 < backends.length then random₂ % (backends.length - 1) else 0
  let randomChoice2 :=
    if 1 < backends.length ∧ randomChoice1 ≤ randomChoice2 then randomChoice2 + 1 else randomChoice2
  match backends[randomChoice1]?, backends[randomChoice2]? with
  | some key1, some key2 =>
      read [key1, key2] fun counts =>
        withCount key1 (counts[0]?.getD none) fun connectionCount1 =>
          withCount key2 (counts[1]?.getD none) fun connectionCount2 =>
            done [if connectionCount1 ≤ connectionCount2 then randomChoice1 else randomChoice2]
  | _, _ => done []

end Selecting

/-- `select_backend_index`. -/
def selectBackendIndex (algorithm : LoadBalancerAlgorithm) (random₁ random₂ : Nat)
    (backends : List Backend) : Selecting :=
  match algorithm with
  | .twoRandomChoices => .twoRandomChoices random₁ random₂ backends
  | .leastConnections => .leastConnections 0 [] none backends

/-! ## Runs -/

/-- Where a handler is: it determines the backend server, it runs the algorithm, it looks for the counter,
it waits for the write lock with a counter that it has made, its request is in flight, or it has
returned. The list has the backend servers that are left. -/
inductive Handler where
  | determining (proxyToVector : List Backend)
  | selecting (proxyToVector : List Backend) (program : Selecting)
  | tracking (backend : Backend) (proxyToVector : List Backend)
  | inserting (backend : Backend) (proxyToVector : List Backend) (counter : Nat)
  | inFlight (backend : Backend) (proxyToVector : List Backend) (counter : Nat)
  | returned

/-- What a step depends on besides the state: random numbers for the algorithm and for the choice among
its indexes, whether health checks find the chosen backend server unhealthy, and whether the connection
has failed and another backend server is tried. -/
structure Answer where
  random₁ : Nat
  random₂ : Nat
  randomIndex : Nat
  unhealthy : Bool
  retry : Bool

/-- The map, the number of counters that have been made, and the handlers of all requests so far. -/
structure State where
  connectionTrack : HashMap Backend Nat
  counters : Nat
  handlers : List Handler

/-- The handler has a reference to the counter. -/
def Handler.refersTo (handler : Handler) (counter : Nat) : Bool :=
  match handler with
  | inserting _ _ other => other = counter
  | inFlight _ _ other => other = counter
  | _ => false

/-- The request is in flight to the backend server. -/
def Handler.isInFlightTo (handler : Handler) (backend : Backend) : Bool :=
  match handler with
  | inFlight other _ _ => other = backend
  | _ => false

namespace State

/-- `Arc::strong_count` of a counter. -/
def strongCount (state : State) (counter : Nat) : Nat :=
  (state.connectionTrack.entries.countP fun entry => entry.2 = counter) +
    state.handlers.countP fun handler => handler.refersTo counter

/-- The count of a backend server that the algorithms read. -/
def connectionCount (state : State) (backend : Backend) : Option Nat :=
  (state.connectionTrack.lookup backend).map fun counter => state.strongCount counter - 1

/-- The number of requests in flight to a backend server. -/
def requestsInFlight (state : State) (backend : Backend) : Nat :=
  state.handlers.countP fun handler => handler.isInFlightTo backend

/-- A new counter is put into the map. -/
def insertCounter (state : State) (backend : Backend) : State :=
  { state with
    connectionTrack := state.connectionTrack.insert backend state.counters
    counters := state.counters + 1 }

/-- A handler goes on. -/
def set (state : State) (index : Nat) (handler : Handler) : State :=
  { state with handlers := state.handlers.set index handler }

end State

/-- A request arrives, its handler takes a step, or it is dropped. -/
inductive Action where
  | request (proxyTo : List Backend)
  | resume (index : Nat) (answer : Answer)
  | drop (index : Nat)

section Step

variable (algorithm : LoadBalancerAlgorithm)

/-- `determine_proxy_to`, up to the first lock. -/
def determine (answer : Answer) : List Backend → Handler
  | [] => .returned
  | [only] => .tracking only []
  | proxyToVector =>
      .selecting proxyToVector
        (selectBackendIndex algorithm answer.random₁ answer.random₂ proxyToVector)

/-- One of the indexes that the algorithm has come to. -/
def pickIndex (answer : Answer) : List Nat → Nat
  | [] => 0
  | [only] => only
  | indexes => indexes.getD (answer.randomIndex % indexes.length) 0

/-- The algorithm has come to some indexes. An unhealthy backend server is passed over as long as there
is another one. -/
def choose (answer : Answer) (proxyToVector : List Backend) (indexes : List Nat) : Handler :=
  let index := pickIndex answer indexes
  match proxyToVector[index]? with
  | none => .returned
  | some backend =>
      let proxyToVector := proxyToVector.eraseIdx index
      if answer.unhealthy && !proxyToVector.isEmpty then
        .selecting proxyToVector
          (selectBackendIndex algorithm answer.random₁ answer.random₂ proxyToVector)
      else .tracking backend proxyToVector

/-- A step of `request_handler`. -/
def handlerStep (state : State) (index : Nat) (answer : Answer) : Handler → State
  | .determining proxyToVector => state.set index (determine algorithm answer proxyToVector)
  | .selecting proxyToVector (.read keys next) =>
      state.set index (.selecting proxyToVector (next (keys.map state.connectionCount)))
  | .selecting proxyToVector (.insert key next) =>
      (state.insertCounter key).set index (.selecting proxyToVector next)
  | .selecting proxyToVector (.done indexes) =>
      state.set index (choose algorithm answer proxyToVector indexes)
  | .tracking backend proxyToVector =>
      match state.connectionTrack.lookup backend with
      | some counter => state.set index (.inFlight backend proxyToVector counter)
      | none =>
          -- the new counter is not in the map yet
          { state with counters := state.counters + 1 }.set index
            (.inserting backend proxyToVector state.counters)
  | .inserting backend proxyToVector counter =>
      { state with connectionTrack := state.connectionTrack.insert backend counter }.set index
        (.inFlight backend proxyToVector counter)
  | .inFlight _ proxyToVector _ =>
      state.set index
        (if answer.retry && !proxyToVector.isEmpty then .determining proxyToVector else .returned)
  | .returned => state

/-- The server after an action. -/
def step (state : State) : Action → State
  | .request proxyTo => { state with handlers := state.handlers ++ [.determining proxyTo] }
  | .resume index answer =>
      match state.handlers[index]? with
      | none => state
      | some handler => handlerStep algorithm state index answer handler
  | .drop index => state.set index .returned

end Step

/-- The server before the first request. -/
def init : State := ⟨∅, 0, []⟩

/-- The backend server for which a handler is about to put a counter into the map. -/
def Handler.inserts : Handler → Option Backend
  | selecting _ (.insert key _) => some key
  | inserting backend _ _ => some backend
  | _ => none

/-- A counter is put into the map only when its backend server has no requests in flight. -/
def InsertsUnused (state : State) : Action → Prop
  | .resume index _ => ∀ backend ∈ state.handlers[index]?.bind Handler.inserts,
      state.requestsInFlight backend = 0
  | _ => True

/-! ## What every step keeps -/

/-- A request in flight to the backend server holds the counter. -/
def State.Holds (state : State) (backend : Backend) (counter : Nat) : Prop :=
  ∃ proxyToVector, Handler.inFlight backend proxyToVector counter ∈ state.handlers

/-- The requests in flight hold the counters in the map, and each counter belongs to one backend server or
to one handler that is about to put it into the map. -/
structure Inv (state : State) : Prop where
  coherent : Coherent (fun backend => state.connectionTrack.lookup backend) state.Holds
  fresh : ∀ backend counter, state.connectionTrack.lookup backend = some counter →
    counter < state.counters
  injective : ∀ backend other counter, state.connectionTrack.lookup backend = some counter →
    state.connectionTrack.lookup other = some counter → backend = other
  pendingFresh : ∀ backend proxyToVector counter,
    Handler.inserting backend proxyToVector counter ∈ state.handlers → counter < state.counters
  pendingNew : ∀ backend proxyToVector counter,
    Handler.inserting backend proxyToVector counter ∈ state.handlers →
      ∀ other, state.connectionTrack.lookup other ≠ some counter
  pendingUnique : ∀ (i j : Nat) backend proxyToVector other otherVector counter,
    state.handlers[i]? = some (.inserting backend proxyToVector counter) →
      state.handlers[j]? = some (.inserting other otherVector counter) → i = j

theorem not_holds_of_requestsInFlight {state : State} {backend : Backend}
    (h : state.requestsInFlight backend = 0) (counter : Nat) : ¬state.Holds backend counter := by
  rintro ⟨proxyToVector, hmem⟩
  rw [State.requestsInFlight, List.countP_eq_zero] at h
  exact h _ hmem (by simp [Handler.isInFlightTo])

/-- The handler at a position after one has been exchanged. -/
theorem getElem?_set_inserting {handlers : List Handler} {index i : Nat} {handler : Handler}
    {backend : Backend} {proxyToVector : List Backend} {counter : Nat}
    (hnot : ∀ backend proxyToVector counter, handler ≠ .inserting backend proxyToVector counter)
    (h : (handlers.set index handler)[i]? = some (.inserting backend proxyToVector counter)) :
    handlers[i]? = some (.inserting backend proxyToVector counter) := by
  rw [List.getElem?_set] at h
  split at h
  · split at h
    · exact absurd (Option.some.inj h) (hnot _ _ _)
    · exact absurd h (by simp)
  · exact h

namespace Inv

variable {state : State}

theorem init : Inv init where
  coherent := by
    rintro backend counter ⟨proxyToVector, hmem⟩
    exact absurd hmem List.not_mem_nil
  fresh _ _ h := absurd h (by simp [ConnectionTrack.init])
  injective _ _ _ h := absurd h (by simp [ConnectionTrack.init])
  pendingFresh _ _ _ h := absurd h List.not_mem_nil
  pendingNew _ _ _ h := absurd h List.not_mem_nil
  pendingUnique _ _ _ _ _ _ _ h := absurd h (by simp [ConnectionTrack.init])

/-- A handler goes on without a new counter. When its request is in flight it holds the one in the map. -/
theorem set (h : Inv state) (index : Nat) {handler : Handler}
    (hnot : ∀ backend proxyToVector counter, handler ≠ .inserting backend proxyToVector counter)
    (htakes : ∀ backend proxyToVector counter, handler = .inFlight backend proxyToVector counter →
      state.connectionTrack.lookup backend = some counter) :
    Inv (state.set index handler) where
  coherent := by
    rintro backend counter ⟨proxyToVector, hmem⟩
    rcases List.mem_or_eq_of_mem_set hmem with hold | hnew
    · exact h.coherent backend counter ⟨proxyToVector, hold⟩
    · exact htakes backend proxyToVector counter hnew.symm
  fresh := h.fresh
  injective := h.injective
  pendingFresh backend proxyToVector counter hmem := by
    rcases List.mem_or_eq_of_mem_set hmem with hold | hnew
    · exact h.pendingFresh backend proxyToVector counter hold
    · exact absurd hnew.symm (hnot _ _ _)
  pendingNew backend proxyToVector counter hmem := by
    rcases List.mem_or_eq_of_mem_set hmem with hold | hnew
    · exact h.pendingNew backend proxyToVector counter hold
    · exact absurd hnew.symm (hnot _ _ _)
  pendingUnique i j backend proxyToVector other otherVector counter hi hj :=
    h.pendingUnique i j _ _ _ _ _ (getElem?_set_inserting hnot hi) (getElem?_set_inserting hnot hj)

/-- A request arrives. -/
theorem request (h : Inv state) (proxyTo : List Backend) :
    Inv { state with handlers := state.handlers ++ [.determining proxyTo] } := by
  have hmem : ∀ handler ∈ state.handlers ++ [Handler.determining proxyTo],
      handler ∈ state.handlers ∨ handler = .determining proxyTo := by
    intro handler hmem
    rcases List.mem_append.1 hmem with hold | hnew
    · exact Or.inl hold
    · exact Or.inr (List.mem_singleton.1 hnew)
  have hat : ∀ (i : Nat) backend proxyToVector counter,
      (state.handlers ++ [Handler.determining proxyTo])[i]? =
        some (.inserting backend proxyToVector counter) →
      state.handlers[i]? = some (.inserting backend proxyToVector counter) := by
    intro i backend proxyToVector counter hi
    rw [List.getElem?_append] at hi
    split at hi
    · exact hi
    · exact absurd (List.mem_singleton.1 (List.mem_of_getElem? hi)) (by simp)
  refine ⟨?_, h.fresh, h.injective, ?_, ?_, ?_⟩
  · rintro backend counter ⟨proxyToVector, hholds⟩
    rcases hmem _ hholds with hold | hnew
    · exact h.coherent backend counter ⟨proxyToVector, hold⟩
    · exact absurd hnew (by simp)
  · intro backend proxyToVector counter hpending
    rcases hmem _ hpending with hold | hnew
    · exact h.pendingFresh backend proxyToVector counter hold
    · exact absurd hnew (by simp)
  · intro backend proxyToVector counter hpending
    rcases hmem _ hpending with hold | hnew
    · exact h.pendingNew backend proxyToVector counter hold
    · exact absurd hnew (by simp)
  · intro i j backend proxyToVector other otherVector counter hi hj
    exact h.pendingUnique i j _ _ _ _ _ (hat _ _ _ _ hi) (hat _ _ _ _ hj)

/-- A handler makes a counter. -/
theorem make (h : Inv state) (index : Nat) (backend : Backend) (proxyToVector : List Backend) :
    Inv ({ state with counters := state.counters + 1 }.set index
      (.inserting backend proxyToVector state.counters)) where
  coherent := by
    apply h.coherent.mono
    rintro other counter ⟨otherVector, hmem⟩
    rcases List.mem_or_eq_of_mem_set hmem with hold | hnew
    · exact ⟨otherVector, hold⟩
    · exact absurd hnew (by simp)
  fresh other counter hlookup := Nat.lt_succ_of_lt (h.fresh other counter hlookup)
  injective := h.injective
  pendingFresh other otherVector counter hmem := by
    rcases List.mem_or_eq_of_mem_set hmem with hold | hnew
    · exact Nat.lt_succ_of_lt (h.pendingFresh other otherVector counter hold)
    · rw [(Handler.inserting.inj hnew).2.2]
      exact Nat.lt_succ_self _
  pendingNew other otherVector counter hmem := by
    rcases List.mem_or_eq_of_mem_set hmem with hold | hnew
    · exact h.pendingNew other otherVector counter hold
    · intro another hlookup
      have hlt := h.fresh another counter hlookup
      rw [(Handler.inserting.inj hnew).2.2] at hlt
      exact absurd hlt (Nat.lt_irrefl _)
  pendingUnique i j first firstVector second secondVector counter hi hj := by
    -- a counter that was pending before is not the new one
    have hat : ∀ k another anotherVector,
        (state.handlers.set index (.inserting backend proxyToVector state.counters))[k]? =
          some (.inserting another anotherVector counter) →
        k = index ∧ counter = state.counters ∨
          state.handlers[k]? = some (.inserting another anotherVector counter) ∧
            counter < state.counters := by
      intro k another anotherVector hk
      rw [List.getElem?_set] at hk
      split at hk
      · rename_i hindex
        split at hk
        · exact Or.inl ⟨hindex.symm, (Handler.inserting.inj (Option.some.inj hk)).2.2.symm⟩
        · exact absurd hk (by simp)
      · exact Or.inr ⟨hk, h.pendingFresh _ _ _ (List.mem_of_getElem? hk)⟩
    rcases hat i first firstVector hi with ⟨hi, hcounter⟩ | ⟨hi, hlt⟩
    · rcases hat j second secondVector hj with ⟨hj, -⟩ | ⟨-, hlt⟩
      · rw [hi, hj]
      · omega
    · rcases hat j second secondVector hj with ⟨-, hcounter⟩ | ⟨hj, -⟩
      · omega
      · exact h.pendingUnique i j _ _ _ _ _ hi hj

/-- A counter that nothing else refers to is put into the map, while its backend server has no requests
in flight. -/
theorem register (h : Inv state) {backend : Backend} {counter : Nat} (hlt : counter < state.counters)
    (hnew : ∀ other, state.connectionTrack.lookup other ≠ some counter)
    (hpending : ∀ other proxyToVector, Handler.inserting other proxyToVector counter ∉ state.handlers)
    (hunused : state.requestsInFlight backend = 0) :
    Inv { state with connectionTrack := state.connectionTrack.insert backend counter } := by
  have hlookup : ∀ other found,
      (state.connectionTrack.insert backend counter).lookup other = some found →
      other = backend ∧ found = counter ∨
        other ≠ backend ∧ state.connectionTrack.lookup other = some found := by
    intro other found hfound
    by_cases hother : other = backend
    · rw [hother, AList.lookup_insert, Option.some.injEq] at hfound
      exact Or.inl ⟨hother, hfound.symm⟩
    · rw [AList.lookup_insert_ne hother] at hfound
      exact Or.inr ⟨hother, hfound⟩
  refine ⟨?_, ?_, ?_, h.pendingFresh, ?_, h.pendingUnique⟩
  · apply h.coherent.register (not_holds_of_requestsInFlight hunused)
      (AList.lookup_insert state.connectionTrack)
    · intro other hother
      exact AList.lookup_insert_ne hother
    · intro other found hholds
      exact Or.inl hholds
  · intro other found hfound
    rcases hlookup other found hfound with ⟨-, rfl⟩ | ⟨-, hold⟩
    · exact hlt
    · exact h.fresh other found hold
  · intro first second found hfirst hsecond
    rcases hlookup first found hfirst with ⟨rfl, rfl⟩ | ⟨-, holdFirst⟩
    · rcases hlookup second found hsecond with ⟨rfl, -⟩ | ⟨-, holdSecond⟩
      · rfl
      · exact absurd holdSecond (hnew second)
    · rcases hlookup second found hsecond with ⟨-, rfl⟩ | ⟨-, holdSecond⟩
      · exact absurd holdFirst (hnew first)
      · exact h.injective first second found holdFirst holdSecond
  · intro other proxyToVector found hmem another hfound
    rcases hlookup another found hfound with ⟨-, rfl⟩ | ⟨-, hold⟩
    · exact hpending other proxyToVector hmem
    · exact h.pendingNew other proxyToVector found hmem another hold

/-- An algorithm puts a new counter into the map. -/
theorem insertCounter (h : Inv state) {backend : Backend} (hunused : state.requestsInFlight backend = 0) :
    Inv (state.insertCounter backend) := by
  have hmore : Inv { state with counters := state.counters + 1 } :=
    ⟨h.coherent, fun other counter hlookup => Nat.lt_succ_of_lt (h.fresh other counter hlookup),
      h.injective, fun other proxyToVector counter hmem =>
        Nat.lt_succ_of_lt (h.pendingFresh other proxyToVector counter hmem), h.pendingNew,
      h.pendingUnique⟩
  apply hmore.register (Nat.lt_succ_self _)
  · intro other hlookup
    exact Nat.lt_irrefl _ (h.fresh other _ hlookup)
  · intro other proxyToVector hmem
    exact Nat.lt_irrefl _ (h.pendingFresh other proxyToVector _ hmem)
  · exact hunused

/-- A handler puts its counter into the map, and its request is in flight. -/
theorem insert (h : Inv state) {index : Nat} {backend : Backend} {proxyToVector : List Backend}
    {counter : Nat}
    (hhandler : state.handlers[index]? = some (.inserting backend proxyToVector counter))
    (hunused : state.requestsInFlight backend = 0) :
    Inv ({ state with connectionTrack := state.connectionTrack.insert backend counter }.set index
      (.inFlight backend proxyToVector counter)) := by
  have hmem := List.mem_of_getElem? hhandler
  -- the handler lets go of the counter, which then nothing refers to
  have hreleased : Inv (state.set index .returned) := h.set index (by simp) (by simp)
  have hregistered : Inv { state.set index .returned with
      connectionTrack := state.connectionTrack.insert backend counter } := by
    apply hreleased.register (h.pendingFresh _ _ _ hmem) (h.pendingNew _ _ _ hmem)
    · intro other otherVector hpending
      obtain ⟨i, hi⟩ := List.mem_iff_getElem?.1 hpending
      have hold := getElem?_set_inserting (by simp) hi
      have hindex := h.pendingUnique i index _ _ _ _ _ hold hhandler
      rw [hindex] at hi
      exact absurd hi (by simp [State.set, List.getElem?_set])
    · rw [State.requestsInFlight, List.countP_eq_zero] at hunused ⊢
      intro handler hhandler
      rcases List.mem_or_eq_of_mem_set hhandler with hold | hnew
      · exact hunused handler hold
      · rw [hnew]
        exact Bool.false_ne_true
  have htaken := @Inv.set _ hregistered index (.inFlight backend proxyToVector counter) (by simp)
    (by
      rintro other otherVector found hsame
      obtain ⟨rfl, -, rfl⟩ := Handler.inFlight.inj hsame
      exact AList.lookup_insert _)
  simpa only [State.set, List.set_set] using htaken

/-- Every step keeps the invariant, when it puts a counter into the map only while its backend server has
no requests in flight. -/
theorem step (h : Inv state) (algorithm : LoadBalancerAlgorithm) {action : Action}
    (hunused : InsertsUnused state action) : Inv (ConnectionTrack.step algorithm state action) := by
  cases action with
  | request proxyTo => exact h.request proxyTo
  | drop index => exact h.set index (by simp) (by simp)
  | resume index answer =>
      rw [ConnectionTrack.step]
      cases hhandler : state.handlers[index]? with
      | none => exact h
      | some handler =>
          have hinserts : ∀ backend ∈ handler.inserts, state.requestsInFlight backend = 0 := by
            intro backend hbackend
            apply hunused backend
            rw [hhandler]
            exact hbackend
          cases handler with
          | determining proxyToVector =>
              apply h.set index
              · intro backend rest counter
                rcases proxyToVector with - | ⟨first, - | ⟨second, others⟩⟩ <;> simp [determine]
              · intro backend rest counter
                rcases proxyToVector with - | ⟨first, - | ⟨second, others⟩⟩ <;> simp [determine]
          | selecting proxyToVector program =>
              cases program with
              | read keys next => exact h.set index (by simp) (by simp)
              | insert key next =>
                  exact (h.insertCounter (hinserts key rfl)).set index (by simp) (by simp)
              | done indexes =>
                  -- a choice leads to tracking, and neither to inserting nor to a request in flight
                  have hchoose : (∀ backend rest counter,
                      choose algorithm answer proxyToVector indexes ≠
                        .inserting backend rest counter) ∧
                      ∀ backend rest counter, choose algorithm answer proxyToVector indexes ≠
                        .inFlight backend rest counter := by
                    rw [choose]
                    split
                    · simp
                    · dsimp only
                      split <;> simp
                  exact h.set index hchoose.1 fun backend rest counter hsame =>
                    absurd hsame (hchoose.2 backend rest counter)
          | tracking backend proxyToVector =>
              dsimp only
              rw [handlerStep]
              cases hlookup : state.connectionTrack.lookup backend with
              | some counter =>
                  apply h.set index (by simp)
                  rintro other rest found hsame
                  obtain ⟨rfl, -, rfl⟩ := Handler.inFlight.inj hsame
                  exact hlookup
              | none => exact h.make index backend proxyToVector
          | inserting backend proxyToVector counter =>
              exact h.insert hhandler (hinserts backend rfl)
          | inFlight backend proxyToVector counter =>
              dsimp only
              rw [handlerStep]
              apply h.set index
              · intro other rest found
                split <;> simp
              · intro other rest found
                split <;> simp
          | returned => exact h

/-- The map has one reference to a counter of its own. -/
theorem countP_entries (h : Inv state) {backend : Backend} {counter : Nat}
    (hlookup : state.connectionTrack.lookup backend = some counter) :
    (state.connectionTrack.entries.countP fun entry => entry.2 = counter) = 1 := by
  have hkey : (state.connectionTrack.entries.countP fun entry => entry.2 = counter) =
      state.connectionTrack.entries.countP fun entry => entry.1 = backend := by
    apply List.countP_congr
    rintro ⟨other, found⟩ hmem
    have hfound : state.connectionTrack.lookup other = some found :=
      List.mem_dlookup state.connectionTrack.nodupKeys hmem
    simp only [decide_eq_true_eq]
    constructor
    · rintro rfl
      exact h.injective other backend found hfound hlookup
    · rintro rfl
      exact Option.some.inj (hfound.symm.trans hlookup)
  have hmem : backend ∈ state.connectionTrack.entries.keys :=
    AList.lookup_isSome.1 (by rw [hlookup]; rfl)
  have hcount := List.count_eq_one_of_mem state.connectionTrack.nodupKeys hmem
  rw [List.keys, List.count, List.countP_map] at hcount
  rw [hkey, ← hcount]
  apply List.countP_congr
  intro entry _
  simp

/-- The algorithms read the number of requests in flight. -/
theorem connectionCount_getD (h : Inv state) (backend : Backend) :
    (state.connectionCount backend).getD 0 = state.requestsInFlight backend := by
  rw [State.connectionCount]
  cases hlookup : state.connectionTrack.lookup backend with
  | none =>
      -- a request in flight would hold the counter in the map
      have hnone : state.requestsInFlight backend = 0 := by
        rw [State.requestsInFlight, List.countP_eq_zero]
        intro handler hmem hflight
        cases handler with
        | inFlight other proxyToVector counter =>
            obtain rfl : other = backend := of_decide_eq_true hflight
            have hheld := h.coherent other counter ⟨proxyToVector, hmem⟩
            exact absurd (hlookup.symm.trans hheld) (by simp)
        | determining | selecting | tracking | inserting | returned =>
            exact absurd hflight Bool.false_ne_true
      rw [hnone]
      rfl
  | some counter =>
      have hrefers : (state.handlers.countP fun handler => handler.refersTo counter) =
          state.requestsInFlight backend := by
        apply List.countP_congr
        intro handler hmem
        cases handler with
        | inFlight other proxyToVector found =>
            have hheld := h.coherent other found ⟨proxyToVector, hmem⟩
            simp only [Handler.refersTo, Handler.isInFlightTo, decide_eq_true_eq]
            constructor
            · rintro rfl
              exact h.injective other backend found hheld hlookup
            · rintro rfl
              exact Option.some.inj (hheld.symm.trans hlookup)
        | inserting other proxyToVector found =>
            simp only [Handler.refersTo, Handler.isInFlightTo, decide_eq_true_eq, Bool.false_eq_true,
              iff_false]
            rintro rfl
            exact h.pendingNew other proxyToVector found hmem backend hlookup
        | determining | selecting | tracking | returned => exact Iff.rfl
      rw [Option.map_some, Option.getD_some, State.strongCount, h.countP_entries hlookup, hrefers]
      omega

end Inv

/-- The algorithms read the number of requests in flight, and each of these holds the counter in the map,
in every run in which no counter is put into the map while its backend server has requests in flight. -/
theorem connectionCount_eq (algorithm : LoadBalancerAlgorithm) (actions : List Action)
    (hunused : AllSteps (step algorithm) InsertsUnused init actions) :
    ∀ backend, ((run (step algorithm) init actions).connectionCount backend).getD 0 =
        (run (step algorithm) init actions).requestsInFlight backend ∧
      ∀ counter, (run (step algorithm) init actions).Holds backend counter →
        (run (step algorithm) init actions).connectionTrack.lookup backend = some counter := by
  have hinv : Inv (run (step algorithm) init actions) := by
    apply run_invariant _ Inv.init hunused
    intro state action hok h
    exact h.step algorithm hok
  intro backend
  exact ⟨hinv.connectionCount_getD backend, fun counter hholds => hinv.coherent backend counter hholds⟩

/-- A backend server. -/
def backendA : Backend := ⟨"http://a".toList, none⟩

/-- Zeros, and a healthy backend server. -/
def plainAnswer : Answer := ⟨0, 0, 0, false, false⟩

/-- Two requests to a backend server. The second one finds the counter while the first one is in flight. -/
def requestsInTurn : List Action :=
  [.request [backendA], .resume 0 plainAnswer, .resume 0 plainAnswer, .resume 0 plainAnswer,
    .request [backendA], .resume 1 plainAnswer, .resume 1 plainAnswer]

theorem connectionCount_eq_inTurn :
    (run (step .leastConnections) init requestsInTurn).connectionCount backendA = some 2 ∧
      ((run (step .leastConnections) init requestsInTurn).connectionCount backendA).getD 0 =
        (run (step .leastConnections) init requestsInTurn).requestsInFlight backendA := by
  refine ⟨rfl, (connectionCount_eq .leastConnections _ ?_ backendA).1⟩
  refine ⟨trivial, ?_, ?_, ?_, trivial, ?_, ?_, trivial⟩
  · rintro backend ⟨⟩
  · rintro backend ⟨⟩
  · rintro backend -
    rfl
  -- the second request puts nothing into the map
  · rintro backend ⟨⟩
  · rintro backend ⟨⟩

/-- Two requests look for the counter of a backend server before either of them puts one into the map. -/
def simultaneousRequests : List Action :=
  [.request [backendA], .request [backendA], .resume 0 plainAnswer, .resume 1 plainAnswer,
    .resume 0 plainAnswer, .resume 1 plainAnswer, .resume 0 plainAnswer, .resume 1 plainAnswer]

/-- Both are in flight, but only one of them is counted: the other one holds a counter that is not in the
map any more. -/
theorem connectionCount_loses :
    (run (step .leastConnections) init simultaneousRequests).connectionCount backendA = some 1 ∧
      (run (step .leastConnections) init simultaneousRequests).requestsInFlight backendA = 2 ∧
      (run (step .leastConnections) init simultaneousRequests).Holds backendA 0 ∧
      (run (step .leastConnections) init simultaneousRequests).connectionTrack.lookup backendA =
        some 1 :=
  ⟨rfl, rfl, ⟨[], List.mem_cons_self⟩, rfl⟩

end Ferron.Modules.ConnectionTrack
