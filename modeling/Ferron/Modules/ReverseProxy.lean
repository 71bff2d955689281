import Ferron.Common.IpBlockList
import Ferron.Lib.Run
import Ferron.Rust.Text

/-!
# Connections to backend servers

All configurations share two pools of kept-alive connections. A connection is filed under the URL of the
backend server, its Unix socket and the client address that a PROXY header tells, but it is opened with
the settings of the configuration that asks for it first.

The requests that are proxied at a time take their steps in any order. A connection out of a pool has
been opened with the settings that the request's configuration demands in every run in which a request
only looks into a pool that holds nothing else under its key (`reused_proper`); this is so when the
configurations that name one backend server agree on the settings (`matching_of_agree`).
-/

set_option autoImplicit false

namespace Ferron.Modules.ReverseProxy

open Ferron.Lib.Run
open Ferron.Common (IpAddr)

/-- A backend server: its URL and its Unix socket. -/
structure Backend where
  proxyTo : Str
  proxyUnix : Option Str
  deriving DecidableEq

/-- What the handler reads of a configuration. -/
structure Configuration where
  proxyTo : List Backend
  enableHealthCheck : Bool
  disableCertificateVerification : Bool
  retryConnection : Bool
  proxyHeader : Option Str
  enableHttp2Only : Bool
  enableHttp2 : Bool
  keepalive : Bool

/-- A request: the configuration it is routed to, the canonical address of the client, and whether it
has an `Upgrade` header. -/
structure ProxyRequest where
  config : Configuration
  remoteIp : IpAddr
  isHttpUpgrade : Bool

/-- `enable_keepalive`. -/
def enableKeepalive (request : ProxyRequest) : Bool :=
  (request.config.enableHttp2Only || !request.config.enableHttp2 || !request.isHttpUpgrade) &&
    request.config.keepalive

/-- `proxy_client_ip`. -/
def proxyClientIp (request : ProxyRequest) : Option IpAddr :=
  if request.config.proxyHeader = some "v1".toList ∨ request.config.proxyHeader = some "v2".toList then
    some request.remoteIp
  else none

/-- The key of a pool. -/
abbrev Key := Str × Option Str × Option IpAddr

/-- The key under which a request looks for a connection. -/
def key (request : ProxyRequest) (backend : Backend) : Key :=
  (backend.proxyTo, backend.proxyUnix, proxyClientIp request)

/-- The parts of a URL that are looked at. -/
structure ProxyRequestUrl where
  scheme : Option Str
  host : Option Str

/-- A connection and how it has been opened: whether the certificate has been verified, when there is
one, and whether HTTP/2 only has been demanded. -/
structure Connection where
  upstream : Backend
  verification : Option Bool
  http2Only : Bool
  deriving DecidableEq

/-- A connection that waits in a pool. -/
structure Entry where
  key : Key
  connection : Connection
  deriving DecidableEq

/-- `connections` and `unix_connections`. -/
structure Pools where
  connections : List Entry
  unixConnections : List Entry

namespace Pools

/-- The pool for a backend server. -/
def get (pools : Pools) (backend : Backend) : List Entry :=
  if backend.proxyUnix.isSome then pools.unixConnections else pools.connections

/-- The pool for a backend server exchanged. -/
def set (pools : Pools) (backend : Backend) (entries : List Entry) : Pools :=
  if backend.proxyUnix.isSome then { pools with unixConnections := entries }
  else { pools with connections := entries }

/-- The pool has an entry. -/
def Has (pools : Pools) (entry : Entry) : Prop :=
  entry ∈ pools.connections ∨ entry ∈ pools.unixConnections

end Pools

/-- Where a handler is: it chooses a backend server, it pulls from the pool while some connections are
not ready, it opens a connection, it waits for the response (the connection may be kept afterwards), or
it has returned. -/
inductive Phase where
  | selecting (proxyToVector : List Backend)
  | pulling (backend : Backend) (proxyToVector : List Backend) (waiting : List Connection)
  | connecting (backend : Backend) (proxyToVector : List Backend)
  | sending (backend : Backend) (connection : Connection) (keep : Bool)
  | returned

/-- The handler of a request. -/
structure Handler where
  request : ProxyRequest
  phase : Phase

/-- What `get` and `wait_ready` find out about a connection. -/
inductive ConnectionStatus where
  | ready
  | notReady
  | closed
  deriving DecidableEq

/-- What happens to a handler: the load balancer chooses a backend server or passes over an unhealthy
one, the pool hands out a connection or an empty item, a connection that was not ready is looked at
again, the backend server is connected to or not, the response arrives, or the handler is dropped. -/
inductive Answer where
  | selected (index : Nat)
  | unhealthy (index : Nat)
  | pulled (index : Nat) (status : ConnectionStatus)
  | pulledEmpty
  | waited (index : Nat) (status : ConnectionStatus)
  | connected
  | connectFailed
  | responded (isClosed : Bool)
  | aborted

/-- A kept-alive connection has been given to a request. -/
structure Reuse where
  request : ProxyRequest
  backend : Backend
  connection : Connection

/-- The items of some connections are dropped: the connections go back into the pool. -/
def giveBack (pools : Pools) (request : ProxyRequest) (backend : Backend)
    (connections : List Connection) : Pools :=
  pools.set backend (pools.get backend ++ connections.map (Entry.mk (key request backend)))

/-- The pools, the handler and the reuses after a step of the handler. -/
structure StepResult where
  pools : Pools
  handler : Handler
  log : List Reuse

section Handler

-- `parse::<hyper::Uri>()`.
variable (parseUri : Str → Option ProxyRequestUrl)

/-- `encrypted`, when the URL is supported. -/
def encrypted (proxyTo : Str) : Option Bool :=
  match parseUri proxyTo with
  | none => none
  | some url =>
      if url.scheme = some "http".toList then if url.host.isSome then some false else none
      else if url.scheme = some "https".toList then if url.host.isSome then some true else none
      else none

/-- The connection that is opened for a request. -/
def establish (request : ProxyRequest) (backend : Backend) : Connection where
  upstream := backend
  verification :=
    if encrypted parseUri backend.proxyTo = some true then
      some (!request.config.disableCertificateVerification)
    else none
  http2Only := request.config.enableHttp2Only

/-- What becomes of a connection that is looked at. -/
def examine (pools : Pools) (request : ProxyRequest) (backend : Backend)
    (proxyToVector : List Backend) (waiting : List Connection) (connection : Connection) :
    ConnectionStatus → StepResult
  | .ready =>
      ⟨giveBack pools request backend waiting, ⟨request, .sending backend connection true⟩,
        [⟨request, backend, connection⟩]⟩
  | .notReady =>
      ⟨pools, ⟨request, .pulling backend proxyToVector (waiting ++ [connection])⟩, []⟩
  | .closed => ⟨pools, ⟨request, .pulling backend proxyToVector waiting⟩, []⟩

/-- A step of `request_handler`. -/
def handlerStep (pools : Pools) (handler : Handler) (answer : Answer) : StepResult :=
  let request := handler.request
  match handler.phase, answer with
  | .selecting proxyToVector, .selected index =>
      match proxyToVector[index]? with
      | none => ⟨pools, ⟨request, .returned⟩, []⟩
      | some backend =>
          match encrypted parseUri backend.proxyTo with
          | none => ⟨pools, ⟨request, .returned⟩, []⟩
          | some _ => ⟨pools, ⟨request, .pulling backend (proxyToVector.eraseIdx index) []⟩, []⟩
  | .selecting proxyToVector, .unhealthy index =>
      -- an unhealthy backend is taken off the list as long as there is another one
      if request.config.enableHealthCheck && 1 < proxyToVector.length then
        ⟨pools, ⟨request, .selecting (proxyToVector.eraseIdx index)⟩, []⟩
      else ⟨pools, handler, []⟩
  | .pulling backend proxyToVector waiting, .pulled index status =>
      match (pools.get backend)[index]? with
      | none => ⟨pools, handler, []⟩
      | some entry =>
          -- a pool hands out what it holds under the key
          if entry.key = key request backend then
            examine (pools.set backend ((pools.get backend).eraseIdx index)) request backend
              proxyToVector waiting entry.connection status
          else ⟨pools, handler, []⟩
  | .pulling backend proxyToVector waiting, .pulledEmpty =>
      ⟨giveBack pools request backend waiting, ⟨request, .connecting backend proxyToVector⟩, []⟩
  -- one of the items that were not ready
  | .pulling backend proxyToVector waiting, .waited index status =>
      match waiting[index]? with
      | none => ⟨pools, handler, []⟩
      | some connection =>
          examine pools request backend proxyToVector (waiting.eraseIdx index) connection status
  | .connecting backend _, .connected =>
      ⟨pools, ⟨request, .sending backend (establish parseUri request backend)
        (enableKeepalive request)⟩, []⟩
  | .connecting _ proxyToVector, .connectFailed =>
      -- the loop goes on with the backends that are left
      if request.config.retryConnection && !proxyToVector.isEmpty then
        ⟨pools, ⟨request, .selecting proxyToVector⟩, []⟩
      else ⟨pools, ⟨request, .returned⟩, []⟩
  | .sending backend connection keep, .responded isClosed =>
      ⟨if keep && !isClosed then giveBack pools request backend [connection] else pools,
        ⟨request, .returned⟩, []⟩
  -- the items of a handler that is dropped go back into the pool
  | .pulling backend _ waiting, .aborted =>
      ⟨giveBack pools request backend waiting, ⟨request, .returned⟩, []⟩
  | _, .aborted => ⟨pools, ⟨request, .returned⟩, []⟩
  | _, _ => ⟨pools, handler, []⟩

/-! ## Runs -/

/-- The server: its pools, the handlers of all requests so far, and the kept-alive connections that
have been given to them. -/
structure State where
  pools : Pools
  handlers : List Handler
  log : List Reuse

/-- A request arrives, a handler takes a step, or a pool drops a connection. -/
inductive Action where
  | request (request : ProxyRequest)
  | answer (index : Nat) (answer : Answer)
  | evict (isUnix : Bool) (index : Nat)

/-- The server after an action. -/
def step (state : State) : Action → State
  | .request request =>
      { state with handlers := state.handlers ++ [⟨request, .selecting request.config.proxyTo⟩] }
  | .answer index answer =>
      match state.handlers[index]? with
      | none => state
      | some handler =>
          let result := handlerStep parseUri state.pools handler answer
          ⟨result.pools, state.handlers.set index result.handler, state.log ++ result.log⟩
  | .evict true index =>
      { state with
        pools.unixConnections := state.pools.unixConnections.eraseIdx index }
  | .evict false index =>
      { state with
        pools.connections := state.pools.connections.eraseIdx index }

/-- The server before the first request. -/
def init : State := ⟨⟨[], []⟩, [], []⟩

/-- The connection has been opened for the same backend server with the settings that the request's
configuration demands. -/
def Proper (reuse : Reuse) : Prop :=
  reuse.connection = establish parseUri reuse.request reuse.backend

/-- A handler that pulls from a pool finds under its key only connections that have been opened as its
own configuration demands. -/
def Matching (state : State) : Action → Prop
  | .answer index (.pulled _ _) =>
      ∀ request backend proxyToVector waiting,
        state.handlers[index]? = some ⟨request, .pulling backend proxyToVector waiting⟩ →
        ∀ entry ∈ state.pools.get backend, entry.key = key request backend →
          entry.connection = establish parseUri request backend
  | _ => True

/-! ## What a step does -/

/-- The backend servers that a handler may still use. -/
def Phase.backends : Phase → List Backend
  | .selecting proxyToVector => proxyToVector
  | .pulling backend proxyToVector _ => backend :: proxyToVector
  | .connecting backend proxyToVector => backend :: proxyToVector
  | .sending backend _ _ => [backend]
  | .returned => []

/-- A handler holds a connection to a backend server. -/
def Phase.Holds (phase : Phase) (backend : Backend) (connection : Connection) : Prop :=
  match phase with
  | .pulling current _ waiting => backend = current ∧ connection ∈ waiting
  | .sending current sent _ => backend = current ∧ connection = sent
  | _ => False

namespace Pools

@[simp] theorem has_set (pools : Pools) (backend : Backend) (entries : List Entry) (entry : Entry) :
    (pools.set backend entries).Has entry → entry ∈ entries ∨ pools.Has entry := by
  intro h
  unfold set at h
  split at h
  · rcases h with h | h
    · exact Or.inr (Or.inl h)
    · exact Or.inl h
  · rcases h with h | h
    · exact Or.inl h
    · exact Or.inr (Or.inr h)

theorem has_of_mem_get {pools : Pools} {backend : Backend} {entry : Entry}
    (h : entry ∈ pools.get backend) : pools.Has entry := by
  unfold get at h
  split at h
  · exact Or.inr h
  · exact Or.inl h

end Pools

/-- The items of connections go under the key they were pulled with. -/
theorem has_giveBack {pools : Pools} {request : ProxyRequest} {backend : Backend}
    {connections : List Connection} {entry : Entry}
    (h : (giveBack pools request backend connections).Has entry) :
    pools.Has entry ∨ ∃ connection ∈ connections, entry = ⟨key request backend, connection⟩ := by
  rcases Pools.has_set _ _ _ _ h with hmem | hhas
  · rcases List.mem_append.1 hmem with hold | hnew
    · exact Or.inl (Pools.has_of_mem_get hold)
    · obtain ⟨connection, hconnection, rfl⟩ := List.mem_map.1 hnew
      exact Or.inr ⟨connection, hconnection, rfl⟩
  · exact Or.inl hhas

/-- A connection that a handler has after a step: it had it before, it has opened it, or the pool holds
it under its key. -/
def Obtains (pools : Pools) (handler : Handler) (answer : Answer) (backend : Backend)
    (connection : Connection) : Prop :=
  handler.phase.Holds backend connection ∨
    (backend ∈ handler.phase.backends ∧ connection = establish parseUri handler.request backend) ∨
    ∃ index status proxyToVector waiting entry, answer = .pulled index status ∧
      handler.phase = .pulling backend proxyToVector waiting ∧ entry ∈ pools.get backend ∧
      entry.key = key handler.request backend ∧ connection = entry.connection

/-- What a step of a handler does. -/
structure Steps (pools : Pools) (handler : Handler) (answer : Answer) (result : StepResult) :
    Prop where
  request : result.handler.request = handler.request
  backends : ∀ backend ∈ result.handler.phase.backends, backend ∈ handler.phase.backends
  filed : ∀ entry, result.pools.Has entry → pools.Has entry ∨
    ∃ backend connection, Obtains parseUri pools handler answer backend connection ∧
      entry = ⟨key handler.request backend, connection⟩
  holds : ∀ backend connection, result.handler.phase.Holds backend connection →
    Obtains parseUri pools handler answer backend connection
  log : ∀ reuse ∈ result.log, reuse.request = handler.request ∧
    Obtains parseUri pools handler answer reuse.backend reuse.connection

variable {parseUri}

/-- A step that changes nothing but the phase, to one without connections. -/
theorem steps_phase {pools : Pools} {handler : Handler} {answer : Answer} {phase : Phase}
    (hbackends : ∀ backend ∈ phase.backends, backend ∈ handler.phase.backends)
    (hholds : ∀ backend connection, phase.Holds backend connection →
      Obtains parseUri pools handler answer backend connection) :
    Steps parseUri pools handler answer ⟨pools, ⟨handler.request, phase⟩, []⟩ where
  request := rfl
  backends := hbackends
  filed _ h := Or.inl h
  holds := hholds
  log _ h := absurd h (by simp)

/-- A connection is looked at that the handler has waited for or that the pool hands out. -/
theorem steps_examine {pools pools' : Pools} {request : ProxyRequest} {backend : Backend}
    {proxyToVector : List Backend} {waiting waiting' : List Connection} {connection : Connection}
    {answer : Answer} (status : ConnectionStatus)
    (hpools : ∀ entry, pools'.Has entry → pools.Has entry)
    (hwaiting : ∀ connection ∈ waiting', connection ∈ waiting)
    (hconnection : Obtains parseUri pools ⟨request, .pulling backend proxyToVector waiting⟩ answer
      backend connection) :
    Steps parseUri pools ⟨request, .pulling backend proxyToVector waiting⟩ answer
      (examine pools' request backend proxyToVector waiting' connection status) := by
  cases status with
  | ready =>
      refine ⟨rfl, ?_, ?_, ?_, ?_⟩
      · intro other hother
        rw [List.mem_singleton.1 hother]
        exact List.mem_cons_self
      · intro entry hentry
        rcases has_giveBack hentry with hhas | ⟨other, hother, rfl⟩
        · exact Or.inl (hpools entry hhas)
        · exact Or.inr ⟨backend, other, Or.inl ⟨rfl, hwaiting other hother⟩, rfl⟩
      · rintro other otherConnection ⟨rfl, rfl⟩
        exact hconnection
      · intro reuse hreuse
        rw [List.mem_singleton.1 hreuse]
        exact ⟨rfl, hconnection⟩
  | notReady =>
      refine ⟨rfl, fun _ h => h, fun entry h => Or.inl (hpools entry h), ?_, fun _ h => absurd h (by
        simp [examine])⟩
      rintro other otherConnection ⟨rfl, hmem⟩
      rcases List.mem_append.1 hmem with hold | hnew
      · exact Or.inl ⟨rfl, hwaiting _ hold⟩
      · rw [List.mem_singleton.1 hnew]
        exact hconnection
  | closed =>
      refine ⟨rfl, fun _ h => h, fun entry h => Or.inl (hpools entry h), ?_, fun _ h => absurd h (by
        simp [examine])⟩
      rintro other otherConnection ⟨rfl, hmem⟩
      exact Or.inl ⟨rfl, hwaiting _ hmem⟩

/-- The connections that a handler has waited for go back into the pool. -/
theorem steps_giveBack {pools : Pools} {request : ProxyRequest} {backend : Backend}
    {phase phase' : Phase} {connections : List Connection} {answer : Answer}
    (hbackends : ∀ backend ∈ phase'.backends, backend ∈ phase.backends)
    (hholds : ∀ backend connection, ¬phase'.Holds backend connection)
    (hconnections : ∀ connection ∈ connections, phase.Holds backend connection) :
    Steps parseUri pools ⟨request, phase⟩ answer
      ⟨giveBack pools request backend connections, ⟨request, phase'⟩, []⟩ where
  request := rfl
  backends := hbackends
  filed entry h := by
    rcases has_giveBack h with hhas | ⟨connection, hconnection, rfl⟩
    · exact Or.inl hhas
    · exact Or.inr ⟨backend, connection, Or.inl (hconnections connection hconnection), rfl⟩
  holds backend connection h := absurd h (hholds backend connection)
  log _ h := absurd h (by simp)

/-- The step lemma: one case for each phase and answer. -/
theorem handlerStep_steps (pools : Pools) (handler : Handler) (answer : Answer) :
    Steps parseUri pools handler answer (handlerStep parseUri pools handler answer) := by
  obtain ⟨request, phase⟩ := handler
  -- an answer that does not fit the phase changes nothing
  have hstay : ∀ phase : Phase,
      Steps parseUri pools ⟨request, phase⟩ answer ⟨pools, ⟨request, phase⟩, []⟩ := fun phase =>
    steps_phase (fun _ h => h) fun _ _ h => Or.inl h
  have hreturn : ∀ phase : Phase,
      Steps parseUri pools ⟨request, phase⟩ answer ⟨pools, ⟨request, .returned⟩, []⟩ := fun phase =>
    steps_phase (fun _ h => absurd h (by simp [Phase.backends])) fun _ _ h => absurd h id
  cases phase with
  | selecting proxyToVector =>
      cases answer with
      | selected index =>
          simp only [handlerStep]
          cases hbackend : proxyToVector[index]? with
          | none => exact hreturn _
          | some backend =>
              dsimp only
              cases encrypted parseUri backend.proxyTo with
              | none => exact hreturn _
              | some isEncrypted =>
                  apply steps_phase
                  · intro other hother
                    -- the chosen backend and those that are left were in the list
                    rcases List.mem_cons.1 hother with rfl | hrest
                    · exact List.mem_of_getElem? hbackend
                    · exact List.mem_of_mem_eraseIdx hrest
                  · rintro other connection ⟨-, hmem⟩
                    exact absurd hmem (by simp)
      | unhealthy index =>
          simp only [handlerStep]
          split
          · apply steps_phase
            · intro other hother
              exact List.mem_of_mem_eraseIdx hother
            · exact fun _ _ h => absurd h id
          · exact hstay _
      | aborted => exact hreturn _
      | pulled index status => exact hstay _
      | pulledEmpty => exact hstay _
      | waited index status => exact hstay _
      | connected => exact hstay _
      | connectFailed => exact hstay _
      | responded isClosed => exact hstay _
  | pulling backend proxyToVector waiting =>
      cases answer with
      | pulled index status =>
          simp only [handlerStep]
          cases hentry : (pools.get backend)[index]? with
          | none => exact hstay _
          | some entry =>
              dsimp only
              split
              · next hkey =>
                  apply steps_examine
                  · intro other hother
                    -- the pool without the item has nothing new
                    rcases Pools.has_set _ _ _ _ hother with hmem | hhas
                    · exact Pools.has_of_mem_get (List.mem_of_mem_eraseIdx hmem)
                    · exact hhas
                  · exact fun _ h => h
                  -- the item stood under the key
                  · exact Or.inr (Or.inr ⟨index, status, proxyToVector, waiting, entry, rfl, rfl,
                      List.mem_of_getElem? hentry, hkey, rfl⟩)
              · exact hstay _
      | pulledEmpty =>
          exact steps_giveBack (fun _ h => h) (fun _ _ h => h) fun _ h => ⟨rfl, h⟩
      | waited index status =>
          simp only [handlerStep]
          cases hconnection : waiting[index]? with
          | none => exact hstay _
          | some connection =>
              apply steps_examine
              · exact fun _ h => h
              · exact fun _ h => List.mem_of_mem_eraseIdx h
              · exact Or.inl ⟨rfl, List.mem_of_getElem? hconnection⟩
      | aborted =>
          exact steps_giveBack (fun _ h => absurd h (by simp [Phase.backends])) (fun _ _ h => h)
            fun _ h => ⟨rfl, h⟩
      | selected index => exact hstay _
      | unhealthy index => exact hstay _
      | connected => exact hstay _
      | connectFailed => exact hstay _
      | responded isClosed => exact hstay _
  | connecting backend proxyToVector =>
      cases answer with
      | connected =>
          apply steps_phase
          · intro other hother
            rw [List.mem_singleton.1 hother]
            exact List.mem_cons_self
          -- a connection that has just been opened
          · rintro other connection ⟨rfl, rfl⟩
            exact Or.inr (Or.inl ⟨List.mem_cons_self, rfl⟩)
      | connectFailed =>
          simp only [handlerStep]
          split
          · apply steps_phase
            · exact fun _ h => List.mem_cons_of_mem _ h
            · exact fun _ _ h => absurd h id
          · exact hreturn _
      | aborted => exact hreturn _
      | selected index => exact hstay _
      | unhealthy index => exact hstay _
      | pulled index status => exact hstay _
      | pulledEmpty => exact hstay _
      | waited index status => exact hstay _
      | responded isClosed => exact hstay _
  | sending backend connection keep =>
      cases answer with
      | responded isClosed =>
          simp only [handlerStep]
          split
          · apply steps_giveBack
            · exact fun _ h => absurd h (by simp [Phase.backends])
            · exact fun _ _ h => h
            · intro other hother
              exact ⟨rfl, List.mem_singleton.1 hother⟩
          · exact hreturn _
      | aborted => exact hreturn _
      | selected index => exact hstay _
      | unhealthy index => exact hstay _
      | pulled index status => exact hstay _
      | pulledEmpty => exact hstay _
      | waited index status => exact hstay _
      | connected => exact hstay _
      | connectFailed => exact hstay _
  | returned => cases answer <;> exact hstay _

/-! ## Invariants of runs -/

/-- What can be said of all requests, of the connections in the pools, and of those that the requests
have. -/
structure Spec where
  Asked : ProxyRequest → Prop
  Filed : Entry → Prop
  Given : ProxyRequest → Backend → Connection → Prop

/-- It is true of a server. -/
structure Inv (spec : Spec) (state : State) : Prop where
  asked : ∀ handler ∈ state.handlers, spec.Asked handler.request
  backends : ∀ handler ∈ state.handlers, ∀ backend ∈ handler.phase.backends,
    backend ∈ handler.request.config.proxyTo
  filed : ∀ entry, state.pools.Has entry → spec.Filed entry
  given : ∀ handler ∈ state.handlers, ∀ backend connection,
    handler.phase.Holds backend connection → spec.Given handler.request backend connection
  log : ∀ reuse ∈ state.log, spec.Given reuse.request reuse.backend reuse.connection

/-- What is said fits the settings with which connections are opened and the keys under which they go
into the pools. -/
structure Spec.Lawful (parseUri : Str → Option ProxyRequestUrl) (spec : Spec) : Prop where
  established : ∀ request backend, spec.Asked request → backend ∈ request.config.proxyTo →
    spec.Given request backend (establish parseUri request backend)
  kept : ∀ request backend connection, spec.Asked request → backend ∈ request.config.proxyTo →
    spec.Given request backend connection → spec.Filed ⟨key request backend, connection⟩

/-- An action keeps what is said: it is said of a request that arrives, and of what a pool may hand out
to a request. -/
def Spec.Admits (spec : Spec) (state : State) : Action → Prop
  | .request request => spec.Asked request
  | .answer index (.pulled _ _) =>
      ∀ request backend proxyToVector waiting,
        state.handlers[index]? = some ⟨request, .pulling backend proxyToVector waiting⟩ →
        ∀ entry ∈ state.pools.get backend, entry.key = key request backend →
          spec.Given request backend entry.connection
  | _ => True

theorem inv_init (spec : Spec) : Inv spec init where
  asked _ h := absurd h (by simp [init])
  backends _ h := absurd h (by simp [init])
  filed _ h := absurd h (by simp [init, Pools.Has])
  given _ h := absurd h (by simp [init])
  log _ h := absurd h (by simp [init])

theorem Phase.Holds.mem_backends {phase : Phase} {backend : Backend} {connection : Connection}
    (h : phase.Holds backend connection) : backend ∈ phase.backends := by
  cases phase with
  | selecting proxyToVector => exact absurd h id
  | pulling other proxyToVector waiting =>
      rw [h.1]
      exact List.mem_cons_self
  | connecting other proxyToVector => exact absurd h id
  | sending other sent keep =>
      rw [h.1]
      exact List.mem_cons_self
  | returned => exact absurd h id

/-- What a handler has after a step is as it should be. -/
theorem Inv.given_of_obtains {spec : Spec} (hlawful : spec.Lawful parseUri) {state : State}
    (h : Inv spec state) {index : Nat} {handler : Handler} {answer : Answer}
    (hhandler : state.handlers[index]? = some handler)
    (hadmits : spec.Admits state (.answer index answer)) {backend : Backend}
    {connection : Connection}
    (hobtains : Obtains parseUri state.pools handler answer backend connection) :
    backend ∈ handler.request.config.proxyTo ∧
      spec.Given handler.request backend connection := by
  have hmem : handler ∈ state.handlers := List.mem_of_getElem? hhandler
  rcases hobtains with hholds | ⟨hbackend, rfl⟩ |
    ⟨_, status, proxyToVector, waiting, entry, rfl, hphase, hentry, hkey, rfl⟩
  · exact ⟨h.backends handler hmem backend hholds.mem_backends,
      h.given handler hmem backend connection hholds⟩
  · have hconfigured := h.backends handler hmem backend hbackend
    exact ⟨hconfigured, hlawful.established _ _ (h.asked handler hmem) hconfigured⟩
  · constructor
    · apply h.backends handler hmem
      rw [hphase]
      exact List.mem_cons_self
    · apply hadmits handler.request backend proxyToVector waiting _ entry hentry hkey
      rw [hhandler, ← hphase]

theorem Inv.step {spec : Spec} (hlawful : spec.Lawful parseUri) {state : State} {action : Action}
    (hadmits : spec.Admits state action) (h : Inv spec state) :
    Inv spec (step parseUri state action) := by
  cases action with
  | request request =>
      -- the new handler has no connection, and the pools stay as they are
      refine ⟨?_, ?_, h.filed, ?_, h.log⟩
      · intro handler hhandler
        rcases List.mem_append.1 hhandler with hold | hnew
        · exact h.asked handler hold
        · rw [List.mem_singleton.1 hnew]
          exact hadmits
      · intro handler hhandler
        rcases List.mem_append.1 hhandler with hold | hnew
        · exact h.backends handler hold
        · rw [List.mem_singleton.1 hnew]
          exact fun _ hbackend => hbackend
      · intro handler hhandler
        rcases List.mem_append.1 hhandler with hold | hnew
        · exact h.given handler hold
        · rw [List.mem_singleton.1 hnew]
          exact fun _ _ hholds => absurd hholds id
  | answer index answer =>
      cases hhandler : state.handlers[index]? with
      | none =>
          rw [ReverseProxy.step, hhandler]
          exact h
      | some handler =>
          -- one handler takes a step, the others stay as they are
          have hsteps : Steps parseUri state.pools handler answer
              (handlerStep parseUri state.pools handler answer) := handlerStep_steps _ _ _
          have hmem : handler ∈ state.handlers := List.mem_of_getElem? hhandler
          have hgiven : ∀ {backend connection},
              Obtains parseUri state.pools handler answer backend connection → _ := fun hobtains =>
            h.given_of_obtains hlawful hhandler hadmits hobtains
          rw [ReverseProxy.step, hhandler]
          refine ⟨?_, ?_, ?_, ?_, ?_⟩
          · intro other hother
            rcases List.mem_or_eq_of_mem_set hother with hold | rfl
            · exact h.asked other hold
            · rw [hsteps.request]
              exact h.asked handler hmem
          · intro other hother
            rcases List.mem_or_eq_of_mem_set hother with hold | rfl
            · exact h.backends other hold
            · rw [hsteps.request]
              exact fun backend hbackend => h.backends handler hmem _ (hsteps.backends _ hbackend)
          · intro entry hentry
            rcases hsteps.filed entry hentry with hold | ⟨backend, connection, hobtains, rfl⟩
            · exact h.filed entry hold
            -- what is filed now is a connection that the handler had
            · obtain ⟨hbackend, hconnection⟩ := hgiven hobtains
              exact hlawful.kept _ _ _ (h.asked handler hmem) hbackend hconnection
          · intro other hother
            rcases List.mem_or_eq_of_mem_set hother with hold | rfl
            · exact h.given other hold
            · rw [hsteps.request]
              exact fun _ _ hholds => (hgiven (hsteps.holds _ _ hholds)).2
          · intro reuse hreuse
            rcases List.mem_append.1 hreuse with hold | hnew
            · exact h.log reuse hold
            · obtain ⟨hrequest, hobtains⟩ := hsteps.log reuse hnew
              rw [hrequest]
              exact (hgiven hobtains).2
  | evict isUnix index =>
      -- an eviction takes an item away from one of the pools
      cases isUnix with
      | false =>
          refine ⟨h.asked, h.backends, ?_, h.given, h.log⟩
          rintro entry (hentry | hentry)
          · exact h.filed entry (Or.inl (List.mem_of_mem_eraseIdx hentry))
          · exact h.filed entry (Or.inr hentry)
      | true =>
          refine ⟨h.asked, h.backends, ?_, h.given, h.log⟩
          rintro entry (hentry | hentry)
          · exact h.filed entry (Or.inl hentry)
          · exact h.filed entry (Or.inr (List.mem_of_mem_eraseIdx hentry))

/-! ## What a request gets -/

/-- In every run in which the pools hold nothing else under a key where a request looks for it, every
kept-alive connection that a request gets has been opened for the same backend server with the settings
that its configuration demands. -/
theorem reused_proper (parseUri : Str → Option ProxyRequestUrl) (actions : List Action)
    (hall : AllSteps (step parseUri) (Matching parseUri) init actions) :
    ∀ reuse ∈ (run (step parseUri) init actions).log, Proper parseUri reuse := by
  let spec : Spec :=
    { Asked := fun _ => True
      Filed := fun _ => True
      Given := fun request backend connection => connection = establish parseUri request backend }
  have hlawful : spec.Lawful parseUri := ⟨fun _ _ _ _ => rfl, fun _ _ _ _ _ _ => trivial⟩
  have hadmits : ∀ state action, Matching parseUri state action → spec.Admits state action := by
    intro state action h
    cases action with
    | request request => trivial
    | answer index answer =>
        cases answer with
        | pulled chosen status => exact h
        | _ => trivial
    | evict isUnix index => trivial
  exact (run_invariant (fun state action h => Inv.step hlawful (hadmits state action h))
    (inv_init spec) hall).log

/-- Where the pool holds something else under the key, it may be given to the request. -/
theorem exists_improper_of_not_matching {state : State} {index chosen : Nat}
    {status : ConnectionStatus} (h : ¬Matching parseUri state (.answer index (.pulled chosen status))) :
    ∃ other, ∃ reuse ∈ (step parseUri state (.answer index (.pulled other .ready))).log,
      ¬Proper parseUri reuse := by
  simp only [Matching, not_forall] at h
  obtain ⟨request, backend, proxyToVector, waiting, hhandler, entry, hentry, hkey, hother⟩ := h
  obtain ⟨other, hother'⟩ := List.mem_iff_getElem?.1 hentry
  refine ⟨other, ⟨request, backend, entry.connection⟩, ?_, hother⟩
  rw [step, hhandler]
  dsimp only [handlerStep]
  rw [hother']
  dsimp only
  rw [if_pos hkey]
  exact List.mem_append_right _ List.mem_cons_self

/-- The requests of a run. -/
def requestsOf (actions : List Action) : List ProxyRequest :=
  actions.filterMap fun
    | .request request => some request
    | _ => none

/-- Requests that look for a connection to one backend server under one key demand the same settings. -/
def Agree (parseUri : Str → Option ProxyRequestUrl) (requests : List ProxyRequest) : Prop :=
  ∀ request₁ ∈ requests, ∀ request₂ ∈ requests, ∀ backend ∈ request₁.config.proxyTo,
    backend ∈ request₂.config.proxyTo → proxyClientIp request₁ = proxyClientIp request₂ →
    establish parseUri request₁ backend = establish parseUri request₂ backend

/-- Such requests never find anything else in the pools. -/
theorem matching_of_agree {actions : List Action} (hagree : Agree parseUri (requestsOf actions)) :
    AllSteps (step parseUri) (Matching parseUri) init actions := by
  let spec : Spec :=
    { Asked := fun request => request ∈ requestsOf actions
      Filed := fun entry => ∃ request ∈ requestsOf actions, ∃ backend ∈ request.config.proxyTo,
        entry = ⟨key request backend, establish parseUri request backend⟩
      Given := fun request backend connection => connection = establish parseUri request backend }
  have hlawful : spec.Lawful parseUri := by
    refine ⟨fun _ _ _ _ => rfl, ?_⟩
    rintro request backend connection hasked hbackend rfl
    exact ⟨request, hasked, backend, hbackend, rfl⟩
  have hmatching : ∀ state action, Inv spec state → Matching parseUri state action := by
    intro state action h
    cases action with
    | request request => trivial
    | answer index answer =>
        cases answer with
        | pulled chosen status =>
            intro request backend proxyToVector waiting hhandler entry hentry hkey
            -- the item was opened for a request that agrees with this one
            have hmem := List.mem_of_getElem? hhandler
            obtain ⟨request', hasked', backend', hbackend', rfl⟩ :=
              h.filed entry (Pools.has_of_mem_get hentry)
            rw [key, key, Prod.mk.injEq, Prod.mk.injEq] at hkey
            have hsame : backend' = backend := by
              cases backend
              cases backend'
              rw [Backend.mk.injEq]
              exact ⟨hkey.1, hkey.2.1⟩
            subst hsame
            exact hagree request' hasked' request (h.asked _ hmem) backend' hbackend'
              (h.backends _ hmem backend' List.mem_cons_self) hkey.2.2
        | _ => trivial
    | evict isUnix index => trivial
  have hadmits : ∀ state, ∀ action ∈ actions, Inv spec state → spec.Admits state action := by
    intro state action haction h
    have hmatch := hmatching state action h
    cases action with
    | request request => exact List.mem_filterMap.2 ⟨_, haction, rfl⟩
    | answer index answer =>
        cases answer with
        | pulled chosen status => exact hmatch
        | _ => trivial
    | evict isUnix index => trivial
  exact allSteps_of_invariant (fun state action _ h => hmatching state action h)
    (fun state action haction h => h.step hlawful (hadmits state action haction h))
    (fun _ haction => haction) (inv_init spec)

end Handler

/-! ## Two configurations with one backend server -/

/-- `https://backend`. -/
def backendServer : Backend := ⟨"https://backend".toList, none⟩

/-- What `hyper` makes of it. -/
def backendUrl (_ : Str) : Option ProxyRequestUrl :=
  some ⟨some "https".toList, some "backend".toList⟩

/-- A request of a configuration that verifies certificates or not. -/
def requestWith (disableCertificateVerification : Bool) : ProxyRequest :=
  ⟨⟨[backendServer], false, disableCertificateVerification, true, none, false, false, true⟩,
    .v4 1, false⟩

/-- A request is proxied over a new connection, which is kept, and another one comes after it. -/
def oneAfterTheOther (first second : ProxyRequest) : List Action :=
  [.request first, .answer 0 (.selected 0), .answer 0 .pulledEmpty, .answer 0 .connected,
    .answer 0 (.responded false), .request second, .answer 1 (.selected 0),
    .answer 1 (.pulled 0 .ready)]

/-- With one configuration the second request gets the connection of the first one. -/
theorem reused_proper_verified :
    (run (step backendUrl) init (oneAfterTheOther (requestWith false) (requestWith false))).log =
        [⟨requestWith false, backendServer, ⟨backendServer, some true, false⟩⟩] ∧
      ∀ reuse ∈ (run (step backendUrl) init
          (oneAfterTheOther (requestWith false) (requestWith false))).log,
        Proper backendUrl reuse := by
  refine ⟨rfl, reused_proper backendUrl _ (matching_of_agree ?_)⟩
  intro request₁ hrequest₁ request₂ hrequest₂ backend _ _ _
  have hrequests : ∀ request ∈ requestsOf (oneAfterTheOther (requestWith false) (requestWith false)),
      request = requestWith false := by
    intro request hrequest
    simpa [requestsOf, oneAfterTheOther] using hrequest
  rw [hrequests request₁ hrequest₁, hrequests request₂ hrequest₂]

/-- A request whose configuration verifies certificates gets a connection without verification. -/
theorem reused_unverified :
    (run (step backendUrl) init (oneAfterTheOther (requestWith true) (requestWith false))).log =
        [⟨requestWith false, backendServer, ⟨backendServer, some false, false⟩⟩] ∧
      ¬ ∀ reuse ∈ (run (step backendUrl) init
          (oneAfterTheOther (requestWith true) (requestWith false))).log,
        Proper backendUrl reuse := by
  have hlog : (run (step backendUrl) init
      (oneAfterTheOther (requestWith true) (requestWith false))).log =
      [⟨requestWith false, backendServer, ⟨backendServer, some false, false⟩⟩] := rfl
  refine ⟨hlog, ?_⟩
  intro hproper
  rw [hlog] at hproper
  have hsame : Connection.mk backendServer (some false) false =
      establish backendUrl (requestWith false) backendServer := hproper _ List.mem_cons_self
  exact absurd hsame (by decide)

end Ferron.Modules.ReverseProxy
