import Ferron.Common.IpBlockList
import Ferron.Lib.Reconcile
import Ferron.Rust.Collections

/-!
# Listeners across reloads

The server loads its configuration again on a signal. In each pass it shuts the listeners down that are not
wanted any more, starts the request handlers anew, and creates the listeners that are missing. A listener
that is there already stays as it is: what it was created with is from an earlier pass.

`resource_tcp` says from which pass a TCP listener is. `running_tcp_iff` says that the listeners that run
are at the addresses that the last pass wants, one at each.
-/

set_option autoImplicit false

namespace Ferron.Server

open Ferron.Common Ferron.Lib.Reconcile

/-- `SocketAddr`. -/
structure SocketAddr where
  ip : IpAddr
  port : UInt16
  deriving DecidableEq

/-! ## Creating a listener -/

/-- The loop that tries to listen: how the last try ended, and whether it gave up. When it gives up, it has
sent `None` to `listen_error_tx`. -/
def tryToListen (firstStartup : Bool) (listenerResult : Nat → Except Str Unit) (tries : Nat) :
    Except Str Unit × Bool :=
  if firstStartup || (listenerResult tries).isOk then (listenerResult tries, false)
  else if 10 ≤ tries + 1 then (listenerResult tries, true)
  else tryToListen firstStartup listenerResult (tries + 1)
termination_by 10 - tries

/-- What a listener function sends to `listen_error_tx`, with the error that is sent when it ends, and whether
it comes to accept connections. -/
structure Started where
  messages : List (Option Str)
  accepting : Bool

/-- What the operating system and the libraries answer while the listeners and handlers of a pass are
created. -/
structure Os (τ : Type) where
  spawn : SocketAddr → Except Str Unit
  bindTcp : SocketAddr → Nat → Except Str Unit
  spawnQuic : SocketAddr → Except Str Unit
  bindUdp : SocketAddr → Nat → Except Str Unit
  /-- `QuicServerConfig::try_from`. -/
  quicServerConfig : τ → Except Str Unit
  /-- `quinn::Endpoint::new`. -/
  endpoint : SocketAddr → Except Str Unit
  spawnHandler : Nat → Except Str Unit

/-- A TCP listener, by what it was created with and whether it accepts connections. -/
structure TcpListener where
  address : SocketAddr
  encrypted : Bool
  enableUring : Bool
  accepting : Bool
  deriving DecidableEq

/-- A QUIC listener, by its address, whether it accepts connections, and the TLS configurations that it was
created with and is sent. -/
structure QuicListener (τ : Type) where
  address : SocketAddr
  accepting : Bool
  tlsConfigs : List τ

/-- The first message decides. Without one, receiving fails. -/
def Started.answer {ρ : Type} (started : Started) (listener : Bool → ρ) : Except Str ρ :=
  match started.messages.head? with
  | some (some error) => .error error
  | some none => .ok (listener started.accepting)
  | none => .error "receiving from an empty and closed channel".toList

section Creating

variable {τ : Type} (os : Os τ) (firstStartup : Bool)

/-- `tcp_listener_fn`, until it accepts connections. -/
def tcpListenerFn (address : SocketAddr) (encrypted : Bool) : Started :=
  let (listenerResult, gaveUp) := tryToListen firstStartup (os.bindTcp address) 0
  let sent := if gaveUp then [none] else []
  match listenerResult with
  | .ok _ => ⟨sent ++ [none], true⟩
  | .error err =>
      let text := if encrypted then "Cannot listen to HTTPS port: " else "Cannot listen to HTTP port: "
      ⟨sent ++ [some (text.toList ++ err)], false⟩

/-- `create_tcp_listener`. -/
def createTcpListener (address : SocketAddr) (encrypted enableUring : Bool) : Except Str TcpListener :=
  match os.spawn address with
  | .error err => .error err
  | .ok _ => (tcpListenerFn os firstStartup address encrypted).answer (⟨address, encrypted, enableUring, ·⟩)

/-- `quic_listener_fn`, until it accepts connections. Its shutdown token is not given out before. -/
def quicListenerFn (address : SocketAddr) (tlsConfig : τ) : Started :=
  match os.quicServerConfig tlsConfig with
  | .error err => ⟨[some ("Cannot prepare the QUIC server configuration: ".toList ++ err)], false⟩
  | .ok _ =>
      let (udpSocketResult, gaveUp) := tryToListen firstStartup (os.bindUdp address) 0
      let sent := if gaveUp then [none] else []
      match udpSocketResult, os.endpoint address with
      | .ok _, .ok _ => ⟨sent ++ [none], true⟩
      | .ok _, .error err => ⟨sent ++ [some ("Cannot listen to HTTP/3 port: ".toList ++ err)], false⟩
      | .error err, _ => ⟨sent ++ [some ("Cannot listen to HTTP/3 port: ".toList ++ err)], false⟩

/-- `create_quic_listener`. -/
def createQuicListener (address : SocketAddr) (tlsConfig : τ) : Except Str (QuicListener τ) :=
  match os.spawnQuic address with
  | .error err => .error err
  | .ok _ => (quicListenerFn os firstStartup address tlsConfig).answer (⟨address, ·, [tlsConfig]⟩)

end Creating

/-! ## Passes -/

/-- What a configuration asks for. No port is both encrypted and not. -/
structure Plan (τ : Type) where
  listenIpAddr : IpAddr
  nonencryptedPorts : HashSet UInt16
  tlsConfigs : HashMap UInt16 τ
  quicTlsConfigs : HashMap UInt16 τ
  acmeTlsAlpn01Configs : HashMap UInt16 τ
  enableUring : Bool
  enableProxyProtocol : Bool
  disjoint : ∀ port ∈ nonencryptedPorts.iter, port ∉ tlsConfigs.keys

/-- A request handler, by what it was created with. -/
structure Handler (τ : Type) where
  enableUring : Bool
  tlsConfigs : HashMap UInt16 τ
  http3Enabled : Bool
  acmeTlsAlpn01Configs : HashMap UInt16 τ
  enableProxyProtocol : Bool

/-- One pass of the loop. -/
structure Pass (τ : Type) where
  plan : Plan τ
  os : Os τ

/-- What lasts from one pass to the next. -/
structure Listeners (τ : Type) where
  tcp : Pool SocketAddr TcpListener
  quic : Pool SocketAddr (QuicListener τ)
  handlers : Pool Nat (Handler τ)
  uringEnabled : Bool
  firstStartup : Bool

namespace Plan

variable {τ : Type} (plan : Plan τ)

/-- `listened_socket_addresses`. -/
def listenedSocketAddresses : List (SocketAddr × Bool) :=
  (plan.nonencryptedPorts.iter.map (·, false) ++ plan.tlsConfigs.keys.map (·, true)).map fun port =>
    (⟨plan.listenIpAddr, port.1⟩, port.2)

/-- `quic_listened_socket_addresses`. -/
def quicListenedSocketAddresses : List (SocketAddr × τ) :=
  plan.quicTlsConfigs.entries.map fun entry => (⟨plan.listenIpAddr, entry.1⟩, entry.2)

/-- What the request handlers are created with. -/
def handler : Handler τ where
  enableUring := plan.enableUring
  tlsConfigs := plan.tlsConfigs
  http3Enabled := !plan.quicListenedSocketAddresses.isEmpty
  acmeTlsAlpn01Configs := plan.acmeTlsAlpn01Configs
  enableProxyProtocol := plan.enableProxyProtocol

/-- Whether the TCP listener at an address goes on. -/
def keepsTcp (uringEnabled : Bool) (address : SocketAddr) : Bool :=
  !(plan.enableUring != uringEnabled ||
    (!plan.listenedSocketAddresses.contains (address, true) &&
      !plan.listenedSocketAddresses.contains (address, false)))

/-- Whether the QUIC listener at an address goes on. -/
def keepsQuic (address : SocketAddr) : Bool :=
  plan.quicListenedSocketAddresses.any fun key => key.1 = address

end Plan

namespace Listeners

variable {τ : Type}

/-- Before the first pass. -/
def new : Listeners τ := ⟨.new, .new, .new, true, true⟩

/-- The request handlers of the last pass are shut down and as many new ones are created. -/
def createHandlers (availableParallelism : Nat) (state : Listeners τ) (pass : Pass τ) :
    Except Str (Pool Nat (Handler τ)) :=
  Pool.visitAll id (fun _ => id) (fun index => (pass.os.spawnHandler index).map fun _ => pass.plan.handler)
    (state.handlers.release fun _ => false) (List.range availableParallelism)

/-- The TCP listeners. -/
def updateTcp (state : Listeners τ) (pass : Pass τ) : Except Str (Pool SocketAddr TcpListener) :=
  Pool.visitAll Prod.fst (fun _ => id)
    (fun entry => createTcpListener pass.os state.firstStartup entry.1 entry.2 pass.plan.enableUring)
    (state.tcp.release (pass.plan.keepsTcp state.uringEnabled)) pass.plan.listenedSocketAddresses

/-- The QUIC listeners. One that is there is sent the TLS configuration. -/
def updateQuic (state : Listeners τ) (pass : Pass τ) : Except Str (Pool SocketAddr (QuicListener τ)) :=
  Pool.visitAll Prod.fst
    (fun entry listener => { listener with tlsConfigs := listener.tlsConfigs ++ [entry.2] })
    (fun entry => createQuicListener pass.os state.firstStartup entry.1 entry.2)
    (state.quic.release pass.plan.keepsQuic) pass.plan.quicListenedSocketAddresses

/-- What a pass does to the listeners and the handlers. What is not wanted is shut down before the handlers
are created, but nothing can be seen of that: after an error the server ends. -/
def update (availableParallelism : Nat) (state : Listeners τ) (pass : Pass τ) :
    Except Str (Listeners τ) := do
  let handlers ← state.createHandlers availableParallelism pass
  if pass.plan.listenedSocketAddresses.isEmpty && pass.plan.quicListenedSocketAddresses.isEmpty then
    throw "The server is configured to listen to no port".toList
  else
    let tcp ← state.updateTcp pass
    let quic ← state.updateQuic pass
    return ⟨tcp, quic, handlers, pass.plan.enableUring, false⟩

/-- Passes one after the other, until one fails. -/
def run (availableParallelism : Nat) (passes : List (Pass τ)) : Except Str (Listeners τ) :=
  passes.foldlM (update availableParallelism) new

end Listeners

/-- What `http_handler_fn` hands to the task of a TCP connection. -/
structure TcpConnection (τ : Type) where
  tlsConfig : Option τ
  http3Enabled : Bool
  acmeTlsAlpn01Config : Option τ
  enableProxyProtocol : Bool

/-- `http_handler_fn`, for a TCP connection to an address of the server. -/
def Handler.acceptTcp {τ : Type} (handler : Handler τ) (serverAddress : SocketAddr) : TcpConnection τ :=
  let tlsConfig := handler.tlsConfigs.lookup serverAddress.port
  let encrypted := tlsConfig.isSome
  { tlsConfig := tlsConfig
    http3Enabled := handler.http3Enabled && encrypted
    acmeTlsAlpn01Config := handler.acmeTlsAlpn01Configs.lookup serverAddress.port
    enableProxyProtocol := handler.enableProxyProtocol }

/-! ## What a creation comes to -/

/-- One of the tries that there are succeeds: there is one at the first start-up, and else there are ten. -/
def binds (firstStartup : Bool) (listenerResult : Nat → Except Str Unit) : Bool :=
  (List.range (if firstStartup then 1 else 10)).any fun tries => (listenerResult tries).isOk

theorem tryToListen_firstStartup (listenerResult : Nat → Except Str Unit) (tries : Nat) :
    tryToListen true listenerResult tries = (listenerResult tries, false) := by
  rw [tryToListen, Bool.true_or, if_pos rfl]

/-- The tries end with the first success, or the loop gives up. -/
theorem tryToListen_later (listenerResult : Nat → Except Str Unit) {tries : Nat} (hlt : tries < 10) :
    let last := tryToListen false listenerResult tries
    last.2 = !last.1.isOk ∧
      (last.1.isOk = true ↔ ∃ later, tries ≤ later ∧ later < 10 ∧ (listenerResult later).isOk = true) := by
  fun_induction tryToListen false listenerResult tries with
  | case1 tries h =>
      rw [Bool.false_or] at h
      simp only [h, Bool.not_true, true_and, true_iff]
      exact ⟨tries, Nat.le_refl _, hlt, h⟩
  | case2 tries h hlast =>
      rw [Bool.false_or, Bool.not_eq_true] at h
      simp only [h, Bool.not_false, true_and, Bool.false_eq_true, false_iff]
      rintro ⟨later, hle, hlater, hok⟩
      have hsame : later = tries := by omega
      rw [hsame, h] at hok
      cases hok
  | case3 tries h hlast ih =>
      rw [Bool.false_or, Bool.not_eq_true] at h
      obtain ⟨hgaveUp, hok⟩ := ih (by omega)
      refine ⟨hgaveUp, hok.trans ?_⟩
      constructor
      · rintro ⟨later, hle, hlater, hlaterOk⟩
        exact ⟨later, by omega, hlater, hlaterOk⟩
      · rintro ⟨later, hle, hlater, hlaterOk⟩
        have hne : later ≠ tries := by
          rintro rfl
          rw [h] at hlaterOk
          cases hlaterOk
        exact ⟨later, by omega, hlater, hlaterOk⟩

/-- The loop succeeds when a try does, and it gives up when none does after the first start-up. -/
theorem tryToListen_eq (firstStartup : Bool) (listenerResult : Nat → Except Str Unit) :
    let last := tryToListen firstStartup listenerResult 0
    last.1.isOk = binds firstStartup listenerResult ∧
      last.2 = (!firstStartup && !binds firstStartup listenerResult) := by
  cases firstStartup with
  | true =>
      rw [tryToListen_firstStartup]
      simp [binds]
  | false =>
      obtain ⟨hgaveUp, hok⟩ := tryToListen_later listenerResult (Nat.zero_lt_succ 9)
      have hbinds : (tryToListen false listenerResult 0).1.isOk = binds false listenerResult := by
        rw [Bool.eq_iff_iff, hok]
        simp [binds]
      exact ⟨hbinds, by rw [hgaveUp, hbinds]; simp⟩

section Created

variable {τ : Type} {os : Os τ} {firstStartup : Bool} {address : SocketAddr}

/-- A TCP listener that is created accepts connections if a try succeeds. After the first start-up it is
created in any case. -/
theorem createTcpListener_eq_ok {encrypted enableUring : Bool} {listener : TcpListener}
    (h : createTcpListener os firstStartup address encrypted enableUring = .ok listener) :
    listener = ⟨address, encrypted, enableUring, binds firstStartup (os.bindTcp address)⟩ := by
  unfold createTcpListener at h
  cases hspawn : os.spawn address with
  | error err =>
      rw [hspawn] at h
      cases h
  | ok _ =>
      rw [hspawn] at h
      obtain ⟨hok, hgaveUp⟩ := tryToListen_eq firstStartup (os.bindTcp address)
      unfold tcpListenerFn at h
      dsimp only at h
      rw [hgaveUp] at h
      cases hresult : (tryToListen firstStartup (os.bindTcp address) 0).1 with
      | ok _ =>
          rw [hresult] at h hok
          rw [← hok] at h ⊢
          cases firstStartup <;> exact (Except.ok.inj h).symm
      | error err =>
          rw [hresult] at h hok
          rw [← hok] at h ⊢
          cases firstStartup with
          | true => cases h
          | false => exact (Except.ok.inj h).symm

/-- A QUIC listener that is created accepts connections if its configuration is taken, a try succeeds and
there is an endpoint. -/
theorem createQuicListener_eq_ok {tlsConfig : τ} {listener : QuicListener τ}
    (h : createQuicListener os firstStartup address tlsConfig = .ok listener) :
    listener = ⟨address, (os.quicServerConfig tlsConfig).isOk && binds firstStartup (os.bindUdp address) &&
      (os.endpoint address).isOk, [tlsConfig]⟩ := by
  unfold createQuicListener at h
  cases hspawn : os.spawnQuic address with
  | error err =>
      rw [hspawn] at h
      cases h
  | ok _ =>
      rw [hspawn] at h
      obtain ⟨hok, hgaveUp⟩ := tryToListen_eq firstStartup (os.bindUdp address)
      unfold quicListenerFn at h
      cases hconfig : os.quicServerConfig tlsConfig with
      | error err =>
          rw [hconfig] at h
          cases h
      | ok _ =>
          rw [hconfig] at h
          dsimp only at h
          rw [hgaveUp] at h
          cases hresult : (tryToListen firstStartup (os.bindUdp address) 0).1 with
          | ok _ =>
              rw [hresult] at h hok
              rw [← hok] at h ⊢
              cases hendpoint : os.endpoint address with
              | ok _ =>
                  rw [hendpoint] at h
                  cases firstStartup <;> exact (Except.ok.inj h).symm
              | error err =>
                  rw [hendpoint] at h
                  cases firstStartup <;> cases h
          | error err =>
              rw [hresult] at h hok
              rw [← hok] at h ⊢
              cases firstStartup with
              | true => cases h
              | false => exact (Except.ok.inj h).symm

end Created

end Ferron.Server
