import Ferron.Lib.Failure
import Ferron.Server.Listeners

/-!
# What runs after some reloads

A TCP listener goes on as long as each pass wants its address and none turns `io_uring` on or off. So it is
from the pass that began this row, with the encryption that was asked for then, and it accepts connections
if its tries succeeded then (`resource_tcp`). A QUIC listener has the TLS configurations of all passes from
the one that created it (`resource_quic`).

The listeners that run are at the addresses that the last pass wants, one at each (`running_tcp_iff`). That a
listener is from an earlier pass does not matter for the encryption: the request handlers are all from the
last pass, and they look for the port in its TLS configurations (`acceptTcp_of_running`).
-/

set_option autoImplicit false

namespace Ferron.Server

open Ferron.Common Ferron.Lib Ferron.Lib.Reconcile

variable {τ : Type}

/-! ## What a plan wants -/

namespace Plan

variable (plan : Plan τ)

/-- Whether a TCP listener is wanted at an address, and with which encryption. -/
def wantsTcp (address : SocketAddr) : Option Bool :=
  if address.ip ≠ plan.listenIpAddr then none
  else if address.port ∈ plan.tlsConfigs then some true
  else if address.port ∈ plan.nonencryptedPorts.iter then some false
  else none

/-- The TLS configuration of the QUIC listener that is wanted at an address. -/
def wantsQuic (address : SocketAddr) : Option τ :=
  if address.ip ≠ plan.listenIpAddr then none else plan.quicTlsConfigs.lookup address.port

variable {plan}

theorem mem_listenedSocketAddresses_iff (address : SocketAddr) (encrypted : Bool) :
    (address, encrypted) ∈ plan.listenedSocketAddresses ↔ plan.wantsTcp address = some encrypted := by
  have hmem : (address, encrypted) ∈ plan.listenedSocketAddresses ↔ address.ip = plan.listenIpAddr ∧
      (encrypted = false ∧ address.port ∈ plan.nonencryptedPorts.iter ∨
        encrypted = true ∧ address.port ∈ plan.tlsConfigs) := by
    obtain ⟨ip, port⟩ := address
    simp only [listenedSocketAddresses, List.map_append, List.map_map, List.mem_append, List.mem_map,
      Function.comp_apply, Prod.mk.injEq, SocketAddr.mk.injEq, AList.mem_keys]
    constructor
    · rintro (⟨other, hother, ⟨rfl, rfl⟩, rfl⟩ | ⟨other, hother, ⟨rfl, rfl⟩, rfl⟩)
      · exact ⟨rfl, .inl ⟨rfl, hother⟩⟩
      · exact ⟨rfl, .inr ⟨rfl, hother⟩⟩
    · rintro ⟨rfl, ⟨rfl, hport⟩ | ⟨rfl, hport⟩⟩
      · exact .inl ⟨port, hport, ⟨rfl, rfl⟩, rfl⟩
      · exact .inr ⟨port, hport, ⟨rfl, rfl⟩, rfl⟩
  rw [hmem, wantsTcp]
  by_cases hip : address.ip = plan.listenIpAddr
  · rw [if_neg (not_not_intro hip)]
    by_cases htls : address.port ∈ plan.tlsConfigs
    · have hplain : address.port ∉ plan.nonencryptedPorts.iter :=
        fun hplain => plan.disjoint _ hplain (AList.mem_keys.1 htls)
      rw [if_pos htls, Option.some.injEq]
      simp [hip, htls, hplain, eq_comm]
    · rw [if_neg htls]
      by_cases hplain : address.port ∈ plan.nonencryptedPorts.iter <;> simp [hip, htls, hplain, eq_comm]
  · simp [hip]

theorem nodup_listenedSocketAddresses : (plan.listenedSocketAddresses.map Prod.fst).Nodup := by
  have hports : (plan.nonencryptedPorts.iter ++ plan.tlsConfigs.keys).Nodup := by
    refine List.Nodup.append plan.nonencryptedPorts.nodup plan.tlsConfigs.nodupKeys ?_
    exact fun port hplain htls => plan.disjoint port hplain htls
  have haddresses : plan.listenedSocketAddresses.map Prod.fst =
      (plan.nonencryptedPorts.iter ++ plan.tlsConfigs.keys).map (SocketAddr.mk plan.listenIpAddr) := by
    simp only [listenedSocketAddresses, List.map_append, List.map_map, Function.comp_def]
  rw [haddresses]
  exact hports.map fun port port' heq => (SocketAddr.mk.inj heq).2

theorem keepsTcp_iff (plan : Plan τ) (uringEnabled : Bool) (address : SocketAddr) :
    plan.keepsTcp uringEnabled address = true ↔
      plan.enableUring = uringEnabled ∧ (plan.wantsTcp address).isSome = true := by
  have hwants : (plan.wantsTcp address).isSome = true ↔
      (address, true) ∈ plan.listenedSocketAddresses ∨ (address, false) ∈ plan.listenedSocketAddresses := by
    rw [mem_listenedSocketAddresses_iff, mem_listenedSocketAddresses_iff]
    rcases plan.wantsTcp address with _ | encrypted
    · simp
    · cases encrypted <;> simp
  rw [hwants, keepsTcp]
  simp [or_comm]

theorem mem_quicListenedSocketAddresses_iff (address : SocketAddr) (tlsConfig : τ) :
    (address, tlsConfig) ∈ plan.quicListenedSocketAddresses ↔ plan.wantsQuic address = some tlsConfig := by
  obtain ⟨ip, port⟩ := address
  unfold wantsQuic
  by_cases hip : ip = plan.listenIpAddr
  · rw [if_neg (not_not_intro hip), ← Option.mem_def, AList.mem_lookup_iff]
    simp only [quicListenedSocketAddresses, List.mem_map, Prod.mk.injEq, SocketAddr.mk.injEq]
    constructor
    · rintro ⟨⟨other, config⟩, hentry, ⟨_, rfl⟩, rfl⟩
      exact hentry
    · exact fun hentry => ⟨⟨port, tlsConfig⟩, hentry, ⟨hip.symm, rfl⟩, rfl⟩
  · rw [if_pos hip]
    simp only [quicListenedSocketAddresses, List.mem_map, Prod.mk.injEq, SocketAddr.mk.injEq]
    simp [Ne.symm hip]

theorem nodup_quicListenedSocketAddresses : (plan.quicListenedSocketAddresses.map Prod.fst).Nodup := by
  have haddresses : plan.quicListenedSocketAddresses.map Prod.fst =
      plan.quicTlsConfigs.keys.map (SocketAddr.mk plan.listenIpAddr) := by
    simp only [quicListenedSocketAddresses, List.map_map, Function.comp_def, AList.keys, List.keys]
  rw [haddresses]
  exact plan.quicTlsConfigs.nodupKeys.map fun port port' heq => (SocketAddr.mk.inj heq).2

theorem keepsQuic_iff (plan : Plan τ) (address : SocketAddr) :
    plan.keepsQuic address = true ↔ (plan.wantsQuic address).isSome = true := by
  simp only [keepsQuic, List.any_eq_true, decide_eq_true_eq, Option.isSome_iff_exists,
    ← mem_quicListenedSocketAddresses_iff]
  constructor
  · rintro ⟨⟨other, tlsConfig⟩, hentry, rfl⟩
    exact ⟨tlsConfig, hentry⟩
  · rintro ⟨tlsConfig, hentry⟩
    exact ⟨_, hentry, rfl⟩

end Plan

/-! ## One pass -/

/-- What `io_uring` is set to after some passes. -/
def uringAfter (before : List (Pass τ)) : Bool :=
  (before.getLast?.map fun last => last.plan.enableUring).getD true

/-- What a pass wants of the TCP listeners. -/
def tcpRound (before : List (Pass τ)) (pass : Pass τ) : Round SocketAddr TcpListener := fun address =>
  (pass.plan.wantsTcp address).map fun encrypted =>
    ⟨pass.plan.keepsTcp (uringAfter before) address,
      (createTcpListener pass.os before.isEmpty address encrypted pass.plan.enableUring).toOption⟩

/-- What a pass wants of the QUIC listeners. -/
def quicRound (before : List (Pass τ)) (pass : Pass τ) : Round SocketAddr (QuicListener τ) := fun address =>
  (pass.plan.wantsQuic address).map fun tlsConfig =>
    ⟨pass.plan.keepsQuic address,
      (createQuicListener pass.os before.isEmpty address tlsConfig).toOption⟩

/-- A QUIC listener that goes on is sent the TLS configuration of the pass. -/
def sendTlsConfig (pass : Pass τ) (address : SocketAddr) (listener : QuicListener τ) : QuicListener τ :=
  (pass.plan.wantsQuic address).elim listener fun tlsConfig =>
    { listener with tlsConfigs := listener.tlsConfigs ++ [tlsConfig] }

/-- What the passes leave. -/
structure Reached (passes : List (Pass τ)) (state : Listeners τ) : Prop where
  tcpSound : state.tcp.Sound
  quicSound : state.quic.Sound
  handlersSound : state.handlers.Sound
  tcp : Runs (fun _ _ => id) tcpRound passes state.tcp.resource
  quic : Runs sendTlsConfig quicRound passes state.quic.resource
  uringEnabled : state.uringEnabled = uringAfter passes
  firstStartup : state.firstStartup = passes.isEmpty

theorem reached_new : Reached (τ := τ) [] Listeners.new where
  tcpSound := Pool.sound_new
  quicSound := Pool.sound_new
  handlersSound := Pool.sound_new
  tcp := .nil
  quic := .nil
  uringEnabled := rfl
  firstStartup := rfl

/-- A pass that succeeds has done all of its parts. -/
theorem update_eq_ok {availableParallelism : Nat} {state after : Listeners τ} {pass : Pass τ}
    (h : state.update availableParallelism pass = .ok after) :
    state.createHandlers availableParallelism pass = .ok after.handlers ∧
      state.updateTcp pass = .ok after.tcp ∧ state.updateQuic pass = .ok after.quic ∧
      after.uringEnabled = pass.plan.enableUring ∧ after.firstStartup = false := by
  unfold Listeners.update at h
  obtain ⟨handlers, hhandlers, h⟩ := exists_of_bind_ok h
  split at h
  · cases h
  obtain ⟨tcp, htcp, h⟩ := exists_of_bind_ok h
  obtain ⟨quic, hquic, h⟩ := exists_of_bind_ok h
  cases h
  exact ⟨hhandlers, htcp, hquic, rfl, rfl⟩

/-- A pass is a round of the TCP listeners and one of the QUIC listeners. -/
theorem Reached.update {availableParallelism : Nat} {before : List (Pass τ)} {state after : Listeners τ}
    {pass : Pass τ} (h : Reached before state)
    (hupdate : state.update availableParallelism pass = .ok after) :
    Reached (before ++ [pass]) after := by
  obtain ⟨hhandlers, htcp, hquic, huring, hstartup⟩ := update_eq_ok hupdate
  unfold Listeners.createHandlers at hhandlers
  unfold Listeners.updateTcp at htcp
  unfold Listeners.updateQuic at hquic
  rw [h.uringEnabled] at htcp
  rw [h.firstStartup] at htcp hquic
  obtain ⟨htcpHeld, htcpAnswered⟩ := Pool.resource_round h.tcpSound (tcpRound before pass)
    (fun _ => id) htcp Plan.nodup_listenedSocketAddresses
    (by
      rintro ⟨address, encrypted⟩ hentry
      rw [Plan.mem_listenedSocketAddresses_iff] at hentry
      exact ⟨rfl, by simp only [tcpRound, hentry, Option.map_some]⟩)
    (by
      intro address hnot
      have hnone : pass.plan.wantsTcp address = none := by
        cases hwants : pass.plan.wantsTcp address with
        | none => rfl
        | some encrypted => exact absurd rfl (hnot _ ((Plan.mem_listenedSocketAddresses_iff _ _).2 hwants))
      refine ⟨by rw [tcpRound, hnone, Option.map_none], ?_⟩
      rw [Bool.eq_false_iff, Ne, Plan.keepsTcp_iff, hnone]
      simp)
  obtain ⟨hquicHeld, hquicAnswered⟩ := Pool.resource_round h.quicSound (quicRound before pass)
    (sendTlsConfig pass) hquic Plan.nodup_quicListenedSocketAddresses
    (by
      rintro ⟨address, tlsConfig⟩ hentry
      rw [Plan.mem_quicListenedSocketAddresses_iff] at hentry
      refine ⟨?_, by simp only [quicRound, hentry, Option.map_some]⟩
      funext listener
      simp only [sendTlsConfig, hentry, Option.elim_some])
    (by
      intro address hnot
      have hnone : pass.plan.wantsQuic address = none := by
        cases hwants : pass.plan.wantsQuic address with
        | none => rfl
        | some tlsConfig =>
            exact absurd rfl (hnot _ ((Plan.mem_quicListenedSocketAddresses_iff _ _).2 hwants))
      refine ⟨by rw [quicRound, hnone, Option.map_none], ?_⟩
      rw [Bool.eq_false_iff, Ne, Plan.keepsQuic_iff, hnone]
      simp)
  constructor
  · exact (h.tcpSound.release _).visitAll htcp
  · exact (h.quicSound.release _).visitAll hquic
  · exact (h.handlersSound.release _).visitAll hhandlers
  · rw [htcpHeld] at htcpAnswered ⊢
    exact h.tcp.snoc pass htcpAnswered
  · rw [hquicHeld] at hquicAnswered ⊢
    exact h.quic.snoc pass hquicAnswered
  · simp [uringAfter, huring]
  · simp [hstartup]

/-- What passes that all succeed leave. -/
theorem reached_of_run {availableParallelism : Nat} {passes : List (Pass τ)} {state : Listeners τ}
    (h : Listeners.run availableParallelism passes = .ok state) : Reached passes state :=
  foldlM_ok_invariant (fun _ _ _ _ hbefore hupdate => hbefore.update hupdate) reached_new h

/-! ## Passes that succeed -/

/-- Everything that may fail succeeds. -/
structure Os.Ready (os : Os τ) : Prop where
  spawn : ∀ address, (os.spawn address).isOk = true
  bindTcp : ∀ address tries, (os.bindTcp address tries).isOk = true
  spawnQuic : ∀ address, (os.spawnQuic address).isOk = true
  bindUdp : ∀ address tries, (os.bindUdp address tries).isOk = true
  quicServerConfig : ∀ tlsConfig, (os.quicServerConfig tlsConfig).isOk = true
  endpoint : ∀ address, (os.endpoint address).isOk = true
  spawnHandler : ∀ index, (os.spawnHandler index).isOk = true

theorem exists_of_isOk {ε α : Type} {x : Except ε α} (h : x.isOk = true) : ∃ a, x = .ok a := by
  cases x with
  | error err => cases h
  | ok a => exact ⟨a, rfl⟩

theorem tryToListen_of_isOk {firstStartup : Bool} {listenerResult : Nat → Except Str Unit} {tries : Nat}
    (h : (listenerResult tries).isOk = true) :
    tryToListen firstStartup listenerResult tries = (listenerResult tries, false) := by
  rw [tryToListen, h, Bool.or_true, if_pos rfl]

/-- A listener can be created when everything succeeds. -/
theorem Os.Ready.exists_createTcpListener {os : Os τ} (h : os.Ready) (firstStartup : Bool)
    (address : SocketAddr) (encrypted enableUring : Bool) :
    ∃ listener, createTcpListener os firstStartup address encrypted enableUring = .ok listener := by
  obtain ⟨_, hspawn⟩ := exists_of_isOk (h.spawn address)
  obtain ⟨_, hbind⟩ := exists_of_isOk (h.bindTcp address 0)
  refine ⟨⟨address, encrypted, enableUring, true⟩, ?_⟩
  rw [createTcpListener, hspawn, tcpListenerFn, tryToListen_of_isOk (h.bindTcp address 0), hbind]
  rfl

theorem Os.Ready.exists_createQuicListener {os : Os τ} (h : os.Ready) (firstStartup : Bool)
    (address : SocketAddr) (tlsConfig : τ) :
    ∃ listener, createQuicListener os firstStartup address tlsConfig = .ok listener := by
  obtain ⟨_, hspawn⟩ := exists_of_isOk (h.spawnQuic address)
  obtain ⟨_, hconfig⟩ := exists_of_isOk (h.quicServerConfig tlsConfig)
  obtain ⟨_, hbind⟩ := exists_of_isOk (h.bindUdp address 0)
  obtain ⟨_, hendpoint⟩ := exists_of_isOk (h.endpoint address)
  refine ⟨⟨address, true, [tlsConfig]⟩, ?_⟩
  rw [createQuicListener, hspawn, quicListenerFn, hconfig, tryToListen_of_isOk (h.bindUdp address 0), hbind,
    hendpoint]
  rfl

/-- A pass succeeds when everything does and the configuration asks for a port. -/
theorem exists_update_ok (availableParallelism : Nat) (state : Listeners τ) {pass : Pass τ}
    (h : pass.os.Ready) (hlistened : pass.plan.listenedSocketAddresses ≠ []) :
    ∃ after, state.update availableParallelism pass = .ok after := by
  have hhandlers : ∃ handlers, state.createHandlers availableParallelism pass = .ok handlers := by
    refine Pool.exists_visitAll_ok _ fun index _ => ?_
    obtain ⟨_, hspawn⟩ := exists_of_isOk (h.spawnHandler index)
    exact ⟨pass.plan.handler, by rw [hspawn]; rfl⟩
  have htcp : ∃ tcp, state.updateTcp pass = .ok tcp :=
    Pool.exists_visitAll_ok _ fun entry _ => h.exists_createTcpListener _ _ _ _
  have hquic : ∃ quic, state.updateQuic pass = .ok quic :=
    Pool.exists_visitAll_ok _ fun entry _ => h.exists_createQuicListener _ _ _
  obtain ⟨handlers, hhandlers⟩ := hhandlers
  obtain ⟨tcp, htcp⟩ := htcp
  obtain ⟨quic, hquic⟩ := hquic
  refine ⟨⟨tcp, quic, handlers, pass.plan.enableUring, false⟩, ?_⟩
  have hempty : (pass.plan.listenedSocketAddresses.isEmpty &&
      pass.plan.quicListenedSocketAddresses.isEmpty) = false := by simp [hlistened]
  simp only [Listeners.update, hhandlers, htcp, hquic, hempty]
  rfl

/-- Passes succeed when everything does and each configuration asks for a port. -/
theorem exists_run_ok (availableParallelism : Nat) {passes : List (Pass τ)}
    (h : ∀ pass ∈ passes, pass.os.Ready ∧ pass.plan.listenedSocketAddresses ≠ []) :
    ∃ state, Listeners.run availableParallelism passes = .ok state := by
  unfold Listeners.run
  generalize Listeners.new = state
  induction passes generalizing state with
  | nil => exact ⟨state, rfl⟩
  | cons pass passes ih =>
      obtain ⟨hready, hlistened⟩ := h pass List.mem_cons_self
      obtain ⟨next, hnext⟩ := exists_update_ok availableParallelism state hready hlistened
      obtain ⟨after, hafter⟩ := ih (fun other hother => h other (List.mem_cons_of_mem _ hother)) next
      refine ⟨after, ?_⟩
      rw [List.foldlM_cons, hnext]
      exact hafter

/-- An operating system on which everything succeeds. -/
def readyOs : Os τ :=
  ⟨fun _ => .ok (), fun _ _ => .ok (), fun _ => .ok (), fun _ _ => .ok (), fun _ => .ok (), fun _ => .ok (),
    fun _ => .ok ()⟩

theorem readyOs_ready : (readyOs : Os τ).Ready := by constructor <;> exact fun _ => (by intros; rfl)

/-- A pass that listens on port 80 without encryption. -/
def plainPass : Pass Nat where
  plan := ⟨.v4 0, ⟨[80], List.nodup_singleton 80⟩, ∅, ∅, ∅, true, false, by simp⟩
  os := readyOs

/-- A pass that listens on port 80 with encryption and over QUIC, with a TLS configuration. -/
def encryptedPass (tlsConfig : Nat) : Pass Nat where
  plan := ⟨.v4 0, .new, AList.singleton 80 tlsConfig, AList.singleton 80 tlsConfig, ∅, true, false,
    by simp [HashSet.new]⟩
  os := readyOs

/-- Port 80. -/
def port80 : SocketAddr := ⟨.v4 0, 80⟩

theorem exists_run_plainPass (tlsConfigs : List Nat) :
    ∃ state, Listeners.run 1 (plainPass :: tlsConfigs.map encryptedPass) = .ok state := by
  refine exists_run_ok 1 fun pass hpass => ?_
  rcases List.mem_cons.1 hpass with rfl | hpass
  · exact ⟨readyOs_ready, by decide⟩
  · obtain ⟨tlsConfig, _, rfl⟩ := List.mem_map.1 hpass
    exact ⟨readyOs_ready, List.cons_ne_nil _ _⟩

/-! ## From which pass a listener is -/

section Origin

variable {availableParallelism : Nat} {passes : List (Pass τ)} {state : Listeners τ}

theorem wantsLast_tcp_iff (passes : List (Pass τ)) (address : SocketAddr) :
    WantsLast tcpRound passes address ↔
      ∃ last ∈ passes.getLast?, (last.plan.wantsTcp address).isSome = true :=
  wantsLast_iff (fun _ _ => by simp [tcpRound]) passes

theorem wantsLast_quic_iff (passes : List (Pass τ)) (address : SocketAddr) :
    WantsLast quicRound passes address ↔
      ∃ last ∈ passes.getLast?, (last.plan.wantsQuic address).isSome = true :=
  wantsLast_iff (fun _ _ => by simp [quicRound]) passes

theorem uringAfter_concat (before : List (Pass τ)) (last : Pass τ) :
    uringAfter (before ++ [last]) = last.plan.enableUring := by
  simp [uringAfter]

/-- In a row of passes that leave `io_uring` as it is. -/
theorem uringAfter_row (before : List (Pass τ)) (first : Pass τ) {between : List (Pass τ)}
    (h : ∀ other ∈ between, other.plan.enableUring = first.plan.enableUring) :
    uringAfter (before ++ first :: between) = first.plan.enableUring := by
  cases between using List.reverseRecOn with
  | nil => exact uringAfter_concat before first
  | append_singleton between other =>
      have hsplit : before ++ first :: (between ++ [other]) = (before ++ first :: between) ++ [other] := by
        simp
      rw [hsplit, uringAfter_concat]
      exact h other (by simp)

/-- Passes keep a TCP listener when they want its address and leave `io_uring` as it is. -/
theorem keeps_tcp_iff (before : List (Pass τ)) (first : Pass τ) (after : List (Pass τ))
    (address : SocketAddr) :
    (∀ between later rest, after = between ++ later :: rest →
        Keeps tcpRound (before ++ first :: between) later address) ↔
      ∀ later ∈ after, (later.plan.wantsTcp address).isSome = true ∧
        later.plan.enableUring = first.plan.enableUring := by
  have hone : ∀ between later, Keeps tcpRound (before ++ first :: between) later address ↔
      (later.plan.wantsTcp address).isSome = true ∧
        later.plan.enableUring = uringAfter (before ++ first :: between) := by
    intro between later
    have hkeeps := later.plan.keepsTcp_iff (uringAfter (before ++ first :: between)) address
    unfold Keeps tcpRound
    cases hwants : later.plan.wantsTcp address with
    | none => simp
    | some encrypted =>
        rw [hwants] at hkeeps
        simp [hkeeps]
  constructor
  · intro hkeeps
    induction after using List.reverseRecOn with
    | nil => exact List.forall_mem_nil _
    | append_singleton after last ih =>
        have hafter := ih fun between later rest heq =>
          hkeeps between later (rest ++ [last]) (by rw [heq]; simp)
        obtain ⟨hwants, huring⟩ := (hone after last).1 (hkeeps after last [] rfl)
        rw [uringAfter_row before first fun other hother => (hafter other hother).2] at huring
        intro later hlater
        rcases List.mem_append.1 hlater with hlater | hlater
        · exact hafter later hlater
        · rw [List.mem_singleton.1 hlater]
          exact ⟨hwants, huring⟩
  · rintro hall between later rest rfl
    rw [hone, uringAfter_row before first fun other hother => (hall other (by simp [hother])).2]
    exact hall later (by simp)

theorem eq_ok_of_toOption {ε α : Type} {result : Except ε α} {value : α}
    (h : result.toOption = some value) : result = .ok value := by
  cases result with
  | error err => cases h
  | ok other => rw [Option.some.inj h]

/-- What a pass creates as a TCP listener. -/
theorem creates_tcp_iff {before after : List (Pass τ)} {first : Pass τ}
    {held : SocketAddr → Option TcpListener}
    (h : Runs (fun _ _ => id) tcpRound (before ++ first :: after) held) (address : SocketAddr)
    (listener : TcpListener) :
    Creates tcpRound before first address listener ↔
      ∃ encrypted, first.plan.wantsTcp address = some encrypted ∧
        (first.plan.enableUring = uringAfter before →
          ∀ last ∈ before.getLast?, last.plan.wantsTcp address = none) ∧
        listener = ⟨address, encrypted, first.plan.enableUring,
          binds before.isEmpty (first.os.bindTcp address)⟩ := by
  cases hwants : first.plan.wantsTcp address with
  | none => simp [Creates, tcpRound, hwants]
  | some encrypted =>
      have hround : tcpRound before first address = some ⟨first.plan.keepsTcp (uringAfter before) address,
          (createTcpListener first.os before.isEmpty address encrypted
            first.plan.enableUring).toOption⟩ := by
        rw [tcpRound, hwants, Option.map_some]
      have habsent : (first.plan.keepsTcp (uringAfter before) address = false ∨
            ¬WantsLast tcpRound before address) ↔
          (first.plan.enableUring = uringAfter before →
            ∀ last ∈ before.getLast?, last.plan.wantsTcp address = none) := by
        have hkeeps := first.plan.keepsTcp_iff (uringAfter before) address
        rw [hwants, Option.isSome_some, and_iff_left rfl] at hkeeps
        rw [← Bool.not_eq_true, hkeeps, wantsLast_tcp_iff, imp_iff_not_or]
        simp
      have hcreated : ∀ created, (createTcpListener first.os before.isEmpty address encrypted
          first.plan.enableUring).toOption = some created → created = ⟨address, encrypted,
            first.plan.enableUring, binds before.isEmpty (first.os.bindTcp address)⟩ :=
        fun _ hcreated => createTcpListener_eq_ok (eq_ok_of_toOption hcreated)
      simp only [Option.some.injEq, exists_eq_left', ← habsent]
      constructor
      · rintro ⟨request, hrequest, hfresh, hrequestAbsent⟩
        rw [hround] at hrequest
        cases hrequest
        exact ⟨hrequestAbsent, hcreated listener hfresh⟩
      · rintro ⟨hrequestAbsent, rfl⟩
        have hsome := h.fresh_isSome hround hrequestAbsent
        obtain ⟨created, hfresh⟩ := Option.isSome_iff_exists.1 hsome
        refine ⟨_, hround, ?_, hrequestAbsent⟩
        rw [hfresh, hcreated created hfresh]

/-- A TCP listener that is held for an address was created for it. -/
theorem address_of_resource_tcp (h : Listeners.run availableParallelism passes = .ok state)
    {address : SocketAddr} {listener : TcpListener} (hlistener : state.tcp.resource address = some listener) :
    listener.address = address := by
  have hruns := (reached_of_run h).tcp
  obtain ⟨before, first, after, created, rfl, hcreates, _, rfl⟩ := (hruns.eq_some_iff _ _).1 hlistener
  obtain ⟨encrypted, _, _, rfl⟩ := (creates_tcp_iff hruns address created).1 hcreates
  rw [show after.foldl (fun resource _ => id resource) _ = _ from List.foldl_fixed after]

/-- A TCP listener is from the pass that began the last row of passes that want its address and leave
`io_uring` as it is. It is encrypted as that pass wants it, and it accepts connections if one of its tries
succeeded in that pass. -/
theorem resource_tcp (h : Listeners.run availableParallelism passes = .ok state) (address : SocketAddr)
    (listener : TcpListener) :
    state.tcp.resource address = some listener ↔
      ∃ before first after encrypted, passes = before ++ first :: after ∧
        first.plan.wantsTcp address = some encrypted ∧
        (first.plan.enableUring = uringAfter before →
          ∀ last ∈ before.getLast?, last.plan.wantsTcp address = none) ∧
        (∀ later ∈ after, (later.plan.wantsTcp address).isSome = true ∧
          later.plan.enableUring = first.plan.enableUring) ∧
        listener = ⟨address, encrypted, first.plan.enableUring,
          binds before.isEmpty (first.os.bindTcp address)⟩ := by
  have hruns := (reached_of_run h).tcp
  rw [hruns.eq_some_iff]
  constructor
  · rintro ⟨before, first, after, created, rfl, hcreates, hkeeps, rfl⟩
    obtain ⟨encrypted, hwants, habsent, rfl⟩ := (creates_tcp_iff hruns address created).1 hcreates
    exact ⟨before, first, after, encrypted, rfl, hwants, habsent, (keeps_tcp_iff _ _ _ _).1 hkeeps,
      List.foldl_fixed _⟩
  · rintro ⟨before, first, after, encrypted, rfl, hwants, habsent, hafter, rfl⟩
    exact ⟨before, first, after, _, rfl,
      (creates_tcp_iff hruns address _).2 ⟨encrypted, hwants, habsent, rfl⟩,
      (keeps_tcp_iff _ _ _ _).2 hafter, List.foldl_fixed _⟩

/-- The port gets encrypted, and the listener stays what it was created as. -/
theorem encryptedPass_resource_tcp : ∃ state, Listeners.run 1 [plainPass, encryptedPass 1] = .ok state ∧
    state.tcp.resource port80 = some ⟨port80, false, true, true⟩ := by
  obtain ⟨state, hrun⟩ := exists_run_plainPass [1]
  refine ⟨state, hrun, (resource_tcp hrun port80 _).2 ⟨[], plainPass, [encryptedPass 1], false, rfl, by decide,
    by simp, ?_, rfl⟩⟩
  rintro later hlater
  rw [List.mem_singleton.1 hlater]
  decide

/-- Passes keep a QUIC listener when they want its address. -/
theorem keeps_quic_iff (before : List (Pass τ)) (later : Pass τ) (address : SocketAddr) :
    Keeps quicRound before later address ↔ (later.plan.wantsQuic address).isSome = true := by
  have hkeeps := later.plan.keepsQuic_iff address
  unfold Keeps quicRound
  cases hwants : later.plan.wantsQuic address with
  | none => simp
  | some tlsConfig =>
      rw [hwants] at hkeeps
      simp [hkeeps]

/-- What a pass creates as a QUIC listener. -/
theorem creates_quic_iff {before after : List (Pass τ)} {first : Pass τ}
    {held : SocketAddr → Option (QuicListener τ)}
    (h : Runs sendTlsConfig quicRound (before ++ first :: after) held) (address : SocketAddr)
    (listener : QuicListener τ) :
    Creates quicRound before first address listener ↔
      ∃ tlsConfig, first.plan.wantsQuic address = some tlsConfig ∧
        (∀ last ∈ before.getLast?, last.plan.wantsQuic address = none) ∧
        listener = ⟨address, (first.os.quicServerConfig tlsConfig).isOk &&
          binds before.isEmpty (first.os.bindUdp address) && (first.os.endpoint address).isOk,
          [tlsConfig]⟩ := by
  cases hwants : first.plan.wantsQuic address with
  | none => simp [Creates, quicRound, hwants]
  | some tlsConfig =>
      have hkeeps : first.plan.keepsQuic address = true := by
        rw [Plan.keepsQuic_iff, hwants]
        rfl
      have hround : quicRound before first address = some ⟨first.plan.keepsQuic address,
          (createQuicListener first.os before.isEmpty address tlsConfig).toOption⟩ := by
        rw [quicRound, hwants, Option.map_some]
      have habsent : (first.plan.keepsQuic address = false ∨ ¬WantsLast quicRound before address) ↔
          ∀ last ∈ before.getLast?, last.plan.wantsQuic address = none := by
        rw [hkeeps, wantsLast_quic_iff]
        simp
      have hcreated : ∀ created, (createQuicListener first.os before.isEmpty address tlsConfig).toOption =
          some created → created = ⟨address, (first.os.quicServerConfig tlsConfig).isOk &&
            binds before.isEmpty (first.os.bindUdp address) && (first.os.endpoint address).isOk,
            [tlsConfig]⟩ := fun _ hcreated => createQuicListener_eq_ok (eq_ok_of_toOption hcreated)
      simp only [Option.some.injEq, exists_eq_left', ← habsent]
      constructor
      · rintro ⟨request, hrequest, hfresh, hrequestAbsent⟩
        rw [hround] at hrequest
        cases hrequest
        exact ⟨hrequestAbsent, hcreated listener hfresh⟩
      · rintro ⟨hrequestAbsent, rfl⟩
        obtain ⟨created, hfresh⟩ := Option.isSome_iff_exists.1 (h.fresh_isSome hround hrequestAbsent)
        refine ⟨_, hround, ?_, hrequestAbsent⟩
        rw [hfresh, hcreated created hfresh]

/-- A QUIC listener that goes on gets the TLS configurations of the passes. -/
theorem foldl_sendTlsConfig (after : List (Pass τ)) (address : SocketAddr) (listener : QuicListener τ) :
    after.foldl (fun listener pass => sendTlsConfig pass address listener) listener =
      { listener with
        tlsConfigs := listener.tlsConfigs ++ after.filterMap fun pass => pass.plan.wantsQuic address } := by
  induction after generalizing listener with
  | nil => simp
  | cons pass after ih =>
      rw [List.foldl_cons, ih, sendTlsConfig]
      cases hwants : pass.plan.wantsQuic address <;> simp [hwants]

theorem foldl_sendTlsConfig_of_created {first : Pass τ} {address : SocketAddr} {tlsConfig : τ}
    (hwants : first.plan.wantsQuic address = some tlsConfig) (after : List (Pass τ)) (accepting : Bool) :
    after.foldl (fun listener pass => sendTlsConfig pass address listener)
        ⟨address, accepting, [tlsConfig]⟩ =
      ⟨address, accepting, (first :: after).filterMap fun pass => pass.plan.wantsQuic address⟩ := by
  rw [foldl_sendTlsConfig]
  simp [hwants]

/-- A QUIC listener is from the pass that began the last row of passes that want its address. The TLS
configurations of all passes of the row have been sent to it, in their order. A listener that gave up has
closed its channel and receives none of them. -/
theorem resource_quic (h : Listeners.run availableParallelism passes = .ok state) (address : SocketAddr)
    (listener : QuicListener τ) :
    state.quic.resource address = some listener ↔
      ∃ before first after tlsConfig, passes = before ++ first :: after ∧
        first.plan.wantsQuic address = some tlsConfig ∧
        (∀ last ∈ before.getLast?, last.plan.wantsQuic address = none) ∧
        (∀ later ∈ after, (later.plan.wantsQuic address).isSome = true) ∧
        listener = ⟨address, (first.os.quicServerConfig tlsConfig).isOk &&
          binds before.isEmpty (first.os.bindUdp address) && (first.os.endpoint address).isOk,
          (first :: after).filterMap fun pass => pass.plan.wantsQuic address⟩ := by
  have hruns := (reached_of_run h).quic
  rw [hruns.eq_some_iff]
  constructor
  · rintro ⟨before, first, after, created, rfl, hcreates, hkeeps, rfl⟩
    obtain ⟨tlsConfig, hwants, habsent, rfl⟩ := (creates_quic_iff hruns address created).1 hcreates
    refine ⟨before, first, after, tlsConfig, rfl, hwants, habsent, ?_, ?_⟩
    · intro later hlater
      obtain ⟨between, rest, rfl⟩ := List.append_of_mem hlater
      exact (keeps_quic_iff _ _ _).1 (hkeeps between later rest rfl)
    · exact foldl_sendTlsConfig_of_created hwants after _
  · rintro ⟨before, first, after, tlsConfig, rfl, hwants, habsent, hafter, rfl⟩
    refine ⟨before, first, after, _, rfl,
      (creates_quic_iff hruns address _).2 ⟨tlsConfig, hwants, habsent, rfl⟩, ?_, ?_⟩
    · rintro between later rest rfl
      exact (keeps_quic_iff _ _ _).2 (hafter later (by simp))
    · exact foldl_sendTlsConfig_of_created hwants after _

/-- The listener that the second pass creates is sent the TLS configuration of the third one. -/
theorem encryptedPass_resource_quic :
    ∃ state, Listeners.run 1 [plainPass, encryptedPass 1, encryptedPass 2] = .ok state ∧
      state.quic.resource port80 = some ⟨port80, true, [1, 2]⟩ := by
  obtain ⟨state, hrun⟩ := exists_run_plainPass [1, 2]
  refine ⟨state, hrun, (resource_quic hrun port80 _).2 ⟨[plainPass], encryptedPass 1, [encryptedPass 2], 1,
    rfl, by decide, by decide, ?_, rfl⟩⟩
  rintro later hlater
  rw [List.mem_singleton.1 hlater]
  decide

end Origin

/-! ## What runs -/

section Running

variable {availableParallelism : Nat} {passes : List (Pass τ)} {last : Pass τ} {state : Listeners τ}

/-- A token of a TCP listener at an address that is not shut down. -/
def Listeners.RunsAt (state : Listeners τ) (address : SocketAddr) (token : Nat) : Prop :=
  state.tcp.Running token ∧ ∃ listener ∈ state.tcp.created[token]?, listener.address = address

/-- A listener that is held under an address is one for this address. -/
theorem runsAt_iff (h : Listeners.run availableParallelism passes = .ok state) (address : SocketAddr)
    (token : Nat) : state.RunsAt address token ↔ token ∈ state.tcp.held.lookup address := by
  have hsound := (reached_of_run h).tcpSound
  have haddress : ∀ key, token ∈ state.tcp.held.lookup key →
      ∃ listener ∈ state.tcp.created[token]?, listener.address = key := by
    intro key htoken
    have hlt := hsound.lt key token htoken
    refine ⟨state.tcp.created[token], List.getElem?_eq_getElem hlt, ?_⟩
    have hresource : state.tcp.resource key = some state.tcp.created[token] := by
      rw [Pool.resource, htoken, Option.bind_some, List.getElem?_eq_getElem hlt]
    exact address_of_resource_tcp h hresource
  unfold Listeners.RunsAt
  rw [hsound.running_iff]
  constructor
  · rintro ⟨⟨key, htoken⟩, listener, hlistener, rfl⟩
    obtain ⟨other, hother, rfl⟩ := haddress key htoken
    rw [Option.mem_def] at hlistener hother
    rw [hlistener, Option.some.injEq] at hother
    rwa [hother]
  · exact fun htoken => ⟨⟨address, htoken⟩, haddress address htoken⟩

/-- A TCP listener runs at each address that the last pass wants. -/
theorem exists_runsAt_iff (h : Listeners.run availableParallelism (passes ++ [last]) = .ok state)
    (address : SocketAddr) :
    (∃ token, state.RunsAt address token) ↔ (last.plan.wantsTcp address).isSome = true := by
  have hreached := reached_of_run h
  have hwants : WantsLast tcpRound (passes ++ [last]) address ↔
      (last.plan.wantsTcp address).isSome = true := by
    rw [wantsLast_append_iff]
    simp [tcpRound]
  simp only [runsAt_iff h]
  rw [← hwants, ← hreached.tcp.isSome_iff, hreached.tcpSound.resource_isSome_iff]
  exact Option.isSome_iff_exists.symm

/-- The request handlers of a pass are as many as there should be, and all that run are from the pass. -/
theorem resource_handlers (h : Listeners.run availableParallelism (passes ++ [last]) = .ok state)
    (index : Nat) : state.handlers.resource index =
      if index < availableParallelism then some last.plan.handler else none := by
  obtain ⟨before, hbefore, hlast⟩ := foldlM_concat_ok h
  have hsound := (reached_of_run hbefore).handlersSound.release fun _ => false
  have hhandlers := (update_eq_ok hlast).1
  unfold Listeners.createHandlers at hhandlers
  by_cases hindex : index < availableParallelism
  · rw [if_pos hindex]
    have hmem : index ∈ List.range availableParallelism := List.mem_range.2 hindex
    rcases Pool.resource_visitAll hsound hhandlers (by simpa using List.nodup_range) hmem with
      ⟨old, hold, _⟩ | ⟨_, handler, hcreate, hafter⟩
    · rw [Pool.resource_release, if_neg Bool.false_ne_true] at hold
      cases hold
    · rw [id] at hafter
      rw [hafter]
      cases hspawn : last.os.spawnHandler index with
      | error err =>
          rw [hspawn] at hcreate
          cases hcreate
      | ok _ =>
          rw [hspawn] at hcreate
          cases hcreate
          rfl
  · rw [if_neg hindex, Pool.resource_visitAll_of_notMem hsound hhandlers, Pool.resource_release,
      if_neg Bool.false_ne_true]
    intro other hother heq
    exact hindex (heq ▸ List.mem_range.1 hother)

theorem handler_of_running (h : Listeners.run availableParallelism (passes ++ [last]) = .ok state)
    {token : Nat} (hrunning : state.handlers.Running token) :
    state.handlers.created[token]? = some last.plan.handler := by
  obtain ⟨index, hindex⟩ := ((reached_of_run h).handlersSound.running_iff token).1 hrunning
  have hresource := resource_handlers h index
  rw [Pool.resource, hindex, Option.bind_some, List.getElem?_eq_getElem hrunning.1] at hresource
  rw [List.getElem?_eq_getElem hrunning.1]
  split at hresource
  · exact hresource
  · cases hresource

/-- The TCP listeners that run are at the addresses that the last pass wants, one at each. The request
handlers that run are all from the last pass. -/
theorem running_tcp_iff (h : Listeners.run availableParallelism (passes ++ [last]) = .ok state) :
    (∀ address, (∃! token, state.RunsAt address token) ↔ (last.plan.wantsTcp address).isSome = true) ∧
      (∀ address token, state.RunsAt address token → (last.plan.wantsTcp address).isSome = true) ∧
      ∀ token, state.handlers.Running token → state.handlers.created[token]? = some last.plan.handler := by
  refine ⟨fun address => ?_, fun address token htoken => ?_, fun token => handler_of_running h⟩
  · rw [← exists_runsAt_iff h]
    constructor
    · exact fun hunique => hunique.exists
    · rintro ⟨token, htoken⟩
      refine ⟨token, htoken, fun other hother => ?_⟩
      rw [runsAt_iff h] at htoken hother
      exact Option.some.inj (hother.symm.trans htoken)
  · exact (exists_runsAt_iff h address).1 ⟨token, htoken⟩

theorem encryptedPass_running_tcp : ∃ state,
    Listeners.run 1 [plainPass, encryptedPass 1] = .ok state ∧ ∃! token, state.RunsAt port80 token := by
  obtain ⟨state, hrun⟩ := exists_run_plainPass [1]
  have hrun' : Listeners.run 1 ([plainPass] ++ [encryptedPass 1]) = .ok state := hrun
  exact ⟨state, hrun, ((running_tcp_iff hrun').1 port80).2 (by decide)⟩

/-- A connection to the port of a running listener is encrypted when the last pass wants that at the
listener's address, whatever the listener was created with and whichever running handler takes it. It gets
the TLS configuration of the last pass. A handler that has been cancelled takes no connection. -/
theorem acceptTcp_of_running (h : Listeners.run availableParallelism (passes ++ [last]) = .ok state)
    {address : SocketAddr} {token : Nat} (hlistener : state.RunsAt address token) {handlerToken : Nat}
    {handler : Handler τ} (hrunning : state.handlers.Running handlerToken)
    (hhandler : state.handlers.created[handlerToken]? = some handler) (serverAddress : SocketAddr)
    (hport : serverAddress.port = address.port) :
    (handler.acceptTcp serverAddress).tlsConfig = last.plan.tlsConfigs.lookup address.port ∧
      last.plan.wantsTcp address = some (handler.acceptTcp serverAddress).tlsConfig.isSome := by
  rw [handler_of_running h hrunning, Option.some.injEq] at hhandler
  subst hhandler
  have hconfig : (last.plan.handler.acceptTcp serverAddress).tlsConfig =
      last.plan.tlsConfigs.lookup address.port := by
    rw [← hport]
    rfl
  refine ⟨hconfig, ?_⟩
  rw [hconfig]
  have hwants := (exists_runsAt_iff h address).1 ⟨token, hlistener⟩
  unfold Plan.wantsTcp at hwants ⊢
  by_cases hip : address.ip = last.plan.listenIpAddr
  · rw [if_neg (not_not_intro hip)] at hwants ⊢
    by_cases htls : address.port ∈ last.plan.tlsConfigs
    · rw [if_pos htls, AList.lookup_isSome.2 htls]
    · rw [if_neg htls] at hwants ⊢
      by_cases hplain : address.port ∈ last.plan.nonencryptedPorts.iter
      · rw [if_pos hplain, AList.lookup_eq_none.2 htls]
        rfl
      · rw [if_neg hplain] at hwants
        cases hwants
  · rw [if_pos hip] at hwants
    cases hwants

/-- A connection to the listener that was created without encryption is encrypted. -/
theorem encryptedPass_acceptTcp : ∃ state, Listeners.run 1 [plainPass, encryptedPass 1] = .ok state ∧
    ∃ token handlerToken handler, state.RunsAt port80 token ∧ state.handlers.Running handlerToken ∧
      state.handlers.created[handlerToken]? = some handler ∧
      (handler.acceptTcp port80).tlsConfig = some 1 := by
  obtain ⟨state, hrun⟩ := exists_run_plainPass [1]
  have hrun' : Listeners.run 1 ([plainPass] ++ [encryptedPass 1]) = .ok state := hrun
  obtain ⟨token, htoken⟩ := (exists_runsAt_iff hrun' port80).2 (by decide)
  have hhandler := resource_handlers hrun' 0
  rw [if_pos (Nat.zero_lt_one)] at hhandler
  obtain ⟨handlerToken, hheld, hcreated⟩ := Option.bind_eq_some_iff.1 hhandler
  have hrunning := ((reached_of_run hrun').handlersSound.running_iff handlerToken).2 ⟨0, hheld⟩
  have haccept := acceptTcp_of_running hrun' htoken hrunning hcreated port80 rfl
  exact ⟨state, hrun, token, handlerToken, _, htoken, hrunning, hcreated, haccept.1.trans (by decide)⟩

end Running

end Ferron.Server
