import Ferron.Acme.Provision
import Mathlib.Data.List.Induction
import Mathlib.Tactic

/-!
# Where TLS-ALPN-01 challenges are found

At start-up each configuration with the challenge TLS-ALPN-01 gets to a list of challenge data locks. A port
has one list that its resolver goes through. A configuration that is not on-demand adds its lock to the list
of its port; one that is on-demand keeps the list and adds a lock for each host it is converted for.

The branch for on-demand configurations never looks for a list of the port. It puts an empty list in the
place of the one that earlier configurations use, and nothing finds their challenges any more
(`reachable_iff`).
-/

set_option autoImplicit false

namespace Ferron.Acme.ChallengeLists

/-! ## Start-up -/

/-- A configuration with automatic TLS. -/
structure AutomaticTls where
  port : UInt16
  challengeType : ChallengeType
  onDemand : Bool

/-- `AcmeConfig`, by its port, its challenge and the number of its lock. -/
structure AcmeConfig where
  port : UInt16
  challengeType : ChallengeType
  tlsAlpn01DataLock : Nat

/-- `AcmeOnDemandConfig`, by its port, its challenge and the number of its list. -/
structure AcmeOnDemandConfig where
  port : UInt16
  challengeType : ChallengeType
  tlsAlpn01ResolverLock : Nat

/-- What the start-up has made. Lists and locks are numbered in the order in which they are made. -/
structure StartUp where
  created : Nat
  lists : Nat → List Nat
  /-- `acme_tls_alpn_01_resolvers`: the list that the resolver of a port goes through. -/
  resolvers : UInt16 → Option Nat
  /-- `acme_tls_alpn_01_resolver_locks`. -/
  resolverLocks : UInt16 → Option Nat
  dataLocks : Nat
  acmeConfigs : List AcmeConfig
  acmeOnDemandConfigs : List AcmeOnDemandConfig

namespace StartUp

/-- Before the first configuration. -/
def new : StartUp := ⟨0, fun _ => [], fun _ => none, fun _ => none, 0, [], []⟩

/-- A new list is put in both tables for the port. -/
def insertList (state : StartUp) (port : UInt16) (list : List Nat) : StartUp :=
  { state with
    created := state.created + 1
    lists := Function.update state.lists state.created list
    resolvers := Function.update state.resolvers port (some state.created)
    resolverLocks := Function.update state.resolverLocks port (some state.created) }

/-- A lock is pushed to a list. -/
def push (state : StartUp) (list lock : Nat) : StartUp :=
  { state with lists := Function.update state.lists list (state.lists list ++ [lock]) }

/-- The branch for on-demand configurations. -/
def loadOnDemand (state : StartUp) (config : AutomaticTls) : StartUp :=
  let state := if config.challengeType = .tlsAlpn01 then state.insertList config.port [] else state
  match state.resolverLocks config.port with
  | some list =>
      { state with
        acmeOnDemandConfigs := state.acmeOnDemandConfigs ++ [⟨config.port, config.challengeType, list⟩] }
  | none =>
      { state with
        created := state.created + 1
        lists := Function.update state.lists state.created []
        acmeOnDemandConfigs := state.acmeOnDemandConfigs ++
          [⟨config.port, config.challengeType, state.created⟩] }

/-- A lock of a new configuration. -/
def addConfig (state : StartUp) (port : UInt16) (challengeType : ChallengeType) : StartUp :=
  { state with
    dataLocks := state.dataLocks + 1
    acmeConfigs := state.acmeConfigs ++ [⟨port, challengeType, state.dataLocks⟩] }

/-- The branch for configurations that are not on-demand. -/
def loadConfig (state : StartUp) (config : AutomaticTls) : StartUp :=
  let lock := state.dataLocks
  let state := state.addConfig config.port config.challengeType
  if config.challengeType = .tlsAlpn01 then
    match state.resolvers config.port with
    | some list => state.push list lock
    | none => state.insertList config.port [lock]
  else state

/-- One configuration. -/
def load (state : StartUp) (config : AutomaticTls) : StartUp :=
  if config.onDemand then state.loadOnDemand config else state.loadConfig config

/-- `convert_on_demand_config`. -/
def convertOnDemandConfig (state : StartUp) (config : AcmeOnDemandConfig) : StartUp :=
  let lock := state.dataLocks
  let state := state.addConfig config.port config.challengeType
  if config.challengeType = .tlsAlpn01 then state.push config.tlsAlpn01ResolverLock lock else state

/-- What the resolver of a port goes through. -/
def served (state : StartUp) (port : UInt16) : List Nat :=
  ((state.resolvers port).map state.lists).getD []

end StartUp

/-- The start-up with these configurations. -/
def startUp (configs : List AutomaticTls) : StartUp := configs.foldl StartUp.load .new

/-! ## What the lists are for -/

/-- The lock of each configuration is served on its port, and each on-demand configuration has the list that
is served on its port. -/
structure Reachable (state : StartUp) : Prop where
  locks : ∀ config ∈ state.acmeConfigs, config.challengeType = .tlsAlpn01 →
    config.tlsAlpn01DataLock ∈ state.served config.port
  lists : ∀ config ∈ state.acmeOnDemandConfigs, config.challengeType = .tlsAlpn01 →
    state.resolvers config.port = some config.tlsAlpn01ResolverLock

/-- What a state becomes by conversions of its on-demand configurations. -/
inductive Converts (state : StartUp) : StartUp → Prop where
  | refl : Converts state state
  | step {later : StartUp} {config : AcmeOnDemandConfig} (before : Converts state later)
      (config_mem : config ∈ later.acmeOnDemandConfigs) :
      Converts state (later.convertOnDemandConfig config)

/-- The configuration has the challenge TLS-ALPN-01 on the port. -/
def AutomaticTls.IsOn (config : AutomaticTls) (port : UInt16) : Prop :=
  config.challengeType = .tlsAlpn01 ∧ config.port = port

/-- An on-demand configuration with the challenge TLS-ALPN-01 is the first one on its port. -/
def OnDemandFirst (configs : List AutomaticTls) : Prop :=
  ∀ front config back, configs = front ++ config :: back → config.onDemand = true →
    config.challengeType = .tlsAlpn01 → ∀ other ∈ front, ¬other.IsOn config.port

/-! ## One configuration -/

/-- What is in the tables comes from the configurations that have been loaded. -/
structure Loaded (configs : List AutomaticTls) (state : StartUp) : Prop where
  resolverLocks : state.resolverLocks = state.resolvers
  resolver_lt : ∀ port, ∀ list ∈ state.resolvers port, list < state.created
  list_lt : ∀ config ∈ state.acmeOnDemandConfigs, config.tlsAlpn01ResolverLock < state.created
  lock_lt : ∀ config ∈ state.acmeConfigs, config.tlsAlpn01DataLock < state.dataLocks
  onPort : ∀ port, (∃ config ∈ configs, config.IsOn port) ↔
    (∃ config ∈ state.acmeConfigs, config.challengeType = .tlsAlpn01 ∧ config.port = port) ∨
      ∃ config ∈ state.acmeOnDemandConfigs, config.challengeType = .tlsAlpn01 ∧ config.port = port

section Lists

variable {state : StartUp} {port : UInt16} {list lock : Nat}

theorem served_eq (h : state.resolvers port = some list) : state.served port = state.lists list := by
  rw [StartUp.served, h, Option.map_some, Option.getD_some]

theorem served_insertList (contents : List Nat) :
    (state.insertList port contents).served port = contents := by
  have hafter : (state.insertList port contents).resolvers port = some state.created :=
    Function.update_self _ _ _
  rw [served_eq hafter]
  exact Function.update_self _ _ _

/-- A new list changes nothing for the other ports. -/
theorem served_insertList_of_ne {other : UInt16} (hne : other ≠ port)
    (hlt : ∀ list ∈ state.resolvers other, list < state.created) (contents : List Nat) :
    (state.insertList port contents).served other = state.served other := by
  have hresolver : (state.insertList port contents).resolvers other = state.resolvers other :=
    Function.update_of_ne hne _ _
  rw [StartUp.served, StartUp.served, hresolver]
  cases hlist : state.resolvers other with
  | none => rfl
  | some list =>
      have hold : list ≠ state.created := Nat.ne_of_lt (hlt list hlist)
      exact Function.update_of_ne hold _ _

theorem served_push (hresolver : state.resolvers port = some list) (lock : Nat) :
    (state.push list lock).served port = state.served port ++ [lock] := by
  have hafter : (state.push list lock).resolvers port = some list := hresolver
  rw [served_eq hafter, served_eq hresolver]
  exact Function.update_self _ _ _

/-- A list only gets longer. -/
theorem mem_served_push {other : Nat} (hmem : other ∈ state.served port) :
    other ∈ (state.push list lock).served port := by
  unfold StartUp.served at hmem ⊢
  change other ∈ ((state.resolvers port).map (Function.update state.lists list _)).getD []
  cases hlist : state.resolvers port with
  | none => rwa [hlist] at hmem
  | some found =>
      rw [hlist] at hmem
      rw [Option.map_some, Option.getD_some] at hmem ⊢
      by_cases heq : found = list
      · subst heq
        rw [Function.update_self]
        exact List.mem_append_left _ hmem
      · rwa [Function.update_of_ne heq]

/-- A push adds nothing but the lock. -/
theorem of_mem_served_push {other : Nat}
    (hmem : other ∈ (state.push list lock).served port) : other ∈ state.served port ∨ other = lock := by
  unfold StartUp.served at hmem ⊢
  change other ∈ ((state.resolvers port).map (Function.update state.lists list _)).getD [] at hmem
  cases hlist : state.resolvers port with
  | none =>
      rw [hlist] at hmem
      exact .inl hmem
  | some found =>
      rw [hlist] at hmem
      rw [Option.map_some, Option.getD_some] at hmem ⊢
      by_cases heq : found = list
      · subst heq
        rw [Function.update_self, List.mem_append, List.mem_singleton] at hmem
        exact hmem
      · rw [Function.update_of_ne heq] at hmem
        exact .inl hmem

theorem served_of_none (h : state.resolvers port = none) : state.served port = [] := by
  rw [StartUp.served, h, Option.map_none, Option.getD_none]

/-- What is served depends on the resolvers and on the lists that there are. -/
theorem served_congr {later : StartUp} (hresolvers : later.resolvers = state.resolvers)
    (hlists : ∀ list ∈ state.resolvers port, later.lists list = state.lists list) :
    later.served port = state.served port := by
  rw [StartUp.served, StartUp.served, hresolvers]
  cases hlist : state.resolvers port with
  | none => rfl
  | some list => exact hlists list hlist

end Lists

/-- What the branches do: one for on-demand configurations with the challenge and one for others, and three
for configurations that are not on-demand. -/
theorem load_cases {state : StartUp} (hlocks : state.resolverLocks = state.resolvers)
    (hlt : ∀ port, ∀ list ∈ state.resolvers port, list < state.created) (config : AutomaticTls) :
    (config.onDemand = true ∧ config.challengeType = .tlsAlpn01 ∧
      state.load config =
        { state.insertList config.port [] with
          acmeOnDemandConfigs := state.acmeOnDemandConfigs ++
            [⟨config.port, config.challengeType, state.created⟩] }) ∨
    (config.onDemand = true ∧ config.challengeType ≠ .tlsAlpn01 ∧
      ∃ created lists list, state.created ≤ created ∧ list < created ∧
        (∀ old < state.created, lists old = state.lists old) ∧
        state.load config =
          { state with
            created := created
            lists := lists
            acmeOnDemandConfigs := state.acmeOnDemandConfigs ++
              [⟨config.port, config.challengeType, list⟩] }) ∨
    (config.onDemand = false ∧ config.challengeType = .tlsAlpn01 ∧
      ∃ list, state.resolvers config.port = some list ∧
        state.load config =
          (state.addConfig config.port config.challengeType).push list state.dataLocks) ∨
    (config.onDemand = false ∧ config.challengeType = .tlsAlpn01 ∧
      state.resolvers config.port = none ∧
      state.load config =
        (state.addConfig config.port config.challengeType).insertList config.port [state.dataLocks]) ∨
    (config.onDemand = false ∧ config.challengeType ≠ .tlsAlpn01 ∧
      state.load config = state.addConfig config.port config.challengeType) := by
  unfold StartUp.load
  cases hdemand : config.onDemand with
  | true =>
      rw [if_pos rfl]
      unfold StartUp.loadOnDemand
      by_cases htls : config.challengeType = .tlsAlpn01
      · have hlock : (state.insertList config.port []).resolverLocks config.port = some state.created :=
          Function.update_self _ _ _
        refine .inl ⟨rfl, htls, ?_⟩
        dsimp only
        rw [if_pos htls, hlock]
        rfl
      · refine .inr (.inl ⟨rfl, htls, ?_⟩)
        dsimp only
        rw [if_neg htls, hlocks]
        cases hlist : state.resolvers config.port with
        | some list =>
            exact ⟨state.created, state.lists, list, Nat.le_refl _, hlt _ list hlist, fun _ _ => rfl, rfl⟩
        | none =>
            refine ⟨state.created + 1, Function.update state.lists state.created [], state.created,
              Nat.le_succ _, Nat.lt_succ_self _, fun old hold => ?_, rfl⟩
            exact Function.update_of_ne (Nat.ne_of_lt hold) _ _
  | false =>
      rw [if_neg Bool.false_ne_true]
      unfold StartUp.loadConfig
      by_cases htls : config.challengeType = .tlsAlpn01
      · dsimp only
        rw [if_pos htls]
        have hsame : (state.addConfig config.port config.challengeType).resolvers = state.resolvers := rfl
        rw [hsame]
        cases hlist : state.resolvers config.port with
        | some list => exact .inr (.inr (.inl ⟨rfl, htls, list, rfl, rfl⟩))
        | none => exact .inr (.inr (.inr (.inl ⟨rfl, htls, rfl, rfl⟩)))
      · dsimp only
        rw [if_neg htls]
        exact .inr (.inr (.inr (.inr ⟨rfl, htls, rfl⟩)))

section Step

variable {configs : List AutomaticTls} {state : StartUp} {config : AutomaticTls}

/-- The entries that are on a port behind one more configuration. -/
theorem onPort_append (hloaded : Loaded configs state) {acmeConfigs : List AcmeConfig}
    {acmeOnDemandConfigs : List AcmeOnDemandConfig}
    (hentry : ∀ port, config.IsOn port ↔
      (∃ entry ∈ acmeConfigs, entry.challengeType = .tlsAlpn01 ∧ entry.port = port) ∨
        ∃ entry ∈ acmeOnDemandConfigs, entry.challengeType = .tlsAlpn01 ∧ entry.port = port)
    (port : UInt16) :
    (∃ other ∈ configs ++ [config], other.IsOn port) ↔
      (∃ entry ∈ state.acmeConfigs ++ acmeConfigs, entry.challengeType = .tlsAlpn01 ∧ entry.port = port) ∨
        ∃ entry ∈ state.acmeOnDemandConfigs ++ acmeOnDemandConfigs,
          entry.challengeType = .tlsAlpn01 ∧ entry.port = port := by
  have hold := hloaded.onPort port
  have hnew := hentry port
  simp only [List.mem_append, or_and_right, exists_or, List.mem_singleton, exists_eq_left]
  rw [hold, hnew]
  exact or_or_or_comm

theorem Loaded.load (hloaded : Loaded configs state) (config : AutomaticTls) :
    Loaded (configs ++ [config]) (state.load config) := by
  have honDemand : ∀ list port, config.IsOn port ↔
      (∃ entry ∈ ([] : List AcmeConfig), entry.challengeType = .tlsAlpn01 ∧ entry.port = port) ∨
        ∃ entry ∈ [AcmeOnDemandConfig.mk config.port config.challengeType list],
          entry.challengeType = .tlsAlpn01 ∧ entry.port = port := by
    intro list port
    simp [AutomaticTls.IsOn]
  have hconfig : ∀ lock port, config.IsOn port ↔
      (∃ entry ∈ [AcmeConfig.mk config.port config.challengeType lock],
        entry.challengeType = .tlsAlpn01 ∧ entry.port = port) ∨
        ∃ entry ∈ ([] : List AcmeOnDemandConfig),
          entry.challengeType = .tlsAlpn01 ∧ entry.port = port := by
    intro lock port
    simp [AutomaticTls.IsOn]
  have hinsert : ∀ port, ∀ list ∈ Function.update state.resolvers config.port (some state.created) port,
      list < state.created + 1 := by
    intro port list hlist
    by_cases hport : port = config.port
    · rw [hport, Function.update_self] at hlist
      obtain rfl := Option.some.inj hlist
      exact Nat.lt_succ_self _
    · rw [Function.update_of_ne hport] at hlist
      exact Nat.lt_succ_of_lt (hloaded.resolver_lt port list hlist)
  have hlocks : ∀ entry ∈ state.acmeConfigs ++
      [⟨config.port, config.challengeType, state.dataLocks⟩],
        entry.tlsAlpn01DataLock < state.dataLocks + 1 := by
    intro entry hentry
    rcases List.mem_append.1 hentry with hold | hnew
    · exact Nat.lt_succ_of_lt (hloaded.lock_lt entry hold)
    · rw [List.mem_singleton.1 hnew]
      exact Nat.lt_succ_self _
  have hlists : ∀ created list, state.created ≤ created → list < created →
      ∀ entry ∈ state.acmeOnDemandConfigs ++ [⟨config.port, config.challengeType, list⟩],
        entry.tlsAlpn01ResolverLock < created := by
    intro created list hcreated hlist entry hentry
    rcases List.mem_append.1 hentry with hold | hnew
    · exact Nat.lt_of_lt_of_le (hloaded.list_lt entry hold) hcreated
    · rw [List.mem_singleton.1 hnew]
      exact hlist
  rcases load_cases hloaded.resolverLocks hloaded.resolver_lt config with
    ⟨-, -, hload⟩ | ⟨-, -, created, lists, list, hcreated, hlist, -, hload⟩ |
      ⟨-, -, list, -, hload⟩ | ⟨-, -, -, hload⟩ | ⟨-, -, hload⟩
  · rw [hload]
    refine ⟨congrArg (Function.update · _ _) hloaded.resolverLocks, hinsert,
      hlists _ _ (Nat.le_succ _) (Nat.lt_succ_self _), hloaded.lock_lt, fun port => ?_⟩
    have honPort := onPort_append hloaded (honDemand state.created) port
    rwa [List.append_nil] at honPort
  · rw [hload]
    refine ⟨hloaded.resolverLocks, fun port other hother => ?_, hlists _ _ hcreated hlist,
      hloaded.lock_lt, fun port => ?_⟩
    · exact Nat.lt_of_lt_of_le (hloaded.resolver_lt port other hother) hcreated
    · have honPort := onPort_append hloaded (honDemand list) port
      rwa [List.append_nil] at honPort
  · rw [hload]
    refine ⟨hloaded.resolverLocks, hloaded.resolver_lt, hloaded.list_lt, hlocks, fun port => ?_⟩
    have honPort := onPort_append hloaded (hconfig state.dataLocks) port
    rwa [List.append_nil] at honPort
  · rw [hload]
    refine ⟨congrArg (Function.update · _ _) hloaded.resolverLocks, hinsert,
      fun entry hentry => Nat.lt_succ_of_lt (hloaded.list_lt entry hentry), hlocks, fun port => ?_⟩
    have honPort := onPort_append hloaded (hconfig state.dataLocks) port
    rwa [List.append_nil] at honPort
  · rw [hload]
    refine ⟨hloaded.resolverLocks, hloaded.resolver_lt, hloaded.list_lt, hlocks, fun port => ?_⟩
    have honPort := onPort_append hloaded (hconfig state.dataLocks) port
    rwa [List.append_nil] at honPort

/-- When nothing is served differently, a new configuration without the challenge changes nothing. -/
theorem reachable_congr {later : StartUp} (acmeConfigs : List AcmeConfig)
    (acmeOnDemandConfigs : List AcmeOnDemandConfig) (hserved : ∀ port, later.served port = state.served port)
    (hresolvers : later.resolvers = state.resolvers)
    (hconfigs : later.acmeConfigs = state.acmeConfigs ++ acmeConfigs)
    (honDemand : later.acmeOnDemandConfigs = state.acmeOnDemandConfigs ++ acmeOnDemandConfigs)
    (hother : (∀ entry ∈ acmeConfigs, entry.challengeType ≠ .tlsAlpn01) ∧
      ∀ entry ∈ acmeOnDemandConfigs, entry.challengeType ≠ .tlsAlpn01) :
    Reachable later ↔ Reachable state := by
  constructor
  · intro h
    refine ⟨fun entry hentry htls => ?_, fun entry hentry htls => ?_⟩
    · rw [← hserved]
      exact h.locks entry (hconfigs ▸ List.mem_append_left _ hentry) htls
    · rw [← hresolvers]
      exact h.lists entry (honDemand ▸ List.mem_append_left _ hentry) htls
  · intro h
    refine ⟨fun entry hentry htls => ?_, fun entry hentry htls => ?_⟩
    · rw [hconfigs] at hentry
      rw [hserved]
      rcases List.mem_append.1 hentry with hold | hnew
      · exact h.locks entry hold htls
      · exact absurd htls (hother.1 entry hnew)
    · rw [honDemand] at hentry
      rw [hresolvers]
      rcases List.mem_append.1 hentry with hold | hnew
      · exact h.lists entry hold htls
      · exact absurd htls (hother.2 entry hnew)

/-- A new list for a port is found by what is on the port later only. -/
theorem reachable_insertList (hloaded : Loaded configs state) (port : UInt16) (contents : List Nat)
    (dataLocks : Nat) (acmeConfigs : List AcmeConfig) (acmeOnDemandConfigs : List AcmeOnDemandConfig)
    (hcontents : ∀ lock ∈ contents, state.dataLocks ≤ lock)
    (hconfigs : ∀ entry ∈ acmeConfigs, entry.port = port ∧ entry.tlsAlpn01DataLock ∈ contents)
    (honDemand : ∀ entry ∈ acmeOnDemandConfigs, entry.port = port ∧
      entry.tlsAlpn01ResolverLock = state.created) :
    Reachable { state.insertList port contents with
        dataLocks := dataLocks
        acmeConfigs := state.acmeConfigs ++ acmeConfigs
        acmeOnDemandConfigs := state.acmeOnDemandConfigs ++ acmeOnDemandConfigs } ↔
      Reachable state ∧ ∀ other ∈ configs, ¬other.IsOn port := by
  have hself : (state.insertList port contents).resolvers port = some state.created :=
    Function.update_self _ _ _
  have hne : ∀ {other : UInt16}, other ≠ port →
      (state.insertList port contents).resolvers other = state.resolvers other :=
    fun hother => Function.update_of_ne hother _ _
  constructor
  · intro h
    -- what was on the port before has another list
    have hnoConfig : ∀ entry ∈ state.acmeConfigs, entry.challengeType = .tlsAlpn01 → entry.port ≠ port := by
      rintro entry hentry htls rfl
      have hmem := h.locks entry (List.mem_append_left _ hentry) htls
      change entry.tlsAlpn01DataLock ∈ (state.insertList entry.port contents).served entry.port at hmem
      rw [served_insertList] at hmem
      have hlt := hloaded.lock_lt entry hentry
      have hle := hcontents _ hmem
      omega
    have hnoOnDemand : ∀ entry ∈ state.acmeOnDemandConfigs, entry.challengeType = .tlsAlpn01 →
        entry.port ≠ port := by
      rintro entry hentry htls rfl
      have hlist := (h.lists entry (List.mem_append_left _ hentry) htls).symm.trans hself
      have hlt := hloaded.list_lt entry hentry
      have heq := Option.some.inj hlist
      omega
    refine ⟨⟨fun entry hentry htls => ?_, fun entry hentry htls => ?_⟩, fun other hother hon => ?_⟩
    · have hmem := h.locks entry (List.mem_append_left _ hentry) htls
      change entry.tlsAlpn01DataLock ∈ (state.insertList port contents).served entry.port at hmem
      rwa [served_insertList_of_ne (hnoConfig entry hentry htls) (hloaded.resolver_lt _)] at hmem
    · have hlist := h.lists entry (List.mem_append_left _ hentry) htls
      exact (hne (hnoOnDemand entry hentry htls)).symm.trans hlist
    · rcases (hloaded.onPort port).1 ⟨other, hother, hon⟩ with
        ⟨entry, hentry, htls, hport⟩ | ⟨entry, hentry, htls, hport⟩
      · exact hnoConfig entry hentry htls hport
      · exact hnoOnDemand entry hentry htls hport
  · rintro ⟨h, hfirst⟩
    refine ⟨fun entry hentry htls => ?_, fun entry hentry htls => ?_⟩
    · change entry.tlsAlpn01DataLock ∈ (state.insertList port contents).served entry.port
      rcases List.mem_append.1 hentry with hold | hnew
      · have hport : entry.port ≠ port := by
          intro hport
          obtain ⟨other, hother, hon⟩ := (hloaded.onPort port).2 (.inl ⟨entry, hold, htls, hport⟩)
          exact hfirst other hother hon
        rw [served_insertList_of_ne hport (hloaded.resolver_lt _)]
        exact h.locks entry hold htls
      · obtain ⟨hport, hmem⟩ := hconfigs entry hnew
        rwa [hport, served_insertList]
    · rcases List.mem_append.1 hentry with hold | hnew
      · have hport : entry.port ≠ port := by
          intro hport
          obtain ⟨other, hother, hon⟩ := (hloaded.onPort port).2 (.inr ⟨entry, hold, htls, hport⟩)
          exact hfirst other hother hon
        exact (hne hport).trans (h.lists entry hold htls)
      · obtain ⟨hport, hlist⟩ := honDemand entry hnew
        rw [hport, hlist]
        exact hself

/-- A lock that is pushed to the list of its port. -/
theorem reachable_push (hloaded : Loaded configs state) {port : UInt16} {list : Nat}
    (hlist : state.resolvers port = some list) :
    Reachable ((state.addConfig port .tlsAlpn01).push list state.dataLocks) ↔ Reachable state := by
  constructor
  · intro h
    refine ⟨fun entry hentry htls => ?_, h.lists⟩
    have hmem := h.locks entry (List.mem_append_left _ hentry) htls
    rcases of_mem_served_push hmem with hold | hnew
    · exact hold
    · have hlt := hloaded.lock_lt entry hentry
      omega
  · intro h
    refine ⟨fun entry hentry htls => ?_, h.lists⟩
    rcases List.mem_append.1 hentry with hold | hnew
    · exact mem_served_push (h.locks entry hold htls)
    · rw [List.mem_singleton.1 hnew]
      have hafter : (state.addConfig port .tlsAlpn01).resolvers port = some list := hlist
      rw [served_push hafter]
      exact List.mem_append_right _ (List.mem_singleton_self _)

/-- A port without a resolver has no configuration with the challenge. -/
theorem not_isOn_of_none (hloaded : Loaded configs state) (h : Reachable state) {port : UInt16}
    (hnone : state.resolvers port = none) : ∀ other ∈ configs, ¬other.IsOn port := by
  intro other hother hon
  rcases (hloaded.onPort port).1 ⟨other, hother, hon⟩ with
    ⟨entry, hentry, htls, rfl⟩ | ⟨entry, hentry, htls, rfl⟩
  · have hmem := h.locks entry hentry htls
    rw [served_of_none hnone] at hmem
    exact List.not_mem_nil hmem
  · have hlist := h.lists entry hentry htls
    exact Option.some_ne_none _ (hlist.symm.trans hnone)

/-- One more configuration keeps the locks and the lists, unless it is on-demand and comes behind another
one on its port. -/
theorem reachable_load_iff (hloaded : Loaded configs state) (config : AutomaticTls) :
    Reachable (state.load config) ↔ Reachable state ∧
      (config.onDemand = true → config.challengeType = .tlsAlpn01 →
        ∀ other ∈ configs, ¬other.IsOn config.port) := by
  rcases load_cases hloaded.resolverLocks hloaded.resolver_lt config with
    ⟨hdemand, htls, hload⟩ | ⟨-, htls, created, lists, list, -, -, hlists, hload⟩ |
      ⟨hdemand, htls, list, hlist, hload⟩ | ⟨hdemand, htls, hnone, hload⟩ | ⟨-, htls, hload⟩
  · have hinsert := reachable_insertList hloaded config.port [] state.dataLocks []
      [⟨config.port, config.challengeType, state.created⟩]
      (fun _ h => absurd h List.not_mem_nil) (fun _ h => absurd h List.not_mem_nil)
      (fun entry h => by rw [List.mem_singleton.1 h]; exact ⟨rfl, rfl⟩)
    rw [List.append_nil] at hinsert
    rw [hload]
    exact hinsert.trans (and_congr_right fun _ => ⟨fun h _ _ => h, fun h => h hdemand htls⟩)
  · have hcongr : Reachable (state.load config) ↔ Reachable state := by
      rw [hload]
      refine reachable_congr [] [⟨config.port, config.challengeType, list⟩] (fun port => ?_) rfl
        (List.append_nil _).symm rfl ⟨fun _ h => absurd h List.not_mem_nil, fun entry h => ?_⟩
      · exact served_congr rfl fun old hold => hlists old (hloaded.resolver_lt port old hold)
      · rw [List.mem_singleton.1 h]
        exact htls
    rw [hcongr, and_iff_left]
    exact fun _ h => absurd h htls
  · have hpush := reachable_push hloaded hlist
    rw [hload, htls, hpush, and_iff_left]
    exact fun h => absurd (hdemand.symm.trans h) Bool.false_ne_true
  · have hinsert := reachable_insertList hloaded config.port [state.dataLocks] (state.dataLocks + 1)
      [⟨config.port, config.challengeType, state.dataLocks⟩] []
      (fun lock h => Nat.le_of_eq (List.mem_singleton.1 h).symm)
      (fun entry h => by rw [List.mem_singleton.1 h]; exact ⟨rfl, List.mem_singleton_self _⟩)
      (fun _ h => absurd h List.not_mem_nil)
    rw [List.append_nil] at hinsert
    rw [hload]
    refine hinsert.trans (and_congr_right fun h => ?_)
    exact iff_of_true (not_isOn_of_none hloaded h hnone)
      fun hother => absurd (hdemand.symm.trans hother) Bool.false_ne_true
  · have hcongr : Reachable (state.load config) ↔ Reachable state := by
      rw [hload]
      refine reachable_congr [⟨config.port, config.challengeType, state.dataLocks⟩] [] (fun port => rfl) rfl
        rfl (List.append_nil _).symm ⟨fun entry h => ?_, fun _ h => absurd h List.not_mem_nil⟩
      rw [List.mem_singleton.1 h]
      exact htls
    rw [hcongr, and_iff_left]
    exact fun _ h => absurd h htls

end Step

/-! ## The whole start-up -/

theorem startUp_append (configs : List AutomaticTls) (config : AutomaticTls) :
    startUp (configs ++ [config]) = (startUp configs).load config :=
  List.foldl_append

theorem loaded_startUp (configs : List AutomaticTls) : Loaded configs (startUp configs) := by
  induction configs using List.reverseRecOn with
  | nil =>
      refine ⟨rfl, fun _ _ h => ?_, fun _ h => absurd h List.not_mem_nil,
        fun _ h => absurd h List.not_mem_nil, fun port => ?_⟩
      · exact absurd h (Option.not_mem_none _)
      · simp [startUp, StartUp.new]
  | append_singleton configs config ih =>
      rw [startUp_append]
      exact ih.load config

theorem onDemandFirst_append_iff (configs : List AutomaticTls) (config : AutomaticTls) :
    OnDemandFirst (configs ++ [config]) ↔ OnDemandFirst configs ∧
      (config.onDemand = true → config.challengeType = .tlsAlpn01 →
        ∀ other ∈ configs, ¬other.IsOn config.port) := by
  constructor
  · intro h
    refine ⟨fun front found back hconfigs => ?_, h configs config [] rfl⟩
    refine h front found (back ++ [config]) ?_
    rw [hconfigs, List.append_assoc, List.cons_append]
  · rintro ⟨h, hlast⟩ front found back hconfigs
    rcases List.eq_nil_or_concat back with rfl | ⟨back, last, rfl⟩
    · obtain ⟨rfl, hfound⟩ := List.append_inj' hconfigs rfl
      obtain rfl := (List.cons.inj hfound).1
      exact hlast
    · refine h front found back ?_
      rw [List.concat_eq_append, ← List.cons_append, ← List.append_assoc] at hconfigs
      exact (List.append_inj' hconfigs rfl).1

theorem reachable_startUp_iff (configs : List AutomaticTls) :
    Reachable (startUp configs) ↔ OnDemandFirst configs := by
  induction configs using List.reverseRecOn with
  | nil =>
      refine iff_of_true ⟨fun _ h => absurd h List.not_mem_nil, fun _ h => absurd h List.not_mem_nil⟩ ?_
      intro front config back h
      exact absurd h (List.append_ne_nil_of_right_ne_nil _ (List.cons_ne_nil _ _)).symm
  | append_singleton configs config ih =>
      rw [startUp_append, reachable_load_iff (loaded_startUp configs), ih, onDemandFirst_append_iff]

/-- A lock for a host that an on-demand configuration is converted for goes to its list. -/
theorem Reachable.convert {state : StartUp} (h : Reachable state) {config : AcmeOnDemandConfig}
    (hconfig : config ∈ state.acmeOnDemandConfigs) : Reachable (state.convertOnDemandConfig config) := by
  unfold StartUp.convertOnDemandConfig
  dsimp only
  split
  · next htls =>
      have hlist := h.lists config hconfig htls
      refine ⟨fun entry hentry hentryTls => ?_, h.lists⟩
      rcases List.mem_append.1 hentry with hold | hnew
      · exact mem_served_push (h.locks entry hold hentryTls)
      · rw [List.mem_singleton.1 hnew]
        have hafter : (state.addConfig config.port config.challengeType).resolvers config.port =
            some config.tlsAlpn01ResolverLock := hlist
        rw [served_push hafter]
        exact List.mem_append_right _ (List.mem_singleton_self _)
  · next htls =>
      refine ⟨fun entry hentry hentryTls => ?_, h.lists⟩
      rcases List.mem_append.1 hentry with hold | hnew
      · exact h.locks entry hold hentryTls
      · rw [List.mem_singleton.1 hnew] at hentryTls
        exact absurd hentryTls htls

theorem Reachable.converts {state later : StartUp} (h : Reachable state) (hconverts : Converts state later) :
    Reachable later := by
  induction hconverts with
  | refl => exact h
  | step _ hconfig ih => exact ih.convert hconfig

/-- **Every challenge is served on its port**, also behind any conversions of on-demand configurations, if
and only if each on-demand configuration with the challenge is the first one on its port. -/
theorem reachable_iff (configs : List AutomaticTls) :
    (∀ later, Converts (startUp configs) later → Reachable later) ↔ OnDemandFirst configs := by
  rw [← reachable_startUp_iff]
  exact ⟨fun h => h _ .refl, fun h later hconverts => h.converts hconverts⟩

/-- A configuration of a host, and an on-demand configuration behind it. -/
def hostThenOnDemand : List AutomaticTls := [⟨443, .tlsAlpn01, false⟩, ⟨443, .tlsAlpn01, true⟩]

/-- The lock of the host is not served any more. -/
theorem hostThenOnDemand_unreachable :
    (startUp hostThenOnDemand).acmeConfigs.map AcmeConfig.tlsAlpn01DataLock = [0] ∧
      (startUp hostThenOnDemand).served 443 = [] ∧
      ¬∀ later, Converts (startUp hostThenOnDemand) later → Reachable later := by
  refine ⟨by decide, by decide, fun h => ?_⟩
  have hmem := (h _ .refl).locks ⟨443, .tlsAlpn01, 0⟩ (List.mem_singleton_self _) rfl
  exact absurd hmem (by decide)

end Ferron.Acme.ChallengeLists
