import Ferron.Config.ModuleLoading

/-!
# What the loading of modules gives

Each loader sees only the configurations and its own state, so the loop over the configurations does what
each loader does alone. `firstError_loadModules` says that there is no error exactly when no loader has one,
and which error is kept otherwise. `loaded_of_firstError_eq_none` says what is loaded without an error.
-/

set_option autoImplicit false

namespace Ferron.Config

open Ferron.Common Ferron.Lib.Workers

variable {σ α μ χ : Type}

/-! ## Loaders as workers -/

section Loaders

variable (globalConfiguration : Option ServerConfiguration)

/-- A loader as a worker. -/
abbrev LoaderWorker (σ α : Type) := Worker σ ServerConfiguration (List Str) (Option α) Str

/-- A loader alone: it marks properties as used, and then it loads something, or nothing, or it fails. -/
def ModuleLoader.worker (loader : ModuleLoader σ α) : LoaderWorker σ α where
  state := loader.state
  work state config :=
    match loader.validateConfiguration config with
    | (used, .error error) => (used, .error error, state)
    | (used, .ok ()) =>
        if loader.requirementsHold config then
          (used, (loader.load state config globalConfiguration).1.map some,
            (loader.load state config globalConfiguration).2)
        else (used, .ok none, state)

/-- The loaders as workers. -/
def loaderWorkers (loaders : List (ModuleLoader σ α)) : List (LoaderWorker σ α) :=
  loaders.map (ModuleLoader.worker globalConfiguration)

/-- The loaders as workers, each of them behind some configurations. -/
abbrev workersBehind (loaders : List (ModuleLoader σ α)) (before : List ServerConfiguration) :
    List (LoaderWorker σ α) :=
  (loaderWorkers globalConfiguration loaders).map fun worker => worker.after before

/-- What a loader does when its validation fails. -/
theorem work_of_invalid {loader : ModuleLoader σ α} {config : ServerConfiguration} {used : List Str}
    {error : Str} (hvalid : loader.validateConfiguration config = (used, .error error)) :
    (loader.worker globalConfiguration).work loader.state config = (used, .error error, loader.state) := by
  rw [ModuleLoader.worker]
  dsimp only
  rw [hvalid]

/-- What a loader does that has nothing to load. -/
theorem work_of_not_required {loader : ModuleLoader σ α} {config : ServerConfiguration} {used : List Str}
    (hvalid : loader.validateConfiguration config = (used, .ok ()))
    (hrequired : ¬ loader.requirementsHold config = true) :
    (loader.worker globalConfiguration).work loader.state config = (used, .ok none, loader.state) := by
  rw [ModuleLoader.worker]
  dsimp only
  rw [hvalid]
  exact if_neg hrequired

/-- What a loader does that has something to load. -/
theorem work_of_required {loader : ModuleLoader σ α} {config : ServerConfiguration} {used : List Str}
    (hvalid : loader.validateConfiguration config = (used, .ok ()))
    (hrequired : loader.requirementsHold config = true) {result : Except Str α} {state : σ}
    (hload : loader.load loader.state config globalConfiguration = (result, state)) :
    (loader.worker globalConfiguration).work loader.state config = (used, result.map some, state) := by
  rw [ModuleLoader.worker]
  dsimp only
  rw [hvalid]
  dsimp only
  rw [if_pos hrequired, hload]

/-- The parts of what a loader does. -/
theorem worker_parts {loader : ModuleLoader σ α} {config : ServerConfiguration} {used : List Str}
    {result : Except Str (Option α)} {state : σ}
    (h : (loader.worker globalConfiguration).work loader.state config = (used, result, state)) :
    (loader.worker globalConfiguration).note config = used ∧
      (loader.worker globalConfiguration).result config = result ∧
      (loader.worker globalConfiguration).next config =
        ({ loader with state := state } : ModuleLoader σ α).worker globalConfiguration := by
  refine ⟨congrArg (fun parts => parts.1) h, congrArg (fun parts => parts.2.1) h, ?_⟩
  have hstate := congrArg (fun parts => parts.2.2) h
  dsimp only at hstate
  rw [← hstate]
  rfl

theorem note_worker (loader : ModuleLoader σ α) (config : ServerConfiguration) :
    (loader.worker globalConfiguration).note config = (loader.validateConfiguration config).1 := by
  cases hvalid : loader.validateConfiguration config with
  | mk used validated =>
      cases validated with
      | error error => exact (worker_parts _ (work_of_invalid _ hvalid)).1
      | ok =>
          by_cases hrequired : loader.requirementsHold config = true
          · exact (worker_parts _ (work_of_required _ hvalid hrequired rfl)).1
          · exact (worker_parts _ (work_of_not_required _ hvalid hrequired)).1

/-- The loop over the loaders is a round of the workers. -/
structure IsRound (result : LoadedBy σ α)
    (round : Round σ ServerConfiguration (List Str) (Option α) Str) : Prop where
  loaders : loaderWorkers globalConfiguration result.loaders = round.workers
  usedProperties : result.usedProperties = round.notes.flatten
  loaded : result.loaded = round.results.reduceOption
  error : result.error = round.error

theorem isRound_loadEach (config : ServerConfiguration) (loaders : List (ModuleLoader σ α)) :
    IsRound globalConfiguration (loadEach globalConfiguration config loaders)
      (round config (loaderWorkers globalConfiguration loaders)) := by
  induction loaders with
  | nil => exact ⟨rfl, rfl, rfl, rfl⟩
  | cons loader loaders ih =>
      rw [loaderWorkers, List.map_cons, loadEach]
      cases hvalid : loader.validateConfiguration config with
      | mk used validated =>
          cases validated with
          | error error =>
              obtain ⟨hnote, hresult, hnext⟩ := worker_parts _ (work_of_invalid globalConfiguration hvalid)
              rw [round_cons_of_error hresult, hnote, hnext]
              exact ⟨rfl, (List.append_nil used).symm, rfl, rfl⟩
          | ok =>
              dsimp only
              by_cases hrequired : loader.requirementsHold config = true
              · rw [if_pos hrequired]
                cases hload : loader.load loader.state config globalConfiguration with
                | mk result state =>
                    obtain ⟨hnote, hresult, hnext⟩ := worker_parts _
                      (work_of_required globalConfiguration hvalid hrequired hload)
                    cases result with
                    | error error =>
                        rw [round_cons_of_error hresult, hnote, hnext]
                        exact ⟨rfl, (List.append_nil used).symm, rfl, rfl⟩
                    | ok found =>
                        rw [round_cons_of_ok hresult, hnote, hnext]
                        exact ⟨congrArg (_ :: ·) ih.loaders, congrArg (used ++ ·) ih.usedProperties,
                          congrArg (found :: ·) ih.loaded, ih.error⟩
              · obtain ⟨hnote, hresult, hnext⟩ := worker_parts _
                  (work_of_not_required globalConfiguration hvalid hrequired)
                rw [if_neg hrequired, round_cons_of_ok hresult, hnote, hnext]
                exact ⟨congrArg (_ :: ·) ih.loaders, congrArg (used ++ ·) ih.usedProperties, ih.loaded,
                  ih.error⟩

/-- A loader keeps what it is. Only its state changes. -/
theorem exists_after_worker (loader : ModuleLoader σ α) (before : List ServerConfiguration) :
    ∃ state, (loader.worker globalConfiguration).after before =
      ({ loader with state := state } : ModuleLoader σ α).worker globalConfiguration := by
  induction before using List.reverseRecOn with
  | nil => exact ⟨loader.state, rfl⟩
  | append_singleton before config ih =>
      obtain ⟨state, hstate⟩ := ih
      rw [Worker.after_append_singleton, hstate]
      exact ⟨_, rfl⟩

/-- What a loader gives for a configuration behind others, if it gives something. -/
def ModuleLoader.gives (before : List ServerConfiguration) (config : ServerConfiguration)
    (loader : ModuleLoader σ α) : Option α :=
  (((loader.worker globalConfiguration).after before).result config).toOption.join

/-- What some loaders do when none of them fails. -/
structure LoadsAll (loaders : List (ModuleLoader σ α)) (before : List ServerConfiguration)
    (config : ServerConfiguration) (result : LoadedBy σ α) : Prop where
  error : result.error = none
  loaded : result.loaded = loaders.filterMap (ModuleLoader.gives globalConfiguration before config)
  states : loaderWorkers globalConfiguration result.loaders =
    workersBehind globalConfiguration loaders (before ++ [config])
  usedProperties : ∀ property, property ∈ result.usedProperties ↔
    ∃ loader ∈ loaders, property ∈ (loader.validateConfiguration config).1

variable {globalConfiguration} {loaders current : List (ModuleLoader σ α)} {before : List ServerConfiguration}
  {config : ServerConfiguration}

theorem loadsAll_of_succeeds (hcurrent : loaderWorkers globalConfiguration current =
      workersBehind globalConfiguration loaders before)
    (h : ∀ worker ∈ workersBehind globalConfiguration loaders before, worker.Succeeds config) :
    LoadsAll globalConfiguration loaders before config (loadEach globalConfiguration config current) := by
  obtain ⟨hloaders, hused, hloaded, herror⟩ := isRound_loadEach globalConfiguration config current
  rw [hcurrent, round_of_succeeds h] at hloaders hused hloaded herror
  refine ⟨herror, ?_, ?_, ?_⟩
  · rw [hloaded, workersBehind, loaderWorkers]
    change List.filterMap id _ = _
    rw [List.filterMap_filterMap, List.map_map, List.filterMap_map]
    rfl
  · rw [hloaders, workersBehind, workersBehind, List.map_map]
    refine List.map_congr_left fun worker _ => ?_
    exact (worker.after_append_singleton config before).symm
  · intro property
    rw [hused]
    dsimp only
    rw [workersBehind, loaderWorkers, List.map_map, List.map_map, List.mem_flatten]
    constructor
    · rintro ⟨used, hmem, hproperty⟩
      obtain ⟨loader, hloader, rfl⟩ := List.mem_map.1 hmem
      obtain ⟨state, hstate⟩ := exists_after_worker globalConfiguration loader before
      refine ⟨loader, hloader, ?_⟩
      change property ∈ ((loader.worker globalConfiguration).after before).note config at hproperty
      rwa [hstate, note_worker] at hproperty
    · rintro ⟨loader, hloader, hproperty⟩
      obtain ⟨state, hstate⟩ := exists_after_worker globalConfiguration loader before
      refine ⟨_, List.mem_map_of_mem hloader, ?_⟩
      change property ∈ ((loader.worker globalConfiguration).after before).note config
      rwa [hstate, note_worker]

theorem error_of_firstFailure {error : Str} (hcurrent : loaderWorkers globalConfiguration current =
      workersBehind globalConfiguration loaders before)
    (h : FirstFailure (workersBehind globalConfiguration loaders before) config error) :
    (loadEach globalConfiguration config current).error = some error := by
  rw [(isRound_loadEach globalConfiguration config current).error, hcurrent]
  exact round_of_firstFailure h

end Loaders

/-! ## The loop over the configurations -/

/-- The configurations without what is loaded for them. -/
def plainConfigs (configurations : List (LoadedConfiguration μ χ)) : List ServerConfiguration :=
  configurations.map LoadedConfiguration.toServerConfiguration

section Configurations

variable (globalConfiguration : Option ServerConfiguration)
  (backends : List (ModuleLoader σ (ObservabilityBackend χ))) (modules : List (ModuleLoader σ μ))

/-- A configuration with everything that the loaders give for it, each of them alone. -/
def configured (before : List (LoadedConfiguration μ χ)) (config : LoadedConfiguration μ χ) :
    LoadedConfiguration μ χ :=
  { config with
    modules := config.modules ++ modules.filterMap (ModuleLoader.gives globalConfiguration
      (plainConfigs before) config.toServerConfiguration)
    observability := (backends.filterMap (ModuleLoader.gives globalConfiguration (plainConfigs before)
      config.toServerConfiguration)).foldl ObservabilityBackendChannels.addBackend config.observability }

/-- A property that no loader uses, and that is documented. -/
structure UnusedProperty (config : ServerConfiguration) (property : Str) : Prop where
  present : property ∈ config.entries.keys
  documented : ¬ "UNDOCUMENTED_".toList <+: property
  backends : ∀ loader ∈ backends, property ∉ (loader.validateConfiguration config).1
  modules : ∀ loader ∈ modules, property ∉ (loader.validateConfiguration config).1

/-- No loader fails on some configurations, each of them alone. -/
structure NoneFails (before : List (LoadedConfiguration μ χ)) : Prop where
  backends : AllSucceed (loaderWorkers globalConfiguration backends) (plainConfigs before)
  modules : AllSucceed (loaderWorkers globalConfiguration modules) (plainConfigs before)

/-- The first loader that fails on a configuration behind others. The backends come first. -/
def FailsOn (before : List (LoadedConfiguration μ χ)) (config : ServerConfiguration) (error : Str) : Prop :=
  FirstFailure (workersBehind globalConfiguration backends (plainConfigs before)) config error ∨
    (∀ worker ∈ workersBehind globalConfiguration backends (plainConfigs before), worker.Succeeds config) ∧
    FirstFailure (workersBehind globalConfiguration modules (plainConfigs before)) config error

/-- The error of the first configuration on which a loader fails. -/
def FirstError (configurations : List (LoadedConfiguration μ χ)) (message : Str) : Prop :=
  ∃ before config behind error, configurations = before ++ config :: behind ∧
    NoneFails globalConfiguration backends modules before ∧
    FailsOn globalConfiguration backends modules before config.toServerConfiguration error ∧
    message = errorAt config.filters error

/-- The state of the loop where no loader failed. -/
structure NoErrorYet (before : List (LoadedConfiguration μ χ)) (loading : ModuleLoading σ μ χ) : Prop where
  firstError : loading.firstError = none
  backendStates : loaderWorkers globalConfiguration loading.backends =
    workersBehind globalConfiguration backends (plainConfigs before)
  moduleStates : loaderWorkers globalConfiguration loading.modules =
    workersBehind globalConfiguration modules (plainConfigs before)
  length : loading.configurations.length = before.length
  configurations : ∀ front config behind, before = front ++ config :: behind →
    loading.configurations[front.length]? =
      some (configured globalConfiguration backends modules front config)
  unusedProperties : ∀ property, property ∈ loading.unusedProperties ↔
    ∃ config ∈ before, UnusedProperty backends modules config.toServerConfiguration property

variable {globalConfiguration backends modules} {before : List (LoadedConfiguration μ χ)}
  {config : LoadedConfiguration μ χ} {loading : ModuleLoading σ μ χ}

theorem plainConfigs_append_singleton (before : List (LoadedConfiguration μ χ))
    (config : LoadedConfiguration μ χ) :
    plainConfigs (before ++ [config]) = plainConfigs before ++ [config.toServerConfiguration] := by
  rw [plainConfigs, List.map_append]
  rfl

theorem noneFails_append_singleton_iff :
    NoneFails globalConfiguration backends modules (before ++ [config]) ↔
      NoneFails globalConfiguration backends modules before ∧
      (∀ worker ∈ workersBehind globalConfiguration backends (plainConfigs before),
        worker.Succeeds config.toServerConfiguration) ∧
      ∀ worker ∈ workersBehind globalConfiguration modules (plainConfigs before),
        worker.Succeeds config.toServerConfiguration := by
  constructor
  · rintro ⟨hbackends, hmodules⟩
    rw [plainConfigs_append_singleton, allSucceed_append_singleton_iff] at hbackends hmodules
    exact ⟨⟨hbackends.1, hmodules.1⟩, hbackends.2, hmodules.2⟩
  · rintro ⟨⟨hbackends, hmodules⟩, hlastBackends, hlastModules⟩
    constructor
    · rw [plainConfigs_append_singleton, allSucceed_append_singleton_iff]
      exact ⟨hbackends, hlastBackends⟩
    · rw [plainConfigs_append_singleton, allSucceed_append_singleton_iff]
      exact ⟨hmodules, hlastModules⟩

theorem mem_foldl_insert {unused properties : List Str} {property : Str} :
    property ∈ unused.foldl (fun properties property => properties.insert property) properties ↔
      property ∈ properties ∨ property ∈ unused := by
  induction unused generalizing properties with
  | nil => simp
  | cons first unused ih =>
      rw [List.foldl_cons, ih, List.mem_insert_iff, List.mem_cons]
      tauto

theorem mem_unusedIn_iff {before : List ServerConfiguration} {config : ServerConfiguration}
    {backendResult : LoadedBy σ (ObservabilityBackend χ)} {moduleResult : LoadedBy σ μ}
    (hb : LoadsAll globalConfiguration backends before config backendResult)
    (hm : LoadsAll globalConfiguration modules before config moduleResult) {property : Str} :
    property ∈ unusedIn config (backendResult.usedProperties ++ moduleResult.usedProperties) ↔
      UnusedProperty backends modules config property := by
  have hused : (backendResult.usedProperties ++ moduleResult.usedProperties).contains property = true ↔
      (∃ loader ∈ backends, property ∈ (loader.validateConfiguration config).1) ∨
        ∃ loader ∈ modules, property ∈ (loader.validateConfiguration config).1 := by
    rw [List.contains_iff_mem, List.mem_append, hb.usedProperties, hm.usedProperties]
  rw [unusedIn, List.mem_filter, Bool.and_eq_true, Bool.not_eq_true', Bool.not_eq_true',
    ← Bool.not_eq_true, ← Bool.not_eq_true, hused, List.isPrefixOf_iff_prefix, not_or]
  constructor
  · rintro ⟨hpresent, hdocumented, hbackends, hmodules⟩
    exact ⟨hpresent, hdocumented, fun loader hloader hmem => hbackends ⟨loader, hloader, hmem⟩,
      fun loader hloader hmem => hmodules ⟨loader, hloader, hmem⟩⟩
  · rintro ⟨hpresent, hdocumented, hbackends, hmodules⟩
    refine ⟨hpresent, hdocumented, ?_, ?_⟩
    · rintro ⟨loader, hloader, hmem⟩
      exact hbackends loader hloader hmem
    · rintro ⟨loader, hloader, hmem⟩
      exact hmodules loader hloader hmem

/-- A configuration on which no loader fails. -/
theorem noErrorYet_loadModulesOf
    (h : NoErrorYet globalConfiguration backends modules before loading)
    (hbackends : ∀ worker ∈ workersBehind globalConfiguration backends (plainConfigs before),
      worker.Succeeds config.toServerConfiguration)
    (hmodules : ∀ worker ∈ workersBehind globalConfiguration modules (plainConfigs before),
      worker.Succeeds config.toServerConfiguration) :
    NoErrorYet globalConfiguration backends modules (before ++ [config])
      (loadModulesOf globalConfiguration loading config) := by
  have hb := loadsAll_of_succeeds h.backendStates hbackends
  have hm := loadsAll_of_succeeds h.moduleStates hmodules
  have hnone : (loading.firstError.or ((loadEach globalConfiguration config.toServerConfiguration
      loading.backends).error.map (errorAt config.filters))).isNone = true := by
    rw [h.firstError, hb.error]
    rfl
  have hloading : loadModulesOf globalConfiguration loading config =
      { configurations := loading.configurations ++
          [configured globalConfiguration backends modules before config]
        backends := (loadEach globalConfiguration config.toServerConfiguration loading.backends).loaders
        modules := (loadEach globalConfiguration config.toServerConfiguration loading.modules).loaders
        firstError := none
        unusedProperties := (unusedIn config.toServerConfiguration
          ((loadEach globalConfiguration config.toServerConfiguration loading.backends).usedProperties ++
            (loadEach globalConfiguration config.toServerConfiguration loading.modules).usedProperties)).foldl
          (fun properties property => properties.insert property) loading.unusedProperties } := by
    rw [loadModulesOf]
    rw [if_pos hnone, h.firstError, hb.error, hm.error, hb.loaded, hm.loaded]
    rfl
  rw [hloading]
  refine ⟨rfl, ?_, ?_, ?_, ?_, ?_⟩
  · rw [plainConfigs_append_singleton]
    exact hb.states
  · rw [plainConfigs_append_singleton]
    exact hm.states
  · rw [List.length_append, List.length_append, h.length]
    rfl
  · intro front other behind hsplit
    rcases List.eq_nil_or_concat behind with rfl | ⟨rest, last, rfl⟩
    · obtain ⟨rfl, hsame⟩ := List.append_inj' hsplit rfl
      rw [← h.length, List.getElem?_concat_length, List.head_eq_of_cons_eq hsame]
    · rw [List.concat_eq_append, ← List.cons_append, ← List.append_assoc] at hsplit
      obtain ⟨rfl, -⟩ := List.append_inj' hsplit rfl
      rw [List.getElem?_append_left, h.configurations front other rest rfl]
      rw [h.length, List.length_append, List.length_cons]
      omega
  · intro property
    rw [mem_foldl_insert, h.unusedProperties, mem_unusedIn_iff hb hm]
    constructor
    · rintro (⟨other, hother, hunused⟩ | hunused)
      · exact ⟨other, List.mem_append_left _ hother, hunused⟩
      · exact ⟨config, List.mem_append_right _ List.mem_cons_self, hunused⟩
    · rintro ⟨other, hother, hunused⟩
      rcases List.mem_append.1 hother with hbefore | hlast
      · exact Or.inl ⟨other, hbefore, hunused⟩
      · rw [List.mem_singleton.1 hlast] at hunused
        exact Or.inr hunused

theorem firstError_of_failsOn {error : Str}
    (h : NoErrorYet globalConfiguration backends modules before loading)
    (hfails : FailsOn globalConfiguration backends modules before config.toServerConfiguration error) :
    (loadModulesOf globalConfiguration loading config).firstError =
      some (errorAt config.filters error) := by
  rw [loadModulesOf]
  dsimp only
  rcases hfails with hbackend | ⟨hbackends, hmodule⟩
  · rw [error_of_firstFailure h.backendStates hbackend, h.firstError]
    rfl
  · rw [(loadsAll_of_succeeds h.backendStates hbackends).error, h.firstError]
    change Option.map _ (loadEach globalConfiguration _ loading.modules).error = _
    rw [error_of_firstFailure h.moduleStates hmodule]
    rfl

/-- The first error is kept. -/
theorem firstError_loadModulesOf {message : Str} (h : loading.firstError = some message) :
    (loadModulesOf globalConfiguration loading config).firstError = some message := by
  rw [loadModulesOf]
  dsimp only
  rw [h]
  rfl

section Runs

variable (globalConfiguration backends modules)

/-- No loader fails, or there is a first one that does. -/
theorem noneFails_or_firstError (configurations : List (LoadedConfiguration μ χ)) :
    NoneFails globalConfiguration backends modules configurations ∨
      ∃ message, FirstError globalConfiguration backends modules configurations message := by
  induction configurations using List.reverseRecOn with
  | nil => exact Or.inl ⟨allSucceed_nil _, allSucceed_nil _⟩
  | append_singleton before config ih =>
      rcases ih with hbefore | ⟨message, front, other, behind, error, rfl, hfront, hfails, hmessage⟩
      · rcases succeeds_or_firstFailure (workersBehind globalConfiguration backends (plainConfigs before))
          config.toServerConfiguration with hbackends | ⟨error, herror⟩
        · rcases succeeds_or_firstFailure (workersBehind globalConfiguration modules (plainConfigs before))
            config.toServerConfiguration with hmodules | ⟨error, herror⟩
          · exact Or.inl (noneFails_append_singleton_iff.2 ⟨hbefore, hbackends, hmodules⟩)
          · exact Or.inr ⟨_, before, config, [], error, rfl, hbefore, Or.inr ⟨hbackends, herror⟩, rfl⟩
        · exact Or.inr ⟨_, before, config, [], error, rfl, hbefore, Or.inl herror, rfl⟩
      · refine Or.inr ⟨message, front, other, behind ++ [config], error, ?_, hfront, hfails, hmessage⟩
        rw [List.append_assoc, List.cons_append]

/-- The loop over some configurations. -/
def loadAllModules (configurations : List (LoadedConfiguration μ χ)) : ModuleLoading σ μ χ :=
  configurations.foldl (loadModulesOf globalConfiguration) ⟨[], backends, modules, none, []⟩

variable {globalConfiguration backends modules}

theorem noErrorYet_loadAllModules {configurations : List (LoadedConfiguration μ χ)}
    (h : NoneFails globalConfiguration backends modules configurations) :
    NoErrorYet globalConfiguration backends modules configurations
      (loadAllModules globalConfiguration backends modules configurations) := by
  induction configurations using List.reverseRecOn with
  | nil =>
      refine ⟨rfl, (List.map_id _).symm, (List.map_id _).symm, rfl, ?_, ?_⟩
      · intro front config behind hsplit
        exact absurd hsplit.symm (List.append_ne_nil_of_right_ne_nil _ (List.cons_ne_nil _ _))
      · intro property
        constructor
        · exact fun h => absurd h List.not_mem_nil
        · rintro ⟨config, hconfig, -⟩
          exact absurd hconfig List.not_mem_nil
  | append_singleton before config ih =>
      obtain ⟨hbefore, hbackends, hmodules⟩ := noneFails_append_singleton_iff.1 h
      rw [loadAllModules, List.foldl_append]
      exact noErrorYet_loadModulesOf (ih hbefore) hbackends hmodules

theorem firstError_loadAllModules {configurations : List (LoadedConfiguration μ χ)} {message : Str}
    (h : FirstError globalConfiguration backends modules configurations message) :
    (loadAllModules globalConfiguration backends modules configurations).firstError = some message := by
  obtain ⟨before, config, behind, error, rfl, hbefore, hfails, rfl⟩ := h
  have hfirst := firstError_of_failsOn (noErrorYet_loadAllModules hbefore) hfails
  rw [loadAllModules, List.foldl_append, List.foldl_cons]
  change (loadModulesOf globalConfiguration
    (loadAllModules globalConfiguration backends modules before) config).firstError = _ at hfirst
  induction behind using List.reverseRecOn with
  | nil => exact hfirst
  | append_singleton behind last ih =>
      rw [List.foldl_append]
      exact firstError_loadModulesOf ih

end Runs

end Configurations

/-! ## Results -/

section Results

variable (configurations : List (LoadedConfiguration μ χ)) (modules : List (ModuleLoader σ μ))
  (backends : List (ModuleLoader σ (ObservabilityBackend χ)))

/-- There is no error exactly when no loader fails on any configuration, each of them alone. Otherwise the
error is that of the first configuration on which one fails. -/
theorem firstError_loadModules :
    ((loadModules configurations modules backends).firstError = none ↔
      NoneFails (findGlobalConfiguration (plainConfigs configurations)) backends modules configurations) ∧
    ∀ message, (loadModules configurations modules backends).firstError = some message ↔
      FirstError (findGlobalConfiguration (plainConfigs configurations)) backends modules configurations
        message := by
  change ((loadAllModules (findGlobalConfiguration (plainConfigs configurations)) backends modules
    configurations).firstError = none ↔ _) ∧ ∀ message, (loadAllModules (findGlobalConfiguration
      (plainConfigs configurations)) backends modules configurations).firstError = some message ↔ _
  rcases noneFails_or_firstError (findGlobalConfiguration (plainConfigs configurations)) backends modules
    configurations with hnone | ⟨first, hfirst⟩
  · have herror := (noErrorYet_loadAllModules hnone).firstError
    refine ⟨⟨fun _ => hnone, fun _ => herror⟩, fun message => ⟨fun h => ?_, firstError_loadAllModules⟩⟩
    rw [herror] at h
    cases h
  · have herror := firstError_loadAllModules hfirst
    constructor
    · constructor
      · intro h
        rw [herror] at h
        cases h
      · intro hnone
        exact (noErrorYet_loadAllModules hnone).firstError
    · refine fun message => ⟨fun h => ?_, firstError_loadAllModules⟩
      rw [herror] at h
      rwa [← Option.some.inj h]

/-- Without an error, a configuration has what each loader gives for it alone, in the order of the loaders,
and the unused properties are those that no loader uses. -/
theorem loaded_of_firstError_eq_none
    (h : (loadModules configurations modules backends).firstError = none) :
    (loadModules configurations modules backends).configurations.length = configurations.length ∧
    (∀ before config behind, configurations = before ++ config :: behind →
      (loadModules configurations modules backends).configurations[before.length]? =
        some (configured (findGlobalConfiguration (plainConfigs configurations)) backends modules before
          config)) ∧
    ∀ property, property ∈ (loadModules configurations modules backends).unusedProperties ↔
      ∃ config ∈ configurations, UnusedProperty backends modules config.toServerConfiguration property := by
  rcases noneFails_or_firstError (findGlobalConfiguration (plainConfigs configurations)) backends modules
    configurations with hnone | ⟨first, hfirst⟩
  · have hloaded := noErrorYet_loadAllModules hnone
    exact ⟨hloaded.length, hloaded.configurations, hloaded.unusedProperties⟩
  · have herror := firstError_loadAllModules hfirst
    exact absurd (herror.symm.trans h) (Option.some_ne_none _)

end Results

/-! ## Examples -/

/-- A loader of modules that are numbered. -/
def numberingLoader : ModuleLoader Nat Nat where
  state := 0
  getRequirements := ["cgi".toList]
  validateConfiguration _ := (["cgi".toList], .ok ())
  load state _ _ := (.ok state, state + 1)

/-- The configuration of all hosts with some directives. -/
def directivesConfiguration (names : List String) : LoadedConfiguration Nat Nat where
  entries := names.foldl (fun entries name => entries.insert name.toList ⟨[⟨[.bool true], ∅⟩]⟩) ∅
  filters := ⟨true, none, none, none, none, none⟩
  modules := []
  observability := ⟨[], [], []⟩

/-- Two configurations with the directive, and one with another directive between them. -/
def threeConfigurations : List (LoadedConfiguration Nat Nat) :=
  [directivesConfiguration ["cgi"], directivesConfiguration ["log"], directivesConfiguration ["cgi"]]

theorem threeConfigurations_loaded :
    (loadModules threeConfigurations [numberingLoader] []).configurations.length = 3 ∧
      "log".toList ∈ (loadModules threeConfigurations [numberingLoader] []).unusedProperties := by
  obtain ⟨hlength, -, hunused⟩ := loaded_of_firstError_eq_none threeConfigurations [numberingLoader] [] rfl
  refine ⟨hlength, (hunused _).2 ⟨_, List.mem_cons_of_mem _ List.mem_cons_self, ?_⟩⟩
  refine ⟨by decide, by decide, fun _ h => absurd h List.not_mem_nil, fun loader h => ?_⟩
  rw [List.mem_singleton.1 h]
  decide

example : (loadModules threeConfigurations [numberingLoader] []).configurations.map
    LoadedConfiguration.modules = [[0], [], [1]] := rfl

end Ferron.Config
