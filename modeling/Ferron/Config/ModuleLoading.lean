import Ferron.Common.IpDisplay
import Ferron.Config.GlobalConfiguration
import Ferron.Config.Validation
import Ferron.Lib.Workers

/-!
# The loading of modules

For one configuration after another, `loadModules` loads first the observability backends and then the
modules that the configuration needs. The loaders have state, for the modules that they share, and the first
error is kept: no more modules are loaded behind it.
-/

set_option autoImplicit false

namespace Ferron.Config

open Ferron.Common

/-! ## Filters as they are displayed -/

/-- The name of a host block. -/
def hostBlockName (filters : ServerConfigurationFilters) : Str :=
  (match filters.hostname, filters.ip with
    | some hostname, some ip => hostname ++ "(".toList ++ displayIp ip ++ ")".toList
    | some hostname, none => hostname
    | none, some ip => displayIp ip
    | none, none => []) ++
  match filters.port with
  | some port => ":".toList ++ displayNat 10 port.toNat
  | none => []

/-- The name of a location or of a conditional block. -/
def conditionBlockName (condition : Conditions) : Str :=
  let name := if condition.locationPrefix.isEmpty then []
    else "\"".toList ++ condition.locationPrefix ++ "\" location".toList
  if condition.conditionals.isEmpty then name ++ " block".toList
  else (if name.isEmpty then [] else name ++ " and ".toList) ++ "some conditional blocks".toList

/-- The name of an error configuration. -/
def errorBlockName : ErrorHandlerStatus → Str
  | .any => "\"error_status\" block".toList
  | .status status => "\"error_status ".toList ++ displayNat 10 status.toNat ++ "\" block".toList

/-- `fmt`. -/
def displayFilters (filters : ServerConfigurationFilters) : Str :=
  if !filters.isHost then "\"globals\" block".toList
  else
    let name := hostBlockName filters
    let hostBlock := if name.isEmpty then [] else ["\"".toList ++ name ++ "\" host block".toList]
    " -> ".toList.intercalate (hostBlock ++ (filters.condition.map conditionBlockName).toList ++
      (filters.errorHandlerStatus.map errorBlockName).toList)

/-! ## Loaders -/

/-- What an observability backend is used for: its channels. -/
structure ObservabilityBackend (χ : Type) where
  logChannel : Option χ
  metricChannel : Option χ
  traceChannel : Option χ

/-- The channels of a configuration. -/
structure ObservabilityBackendChannels (χ : Type) where
  logChannels : List χ
  metricChannels : List χ
  traceChannels : List χ

/-- Adds the channels of a backend. -/
def ObservabilityBackendChannels.addBackend {χ : Type} (channels : ObservabilityBackendChannels χ)
    (backend : ObservabilityBackend χ) : ObservabilityBackendChannels χ where
  logChannels := channels.logChannels ++ backend.logChannel.toList
  metricChannels := channels.metricChannels ++ backend.metricChannel.toList
  traceChannels := channels.traceChannels ++ backend.traceChannel.toList

/-- A configuration with its modules and its channels. -/
structure LoadedConfiguration (μ χ : Type) extends ServerConfiguration where
  modules : List μ
  observability : ObservabilityBackendChannels χ

/-- A loader of modules or of observability backends, with its state. The validation gives the properties
that it marks as used. The source passes a configuration with the modules and channels that have been loaded so
far, which no loader reads: a loader gets the rest. -/
structure ModuleLoader (σ α : Type) where
  state : σ
  getRequirements : List Str
  validateConfiguration : ServerConfiguration → List Str × Except Str Unit
  load : σ → ServerConfiguration → Option ServerConfiguration → Except Str α × σ

variable {σ α μ χ : Type}

/-- Whether what the loader requires is there. A loader that requires nothing is always used. -/
def ModuleLoader.requirementsHold (loader : ModuleLoader σ α) (config : ServerConfiguration) : Bool :=
  loader.getRequirements.isEmpty || requirementsMet loader.getRequirements config

/-- What some loaders did: their next states, the properties that they used, what they loaded and the error
that stopped them. -/
structure LoadedBy (σ α : Type) where
  loaders : List (ModuleLoader σ α)
  usedProperties : List Str
  loaded : List α
  error : Option Str

/-- The loop over the loaders of one kind. -/
def loadEach (globalConfiguration : Option ServerConfiguration) (config : ServerConfiguration) :
    List (ModuleLoader σ α) → LoadedBy σ α
  | [] => ⟨[], [], [], none⟩
  | loader :: loaders =>
      match loader.validateConfiguration config with
      | (used, .error error) => ⟨loader :: loaders, used, [], some error⟩
      | (used, .ok ()) =>
          if loader.requirementsHold config then
            match loader.load loader.state config globalConfiguration with
            | (.error error, state) => ⟨{ loader with state := state } :: loaders, used, [], some error⟩
            | (.ok loaded, state) =>
                let rest := loadEach globalConfiguration config loaders
                ⟨{ loader with state := state } :: rest.loaders, used ++ rest.usedProperties,
                  loaded :: rest.loaded, rest.error⟩
          else
            let rest := loadEach globalConfiguration config loaders
            ⟨loader :: rest.loaders, used ++ rest.usedProperties, rest.loaded, rest.error⟩

/-! ## The configurations -/

/-- The state of the loop over the configurations. -/
structure ModuleLoading (σ μ χ : Type) where
  configurations : List (LoadedConfiguration μ χ)
  backends : List (ModuleLoader σ (ObservabilityBackend χ))
  modules : List (ModuleLoader σ μ)
  firstError : Option Str
  unusedProperties : List Str

/-- The message for an error in a configuration. -/
def errorAt (filters : ServerConfigurationFilters) (error : Str) : Str :=
  error ++ " (at ".toList ++ displayFilters filters ++ ")".toList

/-- The properties of a configuration that are reported as unused. -/
def unusedIn (config : ServerConfiguration) (usedProperties : List Str) : List Str :=
  config.entries.keys.filter fun property =>
    !("UNDOCUMENTED_".toList.isPrefixOf property) && !usedProperties.contains property

/-- One configuration. -/
def loadModulesOf (globalConfiguration : Option ServerConfiguration) (loading : ModuleLoading σ μ χ)
    (config : LoadedConfiguration μ χ) : ModuleLoading σ μ χ :=
  let backends := loadEach globalConfiguration config.toServerConfiguration loading.backends
  let backendError := loading.firstError.or (backends.error.map (errorAt config.filters))
  let modules := if backendError.isNone then
      loadEach globalConfiguration config.toServerConfiguration loading.modules
    else ⟨loading.modules, [], [], none⟩
  let unused := unusedIn config.toServerConfiguration (backends.usedProperties ++ modules.usedProperties)
  { configurations := loading.configurations ++ [{ config with
      modules := config.modules ++ modules.loaded
      observability := backends.loaded.foldl ObservabilityBackendChannels.addBackend config.observability }]
    backends := backends.loaders
    modules := modules.loaders
    firstError := backendError.or (modules.error.map (errorAt config.filters))
    unusedProperties := unused.foldl (fun properties property => properties.insert property)
      loading.unusedProperties }

/-- `load_modules`. The table of the unused properties has some order. -/
def loadModules (configurations : List (LoadedConfiguration μ χ)) (modules : List (ModuleLoader σ μ))
    (backends : List (ModuleLoader σ (ObservabilityBackend χ))) : ModuleLoading σ μ χ :=
  let globalConfiguration := findGlobalConfiguration
    (configurations.map LoadedConfiguration.toServerConfiguration)
  configurations.foldl (loadModulesOf globalConfiguration) ⟨[], backends, modules, none, []⟩

end Ferron.Config
