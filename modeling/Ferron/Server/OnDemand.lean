import Ferron.Acme.AcmeCache
import Ferron.Acme.Provision
import Ferron.Lib.LockedUpdates
import Ferron.Common.Hostname
import Ferron.TlsUtil
import Mathlib.Logic.Relation

/-!
# On-demand TLS

A handshake for a name without a certificate sends the name to a task of the server. The task asks an
endpoint whether there may be a certificate, and starts a task of its own for each new name. These tasks
add the name to a file under a lock, for the next start, and make an ACME configuration for it. Before the
first name is received, configurations are made for the names in the files.

`Step` has the steps of handshakes and tasks, in any order. Names that are received twice are left out, and
a file is read and written under the lock only. A file that cannot be read is taken for one without names, and
a task whose file cannot be written goes on.
-/

set_option autoImplicit false

namespace Ferron.Server.OnDemand

open Ferron.Acme Ferron.Common Ferron.Lib Ferron.TlsUtil

/-! ## Configurations and files -/

/-- What the libraries and the operating system do. -/
structure Services (F : Type) where
  /-- The file that a path names. -/
  locate : PathBuf → F
  /-- `URL_SAFE_NO_PAD.encode` of `xxh3_128`. -/
  digest : Str → Str
  /-- `serde_json::to_vec`. -/
  toVec : List Str → Bytes
  /-- `serde_json::from_slice`. -/
  fromSlice : Bytes → Option (List Str)

/-- A key with its certificates. -/
abbrev CertifiedKey (ν : Type) := ν × ν

/-- What `AcmeConfig` and `AcmeOnDemandConfig` have in common. Client configurations and DNS providers are only
passed on. -/
structure AutomaticTls (ν : Type) where
  port : UInt16
  rustlsClientConfig : ν
  challengeType : ChallengeType
  contact : List Str
  directory : Str
  eabKey : Option (Str × List UInt8)
  profile : Option Str
  cachePath : Option PathBuf
  dnsProvider : Option ν

/-- `AcmeConfig`, as it is made here. -/
structure AcmeConfig (ν : Type) where
  tls : AutomaticTls ν
  domains : List Str

/-- `AcmeOnDemandConfig`. -/
structure AcmeOnDemandConfig (ν : Type) where
  tls : AutomaticTls ν
  sniHostname : Option Str

/-- What the server has made of its configurations: the resolvers of the ports, the ACME configurations and those
for on-demand TLS. -/
structure Gathered (ν : Type) where
  tlsPorts : HashMap UInt16 (CustomSniResolver (CertifiedKey ν))
  acmeConfigs : List (AcmeConfig ν)
  acmeOnDemandConfigs : List (AcmeOnDemandConfig ν)

/-- A name and the configuration that it is for. -/
structure Task (ν : Type) where
  domain : Str
  config : AcmeOnDemandConfig ν

/-- A name that is to be added to its file, with what becomes of the file: whether it can be read, and what
writing it comes to. -/
structure Addition (ν : Type) where
  task : Task ν
  readable : Bool
  write : Write

/-- The file can be read and written. -/
structure Addition.Succeeds {ν : Type} (addition : Addition ν) : Prop where
  readable : addition.readable = true
  write : addition.write = .succeeds

/-- An `AcmeConfig` for a name, with the paths of its caches. Without a path a cache is in memory. -/
structure ConvertedConfig (ν : Type) where
  config : AcmeConfig ν
  accountCachePath : Option PathBuf
  certCachePath : Option PathBuf

section Files

variable {F ν : Type} [DecidableEq F] (services : Services F)

/-- `get_hostname_cache_key`. -/
def getHostnameCacheKey (config : AcmeOnDemandConfig ν) : Str :=
  "hostname_".toList ++ services.digest (Nat.toDigits 10 config.tls.port.toNat ++
    config.sniHostname.elim [] fun h => ';' :: h)

/-- The file with the names of a configuration. -/
def hostnameFile (config : AcmeOnDemandConfig ν) : Option F :=
  config.tls.cachePath.map fun path => services.locate (path.join (getHostnameCacheKey services config))

/-- `get_cached_domains`. -/
def getCachedDomains (files : Files F) (config : AcmeOnDemandConfig ν) : List Str :=
  match config.tls.cachePath with
  | some path =>
      match getFromCache services.locate files (.file path) (getHostnameCacheKey services config) with
      | some data => (services.fromSlice data).getD []
      | none => []
  | none => []

/-- What `add_domain_to_cache` reads. -/
def readDomains (files : Files F) (addition : Addition ν) : List Str :=
  if addition.readable then getCachedDomains services files addition.task.config else []

/-- What `add_domain_to_cache` writes. Its error is not looked at. -/
def writeDomains (files : Files F) (addition : Addition ν) (cachedDomains : List Str) : Files F :=
  match addition.task.config.tls.cachePath with
  | some path =>
      (setInCacheWith services.locate files (.file path) (getHostnameCacheKey services addition.task.config)
        (services.toVec (cachedDomains ++ [addition.task.domain])) addition.write).2.1
  | none => files

/-- What `convert_on_demand_config` makes, without its locks. -/
def convertOnDemandConfig (task : Task ν) : ConvertedConfig ν where
  config := ⟨task.config.tls, [task.domain]⟩
  accountCachePath := task.config.tls.cachePath
  certCachePath := task.config.tls.cachePath.map fun path =>
    path.join (services.digest (Nat.toDigits 10 task.config.tls.port.toNat ++ '-' :: task.domain))

end Files

/-! ## The tasks -/

/-- What a start has made, and what handshakes and tasks have done since then. -/
structure State (F ν : Type) where
  tlsPorts : HashMap UInt16 (CustomSniResolver (CertifiedKey ν))
  /-- The names that are still to be taken from the files. -/
  preloads : List (Task ν)
  /-- What `acme_on_demand_rx` receives next. -/
  channel : List (Str × UInt16)
  existingCombinations : List (Str × UInt16)
  /-- The tasks of the names, up to when they give the lock back, and the files. -/
  updates : LockedUpdates.State (Files F) (Addition ν) (List Str)
  /-- The tasks behind that which have made their ACME configurations. -/
  converted : List (Nat × ConvertedConfig ν)
  /-- Those of them that have added these to `acme_configs`. -/
  pushed : List Nat
  /-- The ACME configurations, without those that are not on-demand. -/
  acmeConfigs : List (ConvertedConfig ν)
  /-- The locks for certified keys that there are. -/
  certifiedKeyLocks : Nat
  /-- A note of the names that were received and may have a certificate. -/
  received : List (Str × UInt16)

section Steps

variable {F ν : Type} [DecidableEq F] (services : Services F)
  (certifiedKeyLock : Nat → Option (CertifiedKey ν)) (configs : List (AcmeOnDemandConfig ν))

/-- The names that a start takes from the files, when those of some of the configurations cannot be read. -/
def preloadedTasks (files : Files F) (readable : Nat → Bool) : List (Task ν) :=
  configs.zipIdx.flatMap fun (config, index) =>
    if readable index then (getCachedDomains services files config).map fun domain => ⟨domain, config⟩ else []

/-- The name and the port of a task. -/
def Task.combination (task : Task ν) : Str × UInt16 := (task.domain, task.config.tls.port)

/-- The configuration that a name is for. -/
def configFor (combination : Str × UInt16) : Option (AcmeOnDemandConfig ν) :=
  configs.find? fun config =>
    matchHostname config.sniHostname (some combination.1) && config.tls.port = combination.2

/-- What the task of the server starts with. -/
def State.start (gathered : Gathered ν) (files : Files F) (readable : Nat → Bool) : State F ν where
  tlsPorts := gathered.tlsPorts
  preloads := preloadedTasks services gathered.acmeOnDemandConfigs files readable
  channel := []
  existingCombinations := []
  updates := .new files
  converted := []
  pushed := []
  acmeConfigs := []
  certifiedKeyLocks := gathered.acmeConfigs.length
  received := []

/-- The resolver that `convert_on_demand_config` loads. It gives what the lock of the configuration holds. -/
def State.loadHost (state : State F ν) (task : Task ν) : State F ν :=
  { state with
    tlsPorts :=
      match state.tlsPorts.lookup task.config.tls.port with
      | some resolver =>
          state.tlsPorts.insert task.config.tls.port
            { resolver with
              resolvers := loadHostResolver resolver.resolvers
                (task.domain, fun _ => certifiedKeyLock state.certifiedKeyLocks) }
      | none => state.tlsPorts
    certifiedKeyLocks := state.certifiedKeyLocks + 1 }

/-- A name from a file. -/
def State.preload (state : State F ν) (task : Task ν) (rest : List (Task ν)) : State F ν :=
  { state.loadHost certifiedKeyLock task with
    preloads := rest
    existingCombinations := task.combination :: state.existingCombinations
    acmeConfigs := state.acmeConfigs ++ [convertOnDemandConfig services task] }

/-- A name that is received. The endpoint, if there is one, is asked first. -/
def State.receive (state : State F ν) (combination : Str × UInt16) (rest : List (Str × UInt16))
    (allowed readable : Bool) (write : Write) : State F ν :=
  if allowed then
    if state.existingCombinations.contains combination then
      { state with channel := rest, received := combination :: state.received }
    else
      { state with
        channel := rest
        existingCombinations := combination :: state.existingCombinations
        updates :=
          match configFor configs combination with
          | some config => state.updates.spawn ⟨⟨combination.1, config⟩, readable, write⟩
          | none => state.updates
        received := combination :: state.received }
  else { state with channel := rest }

/-- A step of a handshake or a task. -/
inductive Step (state : State F ν) : State F ν → Prop
  | handshake {port : UInt16} {resolver : CustomSniResolver (CertifiedKey ν)} {clientHello : ClientHello}
      {combination : Str × UInt16} (listens : state.tlsPorts.lookup port = some resolver)
      (sends : (resolver.resolve clientHello).2 = some combination) :
      Step state { state with channel := state.channel ++ [combination] }
  | preload {task : Task ν} {rest : List (Task ν)} (preloads : state.preloads = task :: rest) :
      Step state (state.preload services certifiedKeyLock task rest)
  | receive {combination : Str × UInt16} {rest : List (Str × UInt16)} (allowed readable : Bool)
      (write : Write) (preloads : state.preloads = []) (channel : state.channel = combination :: rest) :
      Step state (state.receive configs combination rest allowed readable write)
  | update {updates : LockedUpdates.State (Files F) (Addition ν) (List Str)}
      (step : LockedUpdates.Step (readDomains services) (writeDomains services) state.updates updates) :
      Step state { state with updates := updates }
  | convert {index : Nat} {addition : Addition ν}
      (unlocked : state.updates.tasks[index]? = some (addition, .unlocked))
      (fresh : index ∉ state.converted.map Prod.fst) :
      Step state { state.loadHost certifiedKeyLock addition.task with
        converted := state.converted ++ [(index, convertOnDemandConfig services addition.task)] }
  | push {index : Nat} {config : ConvertedConfig ν} (converted : (index, config) ∈ state.converted)
      (fresh : index ∉ state.pushed) :
      Step state { state with
        pushed := state.pushed ++ [index]
        acmeConfigs := state.acmeConfigs ++ [config] }

/-- What comes of some steps. -/
abbrev Reaches : State F ν → State F ν → Prop := Relation.ReflTransGen (Step services certifiedKeyLock configs)

/-- Nothing is left to do. -/
structure State.Settled (state : State F ν) : Prop where
  preloads : state.preloads = []
  channel : state.channel = []
  unlocked : ∀ task ∈ state.updates.tasks, task.2 = .unlocked
  pushed : ∀ index < state.updates.tasks.length, index ∈ state.pushed

end Steps

end Ferron.Server.OnDemand
