import Ferron.Acme.Renewal
import Ferron.Common.IpDisplay

/-!
# Where cached certificates come from

The certificate cache of a configuration is a directory that is named by the hash of its port and host name,
and the certificate in it is named by the hash of the domains and the profile. The ACME directory is in
neither name, so a configuration takes a certificate from another directory for its own.

`matches_of_ownDirectory` says that this is the only thing that is missing: in the runs in which a file that
is used was written for the same ACME directory, every certificate that is installed from the cache was
obtained for the same domains, profile and directory. A write may fail in these runs, when it does not leave
another file that can be read.
-/

set_option autoImplicit false

namespace Ferron.Acme.CertificateOrigin

open Ferron.Lib Ferron.Acme.Renewal Ferron.Common

/-! ## Configurations -/

/-- The settings that a configuration is made of. -/
structure Settings where
  /-- `auto_tls_cache`. -/
  cachePath : Option PathBuf
  port : UInt16
  sniHostname : Str
  profile : Option Str
  directory : Str

namespace Settings

-- the text of a hash
variable (hash : Str → Str) (settings : Settings)

/-- The domains of the configuration. -/
def domains : List Str := [settings.sniHostname]

/-- `get_certificate_cache_key`. -/
def getCertificateCacheKey : Str :=
  "certificate_".toList ++
    hash ([','].intercalate settings.domains ++ ((settings.profile.map (';' :: ·)).getD []))

/-- The name of the directory for the certificate. -/
def appendHash : Str := hash (displayNat 10 settings.port.toNat ++ '-' :: settings.sniHostname)

/-- The certificate cache. -/
def certificateCache : AcmeCache :=
  match settings.cachePath with
  | some pathbuf => .file (pathbuf.join (settings.appendHash hash))
  | none => .memory ∅

/-- The configuration. -/
def acmeConfig {F C K : Type} (files : Files F) : AcmeConfig F C K :=
  .initial files (settings.certificateCache hash) (settings.getCertificateCacheKey hash)

/-- The file of the certificate. -/
def file {F : Type} (locate : PathBuf → F) : Option F :=
  settings.cachePath.map fun pathbuf =>
    locate ((pathbuf.join (settings.appendHash hash)).join (settings.getCertificateCacheKey hash))

end Settings

/-! ## What a use of a configuration does -/

section Uses

variable {F C D K : Type} (locate : PathBuf → F) (library : Library C D K)

/-- The data that the second half of the check installs. -/
def installs (config : AcmeConfig F C K) (query : Query) : Option CertificateCacheData :=
  match cachedCertificates locate library config, (installCached locate library config query).2 with
  | some (data, _, _), .ok true => some data
  | _, _ => none

/-- The data from the cache that a check installs. -/
def checkInstalls (config : AcmeConfig F C K) (live cached : Query) : Option CertificateCacheData :=
  match config.live with
  | none => installs locate library config cached
  | some certificate =>
      let config := refresh library (fun fetchedAt retryAfter => fetchedAt + retryAfter) config
        certificate live
      match judge library config certificate live.systemTime with
      | (config, .ok false) => installs locate library config cached
      | (_, _) => none

/-- The data from the cache that a use installs. -/
def stepInstalls (config : AcmeConfig F C K) : Action → Option CertificateCacheData
  | .preload live cached =>
      checkInstalls locate library config { live with account := false } { cached with account := false }
  | .provision false _ _ _ => none
  | .provision true live cached _ =>
      checkInstalls locate library config { live with account := true } { cached with account := true }

/-- The data of the order that a use places, when it succeeds, and what writing them comes to. -/
def stepOrders (config : AcmeConfig F C K) : Action → Option (CertificateCacheData × Write)
  | .provision true live cached order =>
      match (checkCertificateValidityOrInstallCached locate library config
        { live with account := true } { cached with account := true }).2 with
      | .ok false => order
      | _ => none
  | _ => none

end Uses

/-! ## Runs of the server -/

/-- The files, the configurations of the server that runs, and some notes: for which settings a file was
written last, and what was obtained for and installed by which settings. -/
structure World (F C K : Type) where
  files : Files F
  configs : List (Settings × AcmeConfig F C K)
  origins : F → Option Settings
  obtained : List (Settings × CertificateCacheData)
  installed : List (Settings × CertificateCacheData)

/-- The server is started, a host is converted to a configuration on demand, or a configuration is used. -/
inductive WorldAction where
  | start (settings : List Settings)
  | convert (settings : Settings)
  | use (index : Nat) (action : Action)

section Model

variable {F C D K : Type} [DecidableEq F] (hash : Str → Str) (locate : PathBuf → F)
  (library : Library C D K)

/-- Before the first run. -/
def World.new : World F C K := ⟨fun _ => none, [], fun _ => none, [], []⟩

/-- The file holds data that can be read. -/
def IsReadable (data : Option FileData) : Bool :=
  (data.bind fun data => library.fromSlice data.bytes).isSome

/-- The note about the file that is written. There is none about a file that cannot be read. -/
def noteOrigin (origins : F → Option Settings) (settings : Settings) (data : CertificateCacheData)
    (write : Write) : F → Option Settings :=
  match library.toVec data, settings.file hash locate, write with
  | .ok _, some file, .succeeds => Function.update origins file (some settings)
  | .ok _, some file, .fails _ left =>
      if IsReadable library left then origins else Function.update origins file none
  | _, _, _ => origins

/-- A configuration is used with the files that there are. -/
def use (world : World F C K) (index : Nat) (settings : Settings) (config : AcmeConfig F C K)
    (action : Action) : World F C K :=
  let config := { config with files := world.files }
  let after := Renewal.step locate library config action
  { files := after.files
    configs := world.configs.set index (settings, after)
    origins :=
      match stepOrders locate library config action with
      | some (data, write) => noteOrigin hash locate library world.origins settings data write
      | none => world.origins
    obtained := world.obtained ++
      (stepOrders locate library config action).toList.map fun order => (settings, order.1)
    installed := world.installed ++ (stepInstalls locate library config action).toList.map (settings, ·) }

/-- One step. A server that is started has new configurations. -/
def worldStep (world : World F C K) : WorldAction → World F C K
  | .start settings =>
      { world with configs := settings.map fun settings => (settings, settings.acmeConfig hash world.files) }
  | .convert settings =>
      { world with configs := world.configs ++ [(settings, settings.acmeConfig hash world.files)] }
  | .use index action =>
      match world.configs[index]? with
      | some (settings, config) => use hash locate library world index settings config action
      | none => world

/-- The file that a configuration uses was written last for the same ACME directory, if it was written. -/
def OwnDirectory (world : World F C K) : WorldAction → Prop
  | .use index _ => ∀ x ∈ world.configs[index]?, ∀ file ∈ x.1.file hash locate,
      ∀ origin ∈ world.origins file, origin.directory = x.1.directory
  | _ => True

/-- A write that fails leaves the file of the configuration as it is, or as one that cannot be read. -/
def LeavesFile (world : World F C K) : WorldAction → Prop
  | .use index (.provision _ _ _ (some (_, .fails _ left))) => ∀ x ∈ world.configs[index]?,
      ∀ file ∈ x.1.file hash locate, IsReadable library left = true → left = world.files file
  | _ => True

end Model

/-- The data were obtained for the same domains, profile and ACME directory. -/
def ObtainedFor {F C K : Type} (world : World F C K) (settings : Settings) (data : CertificateCacheData) :
    Prop :=
  ∃ origin, (origin, data) ∈ world.obtained ∧ origin.domains = settings.domains ∧
    origin.profile = settings.profile ∧ origin.directory = settings.directory

/-- Everything that was installed from the cache was obtained for its configuration. -/
def Matches {F C K : Type} (world : World F C K) : Prop :=
  ∀ x ∈ world.installed, ObtainedFor world x.1 x.2

/-- The settings of an action. -/
def WorldAction.settings : WorldAction → List Settings
  | .start settings => settings
  | .convert settings => [settings]
  | .use _ _ => []

/-- A file is in one directory under one name. -/
def DistinctNames {F : Type} (hash : Str → Str) (locate : PathBuf → F) (used : Set Settings) : Prop :=
  ∀ settings ∈ used, ∀ other ∈ used, settings.file hash locate = other.file hash locate →
    (settings.file hash locate).isSome = true →
      settings.appendHash hash = other.appendHash hash ∧
        settings.getCertificateCacheKey hash = other.getCertificateCacheKey hash

/-- Data that can be read are those that stand at the beginning, whatever follows. -/
def ReadsFirst {C D K : Type} (library : Library C D K) : Prop :=
  ∀ data value tail read, library.toVec data = .ok value → library.fromSlice (value ++ tail) = some read →
    read = data

/-! ## The names -/

section Names

variable {hash : Str → Str} {settings other : Settings}

theorem notMem_displayNat (n : Nat) : '-' ∉ displayNat 10 n := by
  intro hmem
  exact absurd (Nat.isDigit_of_mem_toDigits (by decide) (by decide) hmem) (by decide)

/-- The name of the directory tells the host name. -/
theorem sniHostname_eq_of_appendHash (hhash : Function.Injective hash)
    (h : settings.appendHash hash = other.appendHash hash) : settings.sniHostname = other.sniHostname := by
  have htext := congrArg (List.dropWhile (· ≠ '-')) (hhash h)
  have hdrop : ∀ (n : Nat) (rest : Str),
      (displayNat 10 n ++ '-' :: rest).dropWhile (· ≠ '-') = '-' :: rest := by
    intro n rest
    rw [List.dropWhile_append_of_pos]
    · rfl
    · intro c hc
      rw [decide_eq_true_eq]
      rintro rfl
      exact notMem_displayNat n hc
  rw [hdrop, hdrop] at htext
  exact (List.cons.inj htext).2

/-- For one host name the key tells the profile. -/
theorem profile_eq_of_key (hhash : Function.Injective hash) (hhost : settings.sniHostname = other.sniHostname)
    (h : settings.getCertificateCacheKey hash = other.getCertificateCacheKey hash) :
    settings.profile = other.profile := by
  have htext := hhash (List.append_cancel_left h)
  unfold Settings.domains at htext
  rw [hhost] at htext
  have hprofile := List.append_cancel_left htext
  generalize settings.profile = profile at hprofile ⊢
  generalize other.profile = otherProfile at hprofile ⊢
  cases profile with
  | none =>
      cases otherProfile with
      | none => rfl
      | some other => cases hprofile
  | some profile =>
      cases otherProfile with
      | none => cases hprofile
      | some other => exact congrArg some (List.cons.inj hprofile).2

end Names

/-! ## A check -/

section Check

variable {F C D K : Type} (locate : PathBuf → F) (library : Library C D K)

/-- What a check keeps: the files, the cache and its key. -/
structure SameCache (config after : AcmeConfig F C K) : Prop where
  files : after.files = config.files
  certificateCache : after.certificateCache = config.certificateCache
  certificateCacheKey : after.certificateCacheKey = config.certificateCacheKey

theorem SameCache.trans {config middle after : AcmeConfig F C K} (h : SameCache config middle)
    (h' : SameCache middle after) : SameCache config after :=
  ⟨h'.files.trans h.files, h'.certificateCache.trans h.certificateCache,
    h'.certificateCacheKey.trans h.certificateCacheKey⟩

theorem SameCache.cachedCertificates_eq {config after : AcmeConfig F C K} (h : SameCache config after) :
    cachedCertificates locate library after = cachedCertificates locate library config := by
  unfold cachedCertificates
  rw [h.files, h.certificateCache, h.certificateCacheKey]

theorem sameCache_refresh (retryInstant : Int → Nat → Int) (config : AcmeConfig F C K) (certificate : C)
    (query : Query) : SameCache config (refresh library retryInstant config certificate query) := by
  obtain ⟨renewalInfo, heq⟩ := refresh_eq library retryInstant config certificate query
  rw [heq]
  exact ⟨rfl, rfl, rfl⟩

theorem sameCache_judge (config : AcmeConfig F C K) (certificate : C) (systemTime : Int) :
    SameCache config (judge library config certificate systemTime).1 := ⟨rfl, rfl, rfl⟩

theorem sameCache_installCached (config : AcmeConfig F C K) (query : Query) :
    SameCache config (installCached locate library config query).1 := by
  unfold installCached
  cases hfound : cachedCertificates locate library config with
  | none => exact ⟨rfl, rfl, rfl⟩
  | some found =>
      obtain ⟨data, certs, certificate⟩ := found
      dsimp only
      have hjudged := (sameCache_refresh library (fun fetchedAt retryAfter => fetchedAt - retryAfter) config
        certificate query).trans (sameCache_judge library _ certificate query.systemTime)
      rcases hjudge : judge library (refresh library (fun fetchedAt retryAfter => fetchedAt - retryAfter)
        config certificate query) certificate query.systemTime with ⟨judged, _ | _ | _⟩ <;>
        rw [hjudge] at hjudged
      · exact hjudged
      · exact hjudged
      · dsimp only
        cases library.privateKey data.privateKeyPem with
        | none => exact hjudged
        | some privateKey =>
            dsimp only
            cases library.loadPrivateKey privateKey with
            | error err => exact hjudged
            | ok key => exact ⟨hjudged.files, hjudged.certificateCache, hjudged.certificateCacheKey⟩

theorem sameCache_check (config : AcmeConfig F C K) (live cached : Query) :
    SameCache config (checkCertificateValidityOrInstallCached locate library config live cached).1 := by
  unfold checkCertificateValidityOrInstallCached
  cases config.live with
  | none => exact sameCache_installCached locate library config cached
  | some certificate =>
      dsimp only
      have hjudged := (sameCache_refresh library (fun fetchedAt retryAfter => fetchedAt + retryAfter) config
        certificate live).trans (sameCache_judge library _ certificate live.systemTime)
      rcases hjudge : judge library (refresh library (fun fetchedAt retryAfter => fetchedAt + retryAfter)
        config certificate live) certificate live.systemTime with ⟨judged, _ | _ | _⟩ <;>
        rw [hjudge] at hjudged
      · exact hjudged
      · exact hjudged.trans (sameCache_installCached locate library judged cached)
      · exact hjudged

theorem certificates_of_cached {config : AcmeConfig F C K} {found : CertificateCacheData × List C × C}
    (h : cachedCertificates locate library config = some found) :
    (∃ value, getFromCache locate config.files config.certificateCache config.certificateCacheKey =
      some value ∧ library.fromSlice value = some found.1) ∧
      library.certificates found.1.certificateChainPem = some found.2.1 := by
  unfold cachedCertificates at h
  obtain ⟨data, hdata, hrest⟩ := Option.bind_eq_some_iff.1 h
  obtain ⟨certs, hcerts, hfirst⟩ := Option.bind_eq_some_iff.1 hrest
  obtain ⟨certificate, -, rfl⟩ := Option.map_eq_some_iff.1 hfirst
  exact ⟨Option.bind_eq_some_iff.1 hdata, hcerts⟩

/-- What a check installs is in the cache. -/
theorem exists_cached_of_checkInstalls {config : AcmeConfig F C K} {live cached : Query}
    {data : CertificateCacheData} (h : checkInstalls locate library config live cached = some data) :
    ∃ value, getFromCache locate config.files config.certificateCache config.certificateCacheKey =
      some value ∧ library.fromSlice value = some data := by
  have hinstalls : ∀ later, SameCache config later → installs locate library later cached = some data →
      ∃ value, getFromCache locate config.files config.certificateCache config.certificateCacheKey =
        some value ∧ library.fromSlice value = some data := by
    intro later hsame hinstalls
    unfold installs at hinstalls
    rw [hsame.cachedCertificates_eq] at hinstalls
    split at hinstalls
    · next certs certificate hfound _ =>
        obtain rfl := Option.some.inj hinstalls
        exact (certificates_of_cached locate library hfound).1
    · cases hinstalls
  unfold checkInstalls at h
  split at h
  · exact hinstalls config ⟨rfl, rfl, rfl⟩ h
  · next certificate _ =>
      have hjudged := (sameCache_refresh library (fun fetchedAt retryAfter => fetchedAt + retryAfter) config
        certificate live).trans (sameCache_judge library _ certificate live.systemTime)
      dsimp only at h
      rcases hjudge : judge library (refresh library (fun fetchedAt retryAfter => fetchedAt + retryAfter)
        config certificate live) certificate live.systemTime with ⟨judged, _ | _ | _⟩ <;>
        rw [hjudge] at hjudged h
      · cases h
      · exact hinstalls judged hjudged h
      · cases h

theorem exists_cached_of_stepInstalls {config : AcmeConfig F C K} {action : Action}
    {data : CertificateCacheData} (h : stepInstalls locate library config action = some data) :
    ∃ value, getFromCache locate config.files config.certificateCache config.certificateCacheKey =
      some value ∧ library.fromSlice value = some data := by
  cases action with
  | preload live cached => exact exists_cached_of_checkInstalls locate library h
  | provision account live cached order =>
      cases account with
      | false => cases h
      | true => exact exists_cached_of_checkInstalls locate library h

/-- The order of a use is that of its action. -/
theorem stepOrders_eq_some {config : AcmeConfig F C K} {action : Action} {order : CertificateCacheData × Write}
    (h : stepOrders locate library config action = some order) :
    ∃ live cached, action = .provision true live cached (some order) := by
  unfold stepOrders at h
  split at h
  · next live cached _ =>
      split at h
      · exact ⟨live, cached, by rw [h]⟩
      · cases h
  · cases h

/-- The data of an order are set in the cache. -/
theorem installOrdered_cache [DecidableEq F] (config : AcmeConfig F C K) {data : CertificateCacheData}
    {value : Bytes} (hvalue : library.toVec data = .ok value) (write : Write) :
    (installOrdered locate library config data write).certificateCacheKey = config.certificateCacheKey ∧
      ((installOrdered locate library config data write).files,
          (installOrdered locate library config data write).certificateCache) =
        (setInCacheWith locate config.files config.certificateCache config.certificateCacheKey value
          write).2 := by
  rw [installOrdered, hvalue]
  dsimp only
  split <;> exact ⟨rfl, rfl⟩

/-- What a use does to the files and the cache: an order that succeeds is set in the cache, and nothing else
is. -/
theorem step_cache [DecidableEq F] (config : AcmeConfig F C K) (action : Action) :
    (step locate library config action).certificateCacheKey = config.certificateCacheKey ∧
      ((∃ data write value, stepOrders locate library config action = some (data, write) ∧
          library.toVec data = .ok value ∧
          ((step locate library config action).files, (step locate library config action).certificateCache) =
            (setInCacheWith locate config.files config.certificateCache config.certificateCacheKey value
              write).2) ∨
        (∀ order, stepOrders locate library config action = some order →
            ∃ err, library.toVec order.1 = .error err) ∧
          SameCache config (step locate library config action)) := by
  cases action with
  | preload live cached =>
      have hsame := sameCache_check locate library config { live with account := false }
        { cached with account := false }
      exact ⟨hsame.certificateCacheKey, .inr ⟨fun _ h => (by cases h), hsame⟩⟩
  | provision account live cached order =>
      cases account with
      | false => exact ⟨rfl, .inr ⟨fun _ h => (by cases h), ⟨rfl, rfl, rfl⟩⟩⟩
      | true =>
          have hsame := sameCache_check locate library config { live with account := true }
            { cached with account := true }
          obtain ⟨checked, result, hcheck⟩ : ∃ checked result,
              checkCertificateValidityOrInstallCached locate library config { live with account := true }
                { cached with account := true } = (checked, result) := ⟨_, _, rfl⟩
          rw [hcheck] at hsame
          rw [stepOrders, step, hcheck]
          have hkept : ∀ other : AcmeConfig F C K, SameCache checked other → SameCache config other :=
            fun other h => hsame.trans h
          rcases result with err | _ | _
          · exact ⟨hsame.certificateCacheKey, .inr ⟨fun _ h => (by cases h), hsame⟩⟩
          · cases order with
            | none =>
                exact ⟨hsame.certificateCacheKey, .inr ⟨fun _ h => (by cases h), hkept _ ⟨rfl, rfl, rfl⟩⟩⟩
            | some order =>
                obtain ⟨data, write⟩ := order
                dsimp only
                cases hvalue : library.toVec data with
                | error err =>
                    have hsame' : installOrdered locate library (checked.note .ordered) data write =
                        checked.note .ordered := by
                      rw [installOrdered, hvalue]
                    rw [hsame']
                    refine ⟨hsame.certificateCacheKey, .inr ⟨fun other h => ?_, hkept _ ⟨rfl, rfl, rfl⟩⟩⟩
                    obtain rfl := Option.some.inj h
                    exact ⟨err, hvalue⟩
                | ok value =>
                    obtain ⟨hkey, hset⟩ :=
                      installOrdered_cache locate library (checked.note .ordered) hvalue write
                    refine ⟨hkey.trans hsame.certificateCacheKey, .inl ⟨data, write, value, rfl, hvalue, ?_⟩⟩
                    rw [← hsame.files, ← hsame.certificateCache, ← hsame.certificateCacheKey]
                    exact hset
          · exact ⟨hsame.certificateCacheKey, .inr ⟨fun _ h => (by cases h), hsame⟩⟩

end Check

/-! ## The runs -/

section Runs

variable {F C D K : Type} {hash : Str → Str} {locate : PathBuf → F} {library : Library C D K}

/-- The cache of a configuration is that of its settings, and in memory there is only what was obtained for
them. -/
structure CacheOf (hash : Str → Str) (library : Library C D K)
    (obtained : List (Settings × CertificateCacheData)) (settings : Settings) (config : AcmeConfig F C K) :
    Prop where
  key : config.certificateCacheKey = settings.getCertificateCacheKey hash
  file : ∀ path, settings.cachePath = some path →
    config.certificateCache = .file (path.join (settings.appendHash hash))
  memory : settings.cachePath = none → ∃ memory, config.certificateCache = .memory memory ∧
    ∀ value, memory.lookup (settings.getCertificateCacheKey hash) = some value →
      ∃ data, (settings, data) ∈ obtained ∧ library.toVec data = .ok value

/-- A file starts with what was obtained for the settings in its note. -/
def FileOf (hash : Str → Str) (locate : PathBuf → F) (library : Library C D K) (used : Set Settings)
    (obtained : List (Settings × CertificateCacheData)) (file : F) (origin : Option Settings)
    (bytes : Bytes) : Prop :=
  ∃ settings ∈ origin, settings ∈ used ∧ settings.file hash locate = some file ∧
    ∃ data value tail, (settings, data) ∈ obtained ∧ library.toVec data = .ok value ∧ bytes = value ++ tail

/-- What holds in every run. -/
structure Inv (hash : Str → Str) (locate : PathBuf → F) (library : Library C D K) (used : Set Settings)
    (world : World F C K) : Prop where
  installed : Matches world
  files : ∀ file bytes, contentOf world.files file = some bytes → (library.fromSlice bytes).isSome = true →
    FileOf hash locate library used world.obtained file (world.origins file) bytes
  configs : ∀ x ∈ world.configs, x.1 ∈ used ∧ CacheOf hash library world.obtained x.1 x.2

theorem CacheOf.mono {obtained : List (Settings × CertificateCacheData)} {settings : Settings}
    {config : AcmeConfig F C K} (h : CacheOf hash library obtained settings config)
    (more : List (Settings × CertificateCacheData)) :
    CacheOf hash library (obtained ++ more) settings config := by
  refine ⟨h.key, h.file, fun hnone => ?_⟩
  obtain ⟨memory, hcache, hmemory⟩ := h.memory hnone
  refine ⟨memory, hcache, fun value hvalue => ?_⟩
  obtain ⟨data, hdata, hencoded⟩ := hmemory value hvalue
  exact ⟨data, List.mem_append_left _ hdata, hencoded⟩

theorem FileOf.mono {used : Set Settings} {obtained more : List (Settings × CertificateCacheData)} {file : F}
    {origin : Option Settings} {bytes : Bytes}
    (h : FileOf hash locate library used obtained file origin bytes) :
    FileOf hash locate library used (obtained ++ more) file origin bytes := by
  obtain ⟨settings, horigin, hused, hfile, data, value, tail, hdata, hvalue, hbytes⟩ := h
  exact ⟨settings, horigin, hused, hfile, data, value, tail, List.mem_append_left _ hdata, hvalue, hbytes⟩

theorem cacheOf_acmeConfig (obtained : List (Settings × CertificateCacheData)) (settings : Settings)
    (files : Files F) :
    CacheOf hash library obtained settings (settings.acmeConfig (C := C) (K := K) hash files) := by
  refine ⟨rfl, fun path hpath => ?_, fun hnone => ⟨∅, ?_, fun value hvalue => ?_⟩⟩
  · unfold Settings.acmeConfig AcmeConfig.initial Settings.certificateCache
    rw [hpath]
  · unfold Settings.acmeConfig AcmeConfig.initial Settings.certificateCache
    rw [hnone]
  · rw [AList.lookup_empty] at hvalue
    cases hvalue

/-- What is installed from the cache was obtained for the configuration, when its file was written for its
ACME directory. -/
theorem obtainedFor_of_cached {used : Set Settings} {world : World F C K}
    (h : Inv hash locate library used world)
    (hhash : Function.Injective hash) (hnames : DistinctNames hash locate used) (hreads : ReadsFirst library)
    {settings : Settings} (hused : settings ∈ used) {config : AcmeConfig F C K}
    (hcache : CacheOf hash library world.obtained settings config)
    (hown : ∀ file ∈ settings.file hash locate, ∀ origin ∈ world.origins file,
      origin.directory = settings.directory)
    {value : Bytes} {data : CertificateCacheData}
    (hvalue : getFromCache locate world.files config.certificateCache config.certificateCacheKey = some value)
    (hread : library.fromSlice value = some data) : ObtainedFor world settings data := by
  rw [hcache.key] at hvalue
  cases hpath : settings.cachePath with
  | none =>
      obtain ⟨memory, hmemory, hlookup⟩ := hcache.memory hpath
      rw [hmemory] at hvalue
      obtain ⟨stored, hobtained, hencoded⟩ := hlookup value hvalue
      have hsame : data = stored := hreads stored value [] data hencoded (by rwa [List.append_nil])
      rw [hsame]
      exact ⟨settings, hobtained, rfl, rfl, rfl⟩
  | some path =>
      have hfile : settings.file hash locate = some (locate ((path.join (settings.appendHash hash)).join
          (settings.getCertificateCacheKey hash))) := by
        rw [Settings.file, hpath, Option.map_some]
      rw [hcache.file path hpath, getFromCache, toOption_readFile] at hvalue
      obtain ⟨origin, horigin, horiginUsed, horiginFile, stored, written, tail, hobtained, hencoded, rfl⟩ :=
        h.files _ value hvalue (by rw [hread]; rfl)
      have hsame : data = stored := hreads stored written tail data hencoded hread
      obtain ⟨hdirectory, hkey⟩ := hnames origin horiginUsed settings hused
        (horiginFile.trans hfile.symm) (by rw [horiginFile]; rfl)
      have hhost := sniHostname_eq_of_appendHash hhash hdirectory
      rw [hsame]
      refine ⟨origin, hobtained, congrArg (fun host => [host]) hhost, profile_eq_of_key hhash hhost hkey, ?_⟩
      exact hown _ hfile origin horigin

variable [DecidableEq F]

theorem setInCacheWith_memory (files : Files F) (memory : HashMap Str Bytes) (key : Str) (value : Bytes)
    (write : Write) : (setInCacheWith locate files (.memory memory) key value write).2 =
      (files, .memory (memory.insert key value)) := rfl

/-- What a write leaves in the files, with its note. -/
theorem files_of_write {used : Set Settings} {world : World F C K} (h : Inv hash locate library used world)
    {settings : Settings} (hused : settings ∈ used) {path : PathBuf} (hpath : settings.cachePath = some path)
    {data : CertificateCacheData} {value : Bytes} (hvalue : library.toVec data = .ok value) {write : Write}
    (hleaves : ∀ err left, write = .fails err left → ∀ file ∈ settings.file hash locate,
      IsReadable library left = true → left = world.files file)
    {obtained : List (Settings × CertificateCacheData)} (hnew : (settings, data) ∈ world.obtained ++ obtained) :
    ∃ after, (setInCacheWith locate world.files (.file (path.join (settings.appendHash hash)))
        (settings.getCertificateCacheKey hash) value write).2 =
          (after, .file (path.join (settings.appendHash hash))) ∧
      ∀ file bytes, contentOf after file = some bytes → (library.fromSlice bytes).isSome = true →
        FileOf hash locate library used (world.obtained ++ obtained) file
          (noteOrigin hash locate library world.origins settings data write file) bytes := by
  have hfile : settings.file hash locate = some (locate ((path.join (settings.appendHash hash)).join
      (settings.getCertificateCacheKey hash))) := by
    rw [Settings.file, hpath, Option.map_some]
  unfold noteOrigin
  rw [hvalue, hfile]
  cases write with
  | succeeds =>
      obtain ⟨after, hafter, hcontent⟩ := setInCache_file locate world.files
        (path.join (settings.appendHash hash)) (settings.getCertificateCacheKey hash) value
      refine ⟨after, ?_, fun file bytes hbytes hreads => ?_⟩
      · rw [setInCacheWith_succeeds, hafter]
      · rw [hcontent] at hbytes
        dsimp only
        split at hbytes
        · next heq =>
            obtain rfl := Option.some.inj hbytes
            rw [heq, Function.update_self]
            exact ⟨settings, rfl, hused, hfile, data, value, _, hnew, hvalue, rfl⟩
        · next hne =>
            rw [Function.update_of_ne hne]
            exact (h.files file bytes hbytes hreads).mono
  | fails err left =>
      refine ⟨_, rfl, fun file bytes hbytes hreads => ?_⟩
      rw [contentOf_update] at hbytes
      dsimp only
      split at hbytes
      · next heq =>
          -- a file that can be read is the one that was there
          obtain ⟨found, rfl, rfl⟩ := Option.map_eq_some_iff.1 hbytes
          have hreadable : IsReadable library (some found) = true := hreads
          have hkept := hleaves err _ rfl _ hfile hreadable
          rw [if_pos hreadable, heq]
          refine (h.files _ found.bytes ?_ hreads).mono
          rw [contentOf, ← hkept, Option.map_some]
      · next hne =>
          split
          · exact (h.files file bytes hbytes hreads).mono
          · rw [Function.update_of_ne hne]
            exact (h.files file bytes hbytes hreads).mono

/-- What a use leaves in the files and in the cache of its configuration. -/
theorem files_of_use {used : Set Settings} {world : World F C K} (h : Inv hash locate library used world)
    {settings : Settings} (hused : settings ∈ used) {config : AcmeConfig F C K}
    (hcache : CacheOf hash library world.obtained settings config) (index : Nat) (action : Action)
    (hleaves : ∀ data err left, stepOrders locate library { config with files := world.files } action =
      some (data, .fails err left) → ∀ file ∈ settings.file hash locate,
        IsReadable library left = true → left = world.files file) :
    (∀ file bytes, contentOf (use hash locate library world index settings config action).files file =
        some bytes → (library.fromSlice bytes).isSome = true →
      FileOf hash locate library used (use hash locate library world index settings config action).obtained
        file
        ((use hash locate library world index settings config action).origins file) bytes) ∧
      CacheOf hash library (use hash locate library world index settings config action).obtained settings
        (step locate library { config with files := world.files } action) := by
  unfold use
  dsimp only
  obtain ⟨hkey, hstep⟩ := step_cache locate library { config with files := world.files } action
  generalize step locate library { config with files := world.files } action = stepped at hkey hstep ⊢
  rcases hstep with ⟨data, write, value, horders, hvalue, hset⟩ | ⟨hnone, hsame⟩
  · rw [horders]
    have hnew : (settings, data) ∈ world.obtained ++
        (some (data, write)).toList.map fun order => (settings, order.1) :=
      List.mem_append_right _ (List.mem_singleton_self _)
    dsimp only at hset ⊢
    rw [hcache.key] at hset
    cases hpath : settings.cachePath with
    | none =>
        obtain ⟨memory, hmemory, hlookup⟩ := hcache.memory hpath
        rw [hmemory, setInCacheWith_memory] at hset
        obtain ⟨hfiles, hcacheAfter⟩ := Prod.mk.inj hset
        have hfile : settings.file hash locate = none := by
          rw [Settings.file, hpath, Option.map_none]
        unfold noteOrigin
        rw [hvalue, hfile, hfiles]
        refine ⟨fun file bytes hbytes hreads => (h.files file bytes hbytes hreads).mono,
          hkey.trans hcache.key, ?_, fun _ => ⟨_, hcacheAfter, fun found hfound => ?_⟩⟩
        · intro path hother
          cases hpath.symm.trans hother
        · rw [AList.lookup_insert] at hfound
          obtain rfl := Option.some.inj hfound
          exact ⟨data, hnew, hvalue⟩
    | some path =>
        rw [hcache.file path hpath] at hset
        obtain ⟨after, hafter, hcontent⟩ := files_of_write h hused hpath hvalue
          (fun err left hfails => hleaves data err left (hfails ▸ horders)) hnew
        rw [hafter] at hset
        obtain ⟨hfiles, hcacheAfter⟩ := Prod.mk.inj hset
        rw [hfiles]
        refine ⟨hcontent, hkey.trans hcache.key, ?_, ?_⟩
        · intro other hother
          obtain rfl := Option.some.inj (hpath.symm.trans hother)
          exact hcacheAfter
        · intro hother
          cases hpath.symm.trans hother
  · have horigins : (match stepOrders locate library { config with files := world.files } action with
        | some (data, write) => noteOrigin hash locate library world.origins settings data write
        | none => world.origins) = world.origins := by
      cases horders : stepOrders locate library { config with files := world.files } action with
      | none => rfl
      | some order =>
          obtain ⟨data, write⟩ := order
          obtain ⟨err, herr⟩ := hnone (data, write) horders
          dsimp only at herr ⊢
          unfold noteOrigin
          rw [herr]
    rw [horigins, hsame.files]
    refine ⟨fun file bytes hbytes hreads => (h.files file bytes hbytes hreads).mono, ?_⟩
    have hkept := hcache.mono ((stepOrders locate library { config with files := world.files }
      action).toList.map fun order => (settings, order.1))
    exact ⟨hkey.trans hcache.key, fun path hpath => hsame.certificateCache.trans (hkept.file path hpath),
      fun hpath => (hkept.memory hpath).imp fun memory hmemory =>
        ⟨hsame.certificateCache.trans hmemory.1, hmemory.2⟩⟩

/-- A use keeps what holds in every run, when the file was written for the ACME directory of the
configuration. -/
theorem inv_use {used : Set Settings} {world : World F C K} (h : Inv hash locate library used world)
    (hhash : Function.Injective hash) (hnames : DistinctNames hash locate used) (hreads : ReadsFirst library)
    {settings : Settings} (hused : settings ∈ used) {config : AcmeConfig F C K}
    (hcache : CacheOf hash library world.obtained settings config)
    (hown : ∀ file ∈ settings.file hash locate, ∀ origin ∈ world.origins file,
      origin.directory = settings.directory)
    (index : Nat) (action : Action)
    (hleaves : ∀ data err left, stepOrders locate library { config with files := world.files } action =
      some (data, .fails err left) → ∀ file ∈ settings.file hash locate,
        IsReadable library left = true → left = world.files file) :
    Inv hash locate library used (use hash locate library world index settings config action) := by
  obtain ⟨hfiles, hafter⟩ := files_of_use h hused hcache index action hleaves
  have hgrows : ∀ {other : Settings} {data : CertificateCacheData}, ObtainedFor world other data →
      ObtainedFor (use hash locate library world index settings config action) other data :=
    fun ⟨origin, hmem, hsame⟩ => ⟨origin, List.mem_append_left _ hmem, hsame⟩
  refine ⟨fun x hx => ?_, hfiles, fun x hx => ?_⟩
  · rcases List.mem_append.1 hx with hold | hnew
    · exact hgrows (h.installed x hold)
    · obtain ⟨data, hdata, rfl⟩ := List.mem_map.1 hnew
      obtain ⟨value, hvalue, hread⟩ :=
        exists_cached_of_stepInstalls locate library (Option.mem_toList.1 hdata)
      exact hgrows (obtainedFor_of_cached h hhash hnames hreads hused hcache hown hvalue hread)
  · rcases List.mem_or_eq_of_mem_set hx with hold | rfl
    · exact ⟨(h.configs x hold).1, (h.configs x hold).2.mono _⟩
    · exact ⟨hused, hafter⟩

theorem inv_worldStep {used : Set Settings} {world : World F C K} (h : Inv hash locate library used world)
    (hhash : Function.Injective hash) (hnames : DistinctNames hash locate used) (hreads : ReadsFirst library)
    {action : WorldAction} (hused : ∀ settings ∈ action.settings, settings ∈ used)
    (hown : OwnDirectory hash locate world action) (hleaves : LeavesFile hash locate library world action) :
    Inv hash locate library used (worldStep hash locate library world action) := by
  cases action with
  | start settings =>
      refine ⟨h.installed, h.files, fun x hx => ?_⟩
      obtain ⟨other, hother, rfl⟩ := List.mem_map.1 hx
      exact ⟨hused other hother, cacheOf_acmeConfig _ _ _⟩
  | convert settings =>
      refine ⟨h.installed, h.files, fun x hx => ?_⟩
      rcases List.mem_append.1 hx with hold | hnew
      · exact h.configs x hold
      · rw [List.mem_singleton.1 hnew]
        exact ⟨hused settings (List.mem_singleton_self _), cacheOf_acmeConfig _ _ _⟩
  | use index action =>
      unfold worldStep
      dsimp only
      cases hconfig : world.configs[index]? with
      | none => exact h
      | some x =>
          obtain ⟨hmem, hcache⟩ := h.configs x (List.mem_of_getElem? hconfig)
          refine inv_use h hhash hnames hreads hmem hcache (hown x hconfig) index action ?_
          intro data err left horders
          obtain ⟨live, cached, rfl⟩ := stepOrders_eq_some locate library horders
          exact hleaves x hconfig

/-- **Cached certificates match their configuration** in every run in which a configuration whose file was
written uses a file that was written for its own ACME directory, and in which a write that fails leaves the file
as it is or as one that cannot be read. -/
theorem matches_of_ownDirectory (hash : Str → Str) (locate : PathBuf → F) (library : Library C D K)
    (used : Set Settings) (actions : List WorldAction) (hhash : Function.Injective hash)
    (hnames : DistinctNames hash locate used) (hreads : ReadsFirst library)
    (hused : ∀ action ∈ actions, ∀ settings ∈ action.settings, settings ∈ used)
    (hown : Run.AllSteps (worldStep hash locate library) (fun world action =>
      OwnDirectory hash locate world action ∧ LeavesFile hash locate library world action) World.new actions) :
    Matches (Run.run (worldStep hash locate library) World.new actions) := by
  have hnew : Inv hash locate library used (World.new : World F C K) := by
    refine ⟨fun _ h => absurd h List.not_mem_nil, fun file bytes hbytes => ?_,
      fun _ h => absurd h List.not_mem_nil⟩
    cases hbytes
  have hstep : ∀ (world : World F C K) action,
      (OwnDirectory hash locate world action ∧ LeavesFile hash locate library world action) ∧
          (∀ settings ∈ action.settings, settings ∈ used) →
        Inv hash locate library used world →
          Inv hash locate library used (worldStep hash locate library world action) :=
    fun _ _ hok h => inv_worldStep h hhash hnames hreads hok.2 hok.1.1 hok.1.2
  exact (Run.run_invariant hstep hnew (Run.allSteps_and_of_mem hown hused)).installed

end Runs

/-! ## Staging and production -/

/-- A library that knows one chain and one key. -/
def oneChain : Library Unit Unit Unit where
  hasIdentifier _ := false
  validity _ := .ok ⟨fun _ => some (secondsBeforeRenewal * 1000000000), none⟩
  fromSlice bytes := if bytes = [1] then some ⟨"chain".toList, "key".toList⟩ else none
  toVec data := if data.certificateChainPem = "chain".toList ∧ data.privateKeyPem = "key".toList then .ok [1]
    else .error "other data".toList
  certificates _ := some [()]
  privateKey _ := some ()
  loadPrivateKey _ := .ok ()

theorem readsFirst_oneChain : ReadsFirst oneChain := by
  intro data value tail read hvalue hread
  unfold oneChain at hvalue hread
  dsimp only at hvalue hread
  split at hvalue
  · next hdata =>
      split at hread
      · rw [← Option.some.inj hread]
        obtain ⟨chain, key⟩ := data
        obtain ⟨rfl, rfl⟩ := hdata
        rfl
      · cases hread
  · cases hvalue

/-- A host with its certificate from this ACME directory. -/
def host (directory : String) : Settings :=
  ⟨some "cache".toList, 443, "example.com".toList, none, directory.toList⟩

/-- The server answers nothing about renewals. -/
def quietQuery : Query := ⟨true, 0, none, 0, 0⟩

/-- The server obtains a certificate with the first settings, and it is started again with the others. -/
def restarted (first second : Settings) : List WorldAction := [
  .start [first],
  .use 0 (.provision true quietQuery quietQuery (some (⟨"chain".toList, "key".toList⟩, .succeeds))),
  .start [second],
  .use 0 (.preload quietQuery quietQuery)]

/-- With the same directory the certificate from the cache is its own. -/
theorem restarted_matches :
    Matches (Run.run (worldStep id id oneChain) World.new (restarted (host "staging") (host "staging"))) := by
  refine matches_of_ownDirectory id id oneChain {host "staging"} _ Function.injective_id ?_
    readsFirst_oneChain ?_ ⟨⟨trivial, trivial⟩, ⟨?_, trivial⟩, ⟨trivial, trivial⟩, ⟨?_, trivial⟩, trivial⟩
  · rintro settings hsettings other hother - -
    rw [Set.mem_singleton_iff.1 hsettings, Set.mem_singleton_iff.1 hother]
    exact ⟨rfl, rfl⟩
  · intro action haction settings hsettings
    have hall : ∀ action ∈ restarted (host "staging") (host "staging"),
        ∀ settings ∈ action.settings, settings = host "staging" := by
      simp [restarted, WorldAction.settings]
    exact hall action haction settings hsettings
  · rintro x ⟨rfl⟩ file ⟨rfl⟩ origin horigin
    cases horigin
  · rintro x ⟨rfl⟩ file ⟨rfl⟩ origin horigin
    rw [← Option.some.inj (Option.mem_def.1 horigin)]

/-- A server that is started for production installs the certificate from staging. -/
theorem restarted_not_matches :
    (Run.run (worldStep id id oneChain) World.new
        (restarted (host "staging") (host "production"))).installed =
        [(host "production", ⟨"chain".toList, "key".toList⟩)] ∧
      ¬Matches (Run.run (worldStep id id oneChain) World.new
        (restarted (host "staging") (host "production"))) := by
  refine ⟨rfl, fun h => ?_⟩
  obtain ⟨origin, horigin, -, -, hdirectory⟩ := h (host "production", ⟨"chain".toList, "key".toList⟩)
    (List.mem_singleton_self _)
  have hstaging := congrArg Prod.fst (List.mem_singleton.1 horigin)
  dsimp only at hstaging hdirectory
  rw [hstaging] at hdirectory
  exact absurd hdirectory (by decide)

end Ferron.Acme.CertificateOrigin
