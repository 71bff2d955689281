import Ferron.Common.MatchLocation
import Ferron.Modules.PathCache

/-!
# Script lookups

The CGI and FastCGI modules look for the script that a request path stands for: the file itself, an
index file of a directory, or a file above the path, with the rest as its path info. They differ in
which files they take for scripts. `Finds` says which scripts a search finds. The SCGI module, and the
FastCGI module when it passes every request, take the path below the web root without a search.
-/

set_option autoImplicit false

namespace Ferron.Modules.ScriptLookup

open Ferron.Common Ferron.Http Ferron.Lib.SharedCache Ferron.Modules.PathCache

/-! ## The search -/

/-- The index files that the modules try by default. -/
def defaultIndexes : List Str :=
  ["index.php".toList, "index.cgi".toList, "index.html".toList, "index.htm".toList,
    "index.xhtml".toList]

/-- A path below `/cgi-bin`. -/
def isCgiBin (path : Str) : Bool :=
  path == "/cgi-bin".toList || "/cgi-bin/".toList.isPrefixOf path

/-- The request path with its double slashes replaced. -/
def normalizedPath (requestPath : Str) : Str := (MatchLocation.collapseLoop requestPath).1

/-- The extension of a path is one of the script extensions. -/
def hasScriptExt (exts : List Str) (path : PathBuf) : Bool :=
  match PathBuf.extension path with
  | some ext => exts.contains ('.' :: ext)
  | none => false

/-- The loop over the index files: the first one that is a file, if it is a script. -/
def indexScript (env : Environment) (isScript : PathBuf → Bool) (joined : PathBuf) :
    List Str → Option PathBuf
  | [] => none
  | index :: indexes =>
      let temp := PathBuf.join joined index
      if env.isFile temp then (if isScript temp then some temp else none)
      else indexScript env isScript joined indexes

/-- The loop over the paths above: it goes on above a file that is no script, and it stops at the
first path that is something else. -/
def pathInfoScript (env : Environment) (isScript : PathBuf → Bool) (root joined temp : PathBuf) :
    ScriptData :=
  match h : PathBuf.parent temp with
  | none => (none, none)
  | some above =>
      have _hshorter := PathBuf.parent_length_lt h
      match env.metadata above with
      | .ok .file =>
          -- a file above the web root is ignored
          if !PathBuf.startsWith above root then (none, none)
          else if isScript above then (some above, PathBuf.stripPrefix joined above)
          else pathInfoScript env isScript root joined above
      | .error .notADirectory => pathInfoScript env isScript root joined above
      | _ => (none, none)
  termination_by temp.length

/-- The script of a path, with what the path, an index file and a path above it must be. -/
def scriptData (env : Environment) (isScript isIndexScript isScriptAbove : PathBuf → Bool)
    (indexes : List Str) (root joined : PathBuf) : ScriptData :=
  match env.metadata joined with
  | .ok .file => (if isScript joined then some joined else none, none)
  | .ok .directory => (indexScript env isIndexScript joined indexes, none)
  | .ok .other => (none, none)
  | .error .notADirectory => pathInfoScript env isScriptAbove root joined joined
  | .error _ => (none, none)

/-- A script is executed under the web root, with the server it is sent to. -/
def execute (root : PathBuf) (server : Option Str) (data : ScriptData) : Outcome :=
  match data.1 with
  | some path => .script root path data.2 server
  | none => .pass

/-- The canonical path is inside the web root. -/
def isInside (env : Environment) (root joined : PathBuf) : Bool :=
  PathBuf.startsWith (env.canonical joined) root

/-! ## What a search finds -/

/-- The first of the index files that is a file. -/
def FirstFile (env : Environment) (joined : PathBuf) (indexes : List Str) (index : Str) : Prop :=
  ∃ front back, indexes = front ++ index :: back ∧
    env.isFile (PathBuf.join joined index) = true ∧
    ∀ other ∈ front, env.isFile (PathBuf.join joined other) = false

/-- A file above a path that is a script, with only what a search goes past below it. -/
inductive ScriptAbove (env : Environment) (isScript : PathBuf → Bool) (root : PathBuf) :
    PathBuf → PathBuf → Prop where
  | found {temp above : PathBuf} (hparent : PathBuf.parent temp = some above)
      (hfile : env.metadata above = .ok .file) (hroot : PathBuf.startsWith above root = true)
      (hscript : isScript above = true) : ScriptAbove env isScript root temp above
  | pastFile {temp above path : PathBuf} (hparent : PathBuf.parent temp = some above)
      (hfile : env.metadata above = .ok .file) (hroot : PathBuf.startsWith above root = true)
      (hother : isScript above = false) (habove : ScriptAbove env isScript root above path) :
      ScriptAbove env isScript root temp path
  | pastError {temp above path : PathBuf} (hparent : PathBuf.parent temp = some above)
      (herror : env.metadata above = .error .notADirectory)
      (habove : ScriptAbove env isScript root above path) : ScriptAbove env isScript root temp path

/-- The scripts of a path: the path itself, an index file of a directory or a file above. -/
inductive Finds (env : Environment) (isScript isIndexScript isScriptAbove : PathBuf → Bool)
    (indexes : List Str) (root joined : PathBuf) : PathBuf → Prop where
  | file (hfile : env.metadata joined = .ok .file) (hscript : isScript joined = true) :
      Finds env isScript isIndexScript isScriptAbove indexes root joined joined
  | index {index : Str} (hdirectory : env.metadata joined = .ok .directory)
      (hfirst : FirstFile env joined indexes index)
      (hscript : isIndexScript (PathBuf.join joined index) = true) :
      Finds env isScript isIndexScript isScriptAbove indexes root joined (PathBuf.join joined index)
  | above {path : PathBuf} (herror : env.metadata joined = .error .notADirectory)
      (habove : ScriptAbove env isScriptAbove root joined path) :
      Finds env isScript isIndexScript isScriptAbove indexes root joined path

section Search

variable {env : Environment} {isScript isIndexScript isScriptAbove : PathBuf → Bool}
  {indexes : List Str} {root joined path : PathBuf}

/-- The loop over the index files gives the first file if it is a script. -/
theorem indexScript_eq_some_iff :
    indexScript env isScript joined indexes = some path ↔
      ∃ index, FirstFile env joined indexes index ∧
        isScript (PathBuf.join joined index) = true ∧ path = PathBuf.join joined index := by
  induction indexes with
  | nil => simp [indexScript, FirstFile]
  | cons name names ih =>
      rw [indexScript]
      cases hfile : env.isFile (PathBuf.join joined name) with
      | true =>
          have hfirst : ∀ index, FirstFile env joined (name :: names) index ↔ index = name := by
            intro index
            constructor
            · rintro ⟨front, back, heq, -, hfront⟩
              cases front with
              | nil => exact (List.cons.inj heq).1.symm
              | cons other front =>
                  obtain rfl := (List.cons.inj heq).1
                  exact absurd (hfile.symm.trans (hfront name List.mem_cons_self)) (by simp)
            · rintro rfl
              exact ⟨[], names, rfl, hfile, fun _ hmem => absurd hmem (by simp)⟩
          simp only [hfirst, exists_eq_left]
          cases hscript : isScript (PathBuf.join joined name) with
          | true => simp [eq_comm]
          | false => simp
      | false =>
          rw [if_neg (by simp), ih]
          refine exists_congr fun index => and_congr_left fun _ => ?_
          constructor
          · rintro ⟨front, back, rfl, hindex, hfront⟩
            refine ⟨name :: front, back, rfl, hindex, ?_⟩
            intro other hmem
            rcases List.mem_cons.1 hmem with rfl | hother
            · exact hfile
            · exact hfront other hother
          · rintro ⟨front, back, heq, hindex, hfront⟩
            cases front with
            | nil =>
                obtain rfl := (List.cons.inj heq).1
                exact absurd (hfile.symm.trans hindex) (by simp)
            | cons other front =>
                obtain ⟨-, rfl⟩ := List.cons.inj heq
                exact ⟨front, back, rfl, hindex, fun o ho => hfront o (List.mem_cons_of_mem _ ho)⟩

/-- One step up of the loop over the paths above. -/
theorem pathInfoScript_of_parent {temp above : PathBuf} (hparent : PathBuf.parent temp = some above) :
    pathInfoScript env isScript root joined temp =
      match env.metadata above with
      | .ok .file =>
          if !PathBuf.startsWith above root then (none, none)
          else if isScript above then (some above, PathBuf.stripPrefix joined above)
          else pathInfoScript env isScript root joined above
      | .error .notADirectory => pathInfoScript env isScript root joined above
      | _ => (none, none) := by
  rw [pathInfoScript]
  split
  · next hnone => exact absurd (hparent.symm.trans hnone) (by simp)
  · next above' hsome =>
      obtain rfl := Option.some.inj (hparent.symm.trans hsome)
      rfl

/-- The loop over the paths above gives the script above. -/
theorem pathInfoScript_eq_some_iff {temp : PathBuf} :
    (pathInfoScript env isScript root joined temp).1 = some path ↔
      ScriptAbove env isScript root temp path := by
  constructor
  · intro h
    induction hlength : temp.length using Nat.strong_induction_on generalizing temp with
    | _ n ih =>
        cases hparent : PathBuf.parent temp with
        | none =>
            rw [pathInfoScript] at h
            split at h
            · exact absurd h (by simp)
            · next above' hsome => exact absurd (hparent.symm.trans hsome) (by simp)
        | some above =>
            have hshorter : above.length < n := by
              rw [← hlength]
              exact PathBuf.parent_length_lt hparent
            rw [pathInfoScript_of_parent hparent] at h
            split at h
            · next hfile =>
                split at h
                · exact absurd h (by simp)
                · next hroot =>
                    have hinside : PathBuf.startsWith above root = true := by simpa using hroot
                    split at h
                    · next hscript =>
                        obtain rfl := Option.some.inj h
                        exact .found hparent hfile hinside hscript
                    · next hscript =>
                        exact .pastFile hparent hfile hinside (by simpa using hscript)
                          (ih _ hshorter h rfl)
            · next herror => exact .pastError hparent herror (ih _ hshorter h rfl)
            · exact absurd h (by simp)
  · intro h
    induction h with
    | found hparent hfile hroot hscript =>
        rw [pathInfoScript_of_parent hparent, hfile]
        simp [hroot, hscript]
    | pastFile hparent hfile hroot hother _ ih =>
        rw [pathInfoScript_of_parent hparent, hfile]
        simpa [hroot, hother] using ih
    | pastError hparent herror _ ih =>
        rw [pathInfoScript_of_parent hparent, herror]
        exact ih

/-- The script of a path is what the search finds. -/
theorem scriptData_eq_some_iff :
    (scriptData env isScript isIndexScript isScriptAbove indexes root joined).1 = some path ↔
      Finds env isScript isIndexScript isScriptAbove indexes root joined path := by
  rw [scriptData]
  constructor
  · intro h
    split at h
    · next hfile =>
        dsimp only at h
        split at h
        · next hscript =>
            obtain rfl := Option.some.inj h
            exact .file hfile hscript
        · exact absurd h (by simp)
    · next hdirectory =>
        obtain ⟨index, hfirst, hscript, rfl⟩ := indexScript_eq_some_iff.1 h
        exact .index hdirectory hfirst hscript
    · exact absurd h (by simp)
    · next herror => exact .above herror (pathInfoScript_eq_some_iff.1 h)
    · exact absurd h (by simp)
  · intro h
    cases h with
    | file hfile hscript =>
        rw [hfile]
        exact if_pos hscript
    | index hdirectory hfirst hscript =>
        rw [hdirectory]
        exact indexScript_eq_some_iff.2 ⟨_, hfirst, hscript, rfl⟩
    | above herror habove =>
        rw [herror]
        exact pathInfoScript_eq_some_iff.2 habove

end Search

end Ferron.Modules.ScriptLookup

/-! ## The CGI module -/

namespace Ferron.Modules.CgiScript

open Ferron.Common Ferron.Http Ferron.Lib.SharedCache Ferron.Modules.PathCache
  Ferron.Modules.ScriptLookup

/-- The extensions of scripts. -/
def cgiScriptExts (config : ServerConfiguration) : List Str :=
  scriptExts "cgi_extension".toList config

/-- The script of a request path. For an index file the double slashes of the path stay. -/
def cgiScript (env : Environment) (config : ServerConfiguration) (root : PathBuf)
    (requestPath : Str) : Except Outcome ScriptData :=
  match joinedPathbuf env root requestPath with
  | none => .error (.status 400 [])
  | some joined =>
      if disableUrlSanitizer config && !isInside env root joined then .error (.status 403 [])
      else
        let isScript := fun path =>
          isCgiBin (normalizedPath requestPath) || hasScriptExt (cgiScriptExts config) path
        let isIndexScript := fun path =>
          isCgiBin requestPath || hasScriptExt (cgiScriptExts config) path
        .ok (scriptData env isScript isIndexScript isScript (indexes defaultIndexes config) root
          joined)

/-- The key of a request in the cache. -/
def key (config : ServerConfiguration) (request : Request) : PathCacheKey :=
  .cgiPath (cacheKey config.filters request.uri.path)

/-- `request_handler`. -/
def requestHandler (env : Environment) (config : ServerConfiguration) (request : Request) :
    PathProgram :=
  match wwwroot config with
  | none => .done .pass
  | some root =>
      if isBadPath request.uri.path then .done (.status 400 [])
      else
        .cached (key config request)
          (cgiScript env config (env.wwwrootPathbuf root) request.uri.path)
          (execute (env.wwwrootPathbuf root) none)

/-- The script of a request under its own configuration. -/
def Decides (env : Environment) (request : PathRequest) (data : ScriptData) : Prop :=
  ∃ root, request.root = some root ∧
    cgiScript env request.config (env.wwwrootPathbuf root) request.path = .ok data

/-- The lookups of two requests depend on the same things, and if the first one has to check for path
traversal, then its path passes. -/
structure SameLookup (env : Environment) (request owner : PathRequest) : Prop where
  root : request.root = owner.root
  path : request.path = owner.path
  indexes : indexes defaultIndexes request.config = indexes defaultIndexes owner.config
  exts : cgiScriptExts request.config = cgiScriptExts owner.config
  inside : disableUrlSanitizer request.config = true → ∀ root joined, request.root = some root →
    joinedPathbuf env (env.wwwrootPathbuf root) request.path = some joined →
      isInside env (env.wwwrootPathbuf root) joined = true

variable {env : Environment} {request owner : PathRequest} {data : ScriptData}

theorem Decides.of_sameLookup (hdecides : Decides env owner data)
    (h : SameLookup env request owner) : Decides env request data := by
  obtain ⟨root, hroot, hscript⟩ := hdecides
  rw [← h.root] at hroot
  rw [← h.path, cgiScript] at hscript
  refine ⟨root, hroot, ?_⟩
  rw [cgiScript]
  cases hjoined : joinedPathbuf env (env.wwwrootPathbuf root) request.path with
  | none =>
      rw [hjoined] at hscript
      exact absurd hscript (by simp)
  | some joined =>
      have hpasses : (disableUrlSanitizer request.config &&
          !isInside env (env.wwwrootPathbuf root) joined) = false := by
        cases hdisable : disableUrlSanitizer request.config with
        | false => rfl
        | true => simp [h.inside hdisable root joined hroot hjoined]
      rw [hjoined] at hscript
      dsimp only at hscript ⊢
      rw [hpasses, if_neg (by simp), h.indexes, h.exts]
      split at hscript
      · exact absurd hscript (by simp)
      · exact hscript

variable {puts : PathRequest → (key : PathCacheKey) → key.Value → Prop}
  {agree : PathRequest → PathRequest → PathCacheKey → Prop}

/-- The handler stores what the request decides, and it is sound when it finds only this. -/
theorem requestHandler_sound
    (hput : ∀ data, Decides env request data →
      puts request (key request.config request.request) data)
    (hfound : ∀ owner data, agree request owner (key request.config request.request) →
      puts owner (key request.config request.request) data → Decides env request data) :
    (requestHandler env request.config request.request).Sound puts agree request
      (requestHandler env request.config request.request).fresh := by
  unfold requestHandler
  split
  · rfl
  · rename_i root hroot
    split
    · rfl
    · apply Program.cached_sound
      · intro data hdata
        exact hput data ⟨root, hroot, hdata⟩
      · intro owner data hagree hputs
        obtain ⟨root', hroot', hdata⟩ := hfound owner data hagree hputs
        obtain rfl := Option.some.inj (hroot.symm.trans hroot')
        exact hdata

end Ferron.Modules.CgiScript

/-! ## The FastCGI module -/

namespace Ferron.Modules.FcgiScript

open Ferron.Common Ferron.Http Ferron.Lib.SharedCache Ferron.Modules.PathCache
  Ferron.Modules.ScriptLookup

/-- The server address of the `fcgi` entry. -/
def fcgiServer (config : ServerConfiguration) : Option Str :=
  ((config.getEntry "fcgi".toList).bind fun entry => entry.values.head?).bind
    ServerConfigurationValue.asStr

/-- The server address of the `fcgi_php` entry. -/
def fcgiPhpServer (config : ServerConfiguration) : Option Str :=
  ((config.getEntry "fcgi_php".toList).bind fun entry => entry.values.head?).bind
    ServerConfigurationValue.asStr

/-- `fastcgi_to`: the server. -/
def fastcgiTo (config : ServerConfiguration) : Option Str :=
  (fcgiServer config).or (fcgiPhpServer config)

/-- `fastcgi_pass`: every request is passed to the server. -/
def fastcgiPass (config : ServerConfiguration) : Bool :=
  (fcgiServer config).isSome &&
    (((config.getEntry "fcgi".toList).bind fun entry => entry.props.lookup "pass".toList).bind
      ServerConfigurationValue.asBool).getD true

/-- The extensions of scripts. -/
def fastcgiScriptExts (config : ServerConfiguration) : List Str :=
  if (config.getEntry "fcgi".toList).isNone && (config.getEntry "fcgi_php".toList).isSome then
    [".php".toList]
  else scriptExts "fcgi_extension".toList config

/-- What is passed to the server without a search: the joined path, with the request path behind the
FastCGI path as its path info. Requests outside the FastCGI path are not passed. -/
def passRequest (env : Environment) (config : ServerConfiguration) (server fastcgiPath : Str)
    (requestPath : Str) : Option Outcome :=
  let canonicalPath :=
    if fastcgiPath.getLast? = some '/' then fastcgiPath.dropLast else fastcgiPath
  let withSlashes := if requestPath = canonicalPath then requestPath ++ ['/'] else requestPath
  if canonicalPath.isPrefixOf withSlashes then
    let stripped := withSlashes.drop canonicalPath.length
    let root := env.wwwrootPathbuf ((wwwroot config).getD "/nonexistent".toList)
    match joinedPathbuf env root requestPath with
    | none => some (.status 400 [])
    | some joined =>
        if disableUrlSanitizer config && !isInside env root joined then some (.status 403 [])
        else
          some (.script root joined
            (if stripped.head? = some '/' then some stripped.tail else none) (some server))
  else none

/-- The script of a request path. The path above a script may be in `/cgi-bin`, the script itself and
an index file must have the extension. -/
def fcgiScript (env : Environment) (config : ServerConfiguration) (root : PathBuf)
    (requestPath : Str) : Except Outcome ScriptData :=
  match joinedPathbuf env root requestPath with
  | none => .error (.status 400 [])
  | some joined =>
      let isScript := hasScriptExt (fastcgiScriptExts config)
      let isScriptAbove := fun path => isCgiBin (normalizedPath requestPath) || isScript path
      .ok (scriptData env isScript isScript isScriptAbove (indexes defaultIndexes config) root
        joined)

/-- The key of a request in the cache. -/
def key (config : ServerConfiguration) (request : Request) : PathCacheKey :=
  .fcgiPath (cacheKey config.filters request.uri.path)

/-- `request_handler`. -/
def requestHandler (env : Environment) (config : ServerConfiguration) (request : Request) :
    PathProgram :=
  match fastcgiTo config with
  | none => .done .pass
  | some server =>
      if isBadPath request.uri.path then .done (.status 400 [])
      else
        match (if fastcgiPass config then
            passRequest env config server "/".toList request.uri.path
          else none) with
        | some outcome => .done outcome
        | none =>
            match wwwroot config with
            | none => .done .pass
            | some root =>
                .cached (key config request)
                  (fcgiScript env config (env.wwwrootPathbuf root) request.uri.path)
                  (execute (env.wwwrootPathbuf root) (some server))

/-- The script of a request under its own configuration. -/
def Decides (env : Environment) (request : PathRequest) (data : ScriptData) : Prop :=
  ∃ root, request.root = some root ∧
    fcgiScript env request.config (env.wwwrootPathbuf root) request.path = .ok data

/-- The lookups of two requests depend on the same things. -/
structure SameLookup (request owner : PathRequest) : Prop where
  root : request.root = owner.root
  path : request.path = owner.path
  indexes : indexes defaultIndexes request.config = indexes defaultIndexes owner.config
  exts : fastcgiScriptExts request.config = fastcgiScriptExts owner.config

variable {env : Environment} {request owner : PathRequest} {data : ScriptData}

theorem Decides.of_sameLookup (hdecides : Decides env owner data) (h : SameLookup request owner) :
    Decides env request data := by
  obtain ⟨root, hroot, hscript⟩ := hdecides
  refine ⟨root, h.root.trans hroot, ?_⟩
  rw [fcgiScript, h.path, h.indexes, h.exts]
  exact hscript

variable {puts : PathRequest → (key : PathCacheKey) → key.Value → Prop}
  {agree : PathRequest → PathRequest → PathCacheKey → Prop}

/-- The handler stores what the request decides, and it is sound when it finds only this. -/
theorem requestHandler_sound
    (hput : ∀ data, Decides env request data →
      puts request (key request.config request.request) data)
    (hfound : ∀ owner data, agree request owner (key request.config request.request) →
      puts owner (key request.config request.request) data → Decides env request data) :
    (requestHandler env request.config request.request).Sound puts agree request
      (requestHandler env request.config request.request).fresh := by
  unfold requestHandler
  split
  · rfl
  · split
    · rfl
    · split
      · rfl
      · split
        · rfl
        · rename_i root hroot
          apply Program.cached_sound
          · intro data hdata
            exact hput data ⟨root, hroot, hdata⟩
          · intro owner data hagree hputs
            obtain ⟨root', hroot', hdata⟩ := hfound owner data hagree hputs
            obtain rfl := Option.some.inj (hroot.symm.trans hroot')
            exact hdata

end Ferron.Modules.FcgiScript

/-! ## The SCGI module -/

namespace Ferron.Modules.ScgiScript

open Ferron.Common Ferron.Http Ferron.Lib.SharedCache Ferron.Modules.PathCache
  Ferron.Modules.ScriptLookup

/-- `scgi_to`: the server. -/
def scgiTo (config : ServerConfiguration) : Option Str :=
  ((config.getEntry "scgi".toList).bind fun entry => entry.values.head?).bind
    ServerConfigurationValue.asStr

/-- `request_handler`: every request is passed to the server. -/
def requestHandler (env : Environment) (config : ServerConfiguration) (request : Request) :
    PathProgram :=
  match scgiTo config with
  | none => .done .pass
  | some server =>
      if isBadPath request.uri.path then .done (.status 400 [])
      else
        let root := env.wwwrootPathbuf ((wwwroot config).getD "/nonexistent".toList)
        match joinedPathbuf env root request.uri.path with
        | none => .done (.status 400 [])
        | some joined =>
            if disableUrlSanitizer config && !isInside env root joined then .done (.status 403 [])
            else .done (.script root joined (some request.uri.path.tail) (some server))

end Ferron.Modules.ScgiScript
