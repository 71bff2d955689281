import Ferron.Modules.ScriptLookup
import Ferron.Modules.StaticLookup

/-!
# Confinement to the web root

With the URL sanitizer off, the static file, CGI, SCGI and FastCGI modules compare the canonical form of
the joined path with the web root themselves. What they select then has a canonical form inside the
canonical web root exactly when it is so for everything that is selected without a sound check
(`confined_iff`): a script from the cache, every script of the FastCGI module that does not pass all
requests, an index file, a file above the path, a precompressed variant, a path without a canonical form,
and any path when the web root is absolute and not canonical. A check of the static file module may also
be answered by its cache.

What the lookups find is arbitrary in this.
-/

set_option autoImplicit false

namespace Ferron.Modules.PathConfinement

open Ferron.Common Ferron.Http Ferron.Lib.SharedCache Ferron.Modules.PathCache
  Ferron.Modules.ScriptLookup

/-- The modules that select a file below the web root. -/
inductive FileHandler where
  | staticFile
  | cgi
  | scgi
  | fcgi
  deriving DecidableEq

section Confinement

-- The file system, the codings of precompressed files that requests accept, and what the lookups find.
variable (env : Environment) (codings : Request → PathBuf → List Str)
  (config : ServerConfiguration) (request : Request)
  (find : (key : PathCacheKey) → Option key.Value)

/-- The handler of a request, as a program on the caches. -/
def handle : FileHandler → PathProgram
  | .staticFile => StaticLookup.requestHandler env config request
  | .cgi => CgiScript.requestHandler env config request
  | .scgi => ScgiScript.requestHandler env config request
  | .fcgi => FcgiScript.requestHandler env config request

/-- The path that an outcome serves or passes as the script. -/
def selected : Outcome → Option PathBuf
  | .script _ path _ _ => some path
  | .found path kind => StaticLookup.served env codings config request path kind
  | _ => none

/-- The web root; the SCGI and FastCGI modules have a default. -/
def webRoot : PathBuf := (wwwroot config).getD "/nonexistent".toList

/-- The web root as the script modules take it. -/
def scriptRoot : PathBuf := env.wwwrootPathbuf (webRoot config)

/-- A path has a canonical form inside the canonical web root. -/
def Inside (path : PathBuf) : Prop :=
  ∃ canonical, env.canonicalize path = some canonical ∧
    PathBuf.startsWith canonical (env.canonical (webRoot config)) = true

/-- Everything that a handler selects is inside. -/
def Confined (handler : FileHandler) : Prop :=
  ∀ path, selected env codings config request ((handle env config request handler).answer find) =
    some path → Inside env config path

/-! ## What is selected without a sound check -/

/-- The comparison of a path with the web root that the script modules take is one of canonical forms. -/
structure SoundCheck (joined : PathBuf) : Prop where
  canonical : env.canonicalize joined ≠ none
  root : (scriptRoot env config).components = (env.canonical (webRoot config)).components

/-- The path below the web root that the script modules take, when it passes their check. -/
def PassesCheck (joined : PathBuf) : Prop :=
  joinedPathbuf env (scriptRoot env config) request.uri.path = some joined ∧
    isInside env (scriptRoot env config) joined = true

/-- What is passed to a server without a search is inside. -/
def PassedInside : Prop :=
  ∀ joined, PassesCheck env config request joined → ¬SoundCheck env config joined →
    Inside env config joined

/-- What the CGI module finds for a path. -/
def CgiFinds (joined path : PathBuf) : Prop :=
  let isScript := fun path => isCgiBin (normalizedPath request.uri.path) ||
    hasScriptExt (CgiScript.cgiScriptExts config) path
  let isIndexScript := fun path => isCgiBin request.uri.path ||
    hasScriptExt (CgiScript.cgiScriptExts config) path
  Finds env isScript isIndexScript isScript (indexes defaultIndexes config) (scriptRoot env config)
    joined path

/-- What the FastCGI module finds for a path. -/
def FcgiFinds (joined path : PathBuf) : Prop :=
  let isScript := hasScriptExt (FcgiScript.fastcgiScriptExts config)
  let isScriptAbove := fun path => isCgiBin (normalizedPath request.uri.path) || isScript path
  Finds env isScript isScript isScriptAbove (indexes defaultIndexes config) (scriptRoot env config)
    joined path

/-- The CGI module: what comes from the cache, and what is found other than a path with a sound check,
is inside. -/
structure CgiGuarded : Prop where
  cached : ∀ data : ScriptData, find (CgiScript.key config request) = some data →
    ∀ path ∈ data.1, Inside env config path
  searched : find (CgiScript.key config request) = none →
    ∀ joined path, PassesCheck env config request joined → CgiFinds env config request joined path →
      (path = joined → ¬SoundCheck env config joined) → Inside env config path

/-- The FastCGI module: without a sound check what is passed is inside; when not everything is passed,
all that is found is inside. -/
structure FcgiGuarded : Prop where
  passed : FcgiScript.fastcgiPass config = true → PassedInside env config request
  cached : FcgiScript.fastcgiPass config = false → wwwroot config ≠ none →
    ∀ data : ScriptData, find (FcgiScript.key config request) = some data →
      ∀ path ∈ data.1, Inside env config path
  searched : FcgiScript.fastcgiPass config = false → wwwroot config ≠ none →
    find (FcgiScript.key config request) = none →
    ∀ joined path, joinedPathbuf env (scriptRoot env config) request.uri.path = some joined →
      FcgiFinds env config request joined path → Inside env config path

/-- What the check of the static file module says of a path. -/
def checkResult (path : PathBuf) : Bool :=
  let allowed : Option Bool := find (.pathTraversalCheck path)
  allowed.getD (StaticLookup.isAllowed env (webRoot config) path)

/-- The check of a path is made for the request, and it compares canonical forms. -/
structure FreshCheck (path : PathBuf) : Prop where
  missed : find (.pathTraversalCheck path) = none
  canonical : env.canonicalize path ≠ none

/-- The static file module: what is served other than a path with a fresh check is inside. -/
structure StaticGuarded : Prop where
  cached : ∀ found : PathBuf, find (StaticLookup.key config request) = some found →
    checkResult env config find found = true →
    ∀ kind path, env.metadata found = .ok kind →
      StaticLookup.served env codings config request found kind = some path →
      (path = found → ¬FreshCheck env find found) → Inside env config path
  resolved : find (StaticLookup.key config request) = none →
    ∀ joined, joinedPathbuf env (webRoot config) request.uri.path = some joined →
    checkResult env config find joined = true →
    ∀ target kind path,
      StaticLookup.Resolves env (indexes StaticLookup.defaultIndexes config) joined target kind →
      StaticLookup.served env codings config request target kind = some path →
      (path = joined → ¬FreshCheck env find joined) → Inside env config path

/-- A handler has something to select for the request. -/
def Handles : FileHandler → Prop
  | .staticFile => (request.method = .get ∨ request.method = .post ∨ request.method = .head) ∧
      wwwroot config ≠ none ∧ isBadPath request.uri.path = false
  | .cgi => wwwroot config ≠ none ∧ isBadPath request.uri.path = false
  | .scgi => ScgiScript.scgiTo config ≠ none ∧ isBadPath request.uri.path = false
  | .fcgi => FcgiScript.fastcgiTo config ≠ none ∧ isBadPath request.uri.path = false

/-- What a handler selects without a sound check is inside. -/
def Guarded : FileHandler → Prop
  | .staticFile => StaticGuarded env codings config request find
  | .cgi => CgiGuarded env config request find
  | .scgi => PassedInside env config request
  | .fcgi => FcgiGuarded env config request find

end Confinement

/-! ## What the handlers select -/

section Selection

variable {env : Environment} {codings : Request → PathBuf → List Str} {config : ServerConfiguration}
  {request : Request} {find : (key : PathCacheKey) → Option key.Value} {path : PathBuf}

/-- A sound check that passes says that the path is inside. -/
theorem PassesCheck.inside {joined : PathBuf} (h : PassesCheck env config request joined)
    (hsound : SoundCheck env config joined) : Inside env config joined := by
  obtain ⟨canonical, hcanonical⟩ := Option.ne_none_iff_exists'.1 hsound.canonical
  refine ⟨canonical, hcanonical, ?_⟩
  have hinside := h.2
  rw [isInside, Environment.canonical, hcanonical, Option.getD_some, PathBuf.startsWith,
    hsound.root] at hinside
  exact hinside

/-- A fresh check that passes says that the path is inside. -/
theorem inside_of_freshCheck (h : checkResult env config find path = true)
    (hfresh : FreshCheck env find path) : Inside env config path := by
  obtain ⟨canonical, hcanonical⟩ := Option.ne_none_iff_exists'.1 hfresh.canonical
  refine ⟨canonical, hcanonical, ?_⟩
  have hallowed : StaticLookup.isAllowed env (webRoot config) path = true := by
    rw [checkResult, hfresh.missed] at h
    exact h
  rw [StaticLookup.isAllowed, Environment.canonical, hcanonical, Option.getD_some] at hallowed
  exact hallowed

theorem selected_execute (root : PathBuf) (server : Option Str) (data : ScriptData) :
    selected env codings config request (execute root server data) = data.1 := by
  rw [execute]
  cases data.1 with
  | none => rfl
  | some path => rfl

/-- What is selected comes from a cached value or from a computed one. -/
theorem selected_cached_iff {key : PathCacheKey} {compute : Except Outcome key.Value}
    {use : key.Value → Outcome} {choose : key.Value → Option PathBuf}
    (huse : ∀ value, selected env codings config request (use value) = choose value)
    (herror : ∀ outcome, compute = .error outcome → selected env codings config request outcome = none) :
    selected env codings config request ((Program.cached key compute use).answer find) = some path ↔
      (∃ value, find key = some value ∧ choose value = some path) ∨
        find key = none ∧ ∃ value, compute = .ok value ∧ choose value = some path := by
  cases hfind : find key with
  | some value =>
      rw [Program.answer_cached_of_some hfind, huse]
      simp
  | none =>
      rw [Program.answer_cached_of_none hfind]
      cases hcompute : compute with
      | error outcome => simp [herror outcome hcompute]
      | ok value => simp [huse]

theorem webRoot_of_wwwroot {root : Str} (h : wwwroot config = some root) : webRoot config = root := by
  rw [webRoot, h, Option.getD_some]

/-- The CGI module finds scripts only of paths that pass the check. -/
theorem cgiScript_eq_ok_iff {root : Str} (hdisable : disableUrlSanitizer config = true)
    (hroot : wwwroot config = some root) :
    (∃ data, CgiScript.cgiScript env config (env.wwwrootPathbuf root) request.uri.path = .ok data ∧
        data.1 = some path) ↔
      ∃ joined, PassesCheck env config request joined ∧ CgiFinds env config request joined path := by
  unfold PassesCheck CgiFinds CgiScript.cgiScript
  rw [scriptRoot, webRoot_of_wwwroot hroot, hdisable]
  cases joinedPathbuf env (env.wwwrootPathbuf root) request.uri.path with
  | none => simp
  | some joined =>
      cases hinside : isInside env (env.wwwrootPathbuf root) joined with
      | false => simp [hinside]
      | true => simp [hinside, ← scriptData_eq_some_iff]

theorem handle_cgi {root : Str} (hroot : wwwroot config = some root)
    (hpath : isBadPath request.uri.path = false) :
    handle env config request .cgi =
      .cached (CgiScript.key config request)
        (CgiScript.cgiScript env config (env.wwwrootPathbuf root) request.uri.path)
        (execute (env.wwwrootPathbuf root) none) := by
  rw [handle, CgiScript.requestHandler, hroot]
  dsimp only
  rw [hpath, if_neg (by simp)]

/-- A refusal selects nothing. -/
theorem cgiScript_error {root : PathBuf} {outcome : Outcome}
    (h : CgiScript.cgiScript env config root request.uri.path = .error outcome) :
    selected env codings config request outcome = none := by
  rw [CgiScript.cgiScript] at h
  split at h
  · obtain rfl := Except.error.inj h
    rfl
  · split at h
    · obtain rfl := Except.error.inj h
      rfl
    · exact absurd h (by simp)

/-- What the CGI module selects. -/
theorem cgi_selected_iff (hdisable : disableUrlSanitizer config = true) :
    selected env codings config request ((handle env config request .cgi).answer find) = some path ↔
      Handles config request .cgi ∧
        ((∃ data : ScriptData, find (CgiScript.key config request) = some data ∧ data.1 = some path) ∨
          find (CgiScript.key config request) = none ∧
            ∃ joined, PassesCheck env config request joined ∧
              CgiFinds env config request joined path) := by
  cases hroot : wwwroot config with
  | none => simp [handle, CgiScript.requestHandler, hroot, Program.answer, selected, Handles]
  | some root =>
      cases hbad : isBadPath request.uri.path with
      | true => simp [handle, CgiScript.requestHandler, hroot, hbad, Program.answer, selected, Handles]
      | false =>
          have hhandles : Handles config request .cgi := ⟨by simp [hroot], hbad⟩
          rw [handle_cgi hroot hbad, and_iff_right hhandles, ← cgiScript_eq_ok_iff hdisable hroot]
          exact selected_cached_iff (selected_execute _ _) fun outcome => cgiScript_error

/-- The outcome when a request is passed to a server without a search. -/
def passOutcome (env : Environment) (config : ServerConfiguration) (requestPath : Str)
    (pathInfo server : Option Str) : Outcome :=
  match joinedPathbuf env (scriptRoot env config) requestPath with
  | none => .status 400 []
  | some joined =>
      if disableUrlSanitizer config && !isInside env (scriptRoot env config) joined then
        .status 403 []
      else .script (scriptRoot env config) joined pathInfo server

/-- It selects the joined path when this passes the check. -/
theorem selected_passOutcome_iff (hdisable : disableUrlSanitizer config = true)
    (pathInfo server : Option Str) :
    selected env codings config request
        (passOutcome env config request.uri.path pathInfo server) = some path ↔
      PassesCheck env config request path := by
  rw [PassesCheck, passOutcome]
  cases joinedPathbuf env (scriptRoot env config) request.uri.path with
  | none => simp [selected]
  | some joined =>
      dsimp only
      rw [hdisable, Bool.true_and, Option.some.injEq]
      cases hinside : isInside env (scriptRoot env config) joined with
      | false =>
          rw [Bool.not_false, if_pos rfl]
          constructor
          · exact fun h => absurd h (by simp [selected])
          · rintro ⟨rfl, hpasses⟩
            exact absurd (hinside.symm.trans hpasses) (by simp)
      | true =>
          rw [Bool.not_true, if_neg (by simp), selected, Option.some.injEq]
          constructor
          · rintro rfl
            exact ⟨rfl, hinside⟩
          · exact fun h => h.1

/-- The SCGI module passes every request that it handles. -/
theorem handle_scgi {server : Str} (hserver : ScgiScript.scgiTo config = some server)
    (hpath : isBadPath request.uri.path = false) :
    handle env config request .scgi =
      .done (passOutcome env config request.uri.path (some request.uri.path.tail) (some server)) := by
  rw [handle, ScgiScript.requestHandler, hserver, passOutcome, scriptRoot, webRoot]
  dsimp only
  rw [hpath, if_neg (by simp)]
  cases joinedPathbuf env (env.wwwrootPathbuf ((wwwroot config).getD "/nonexistent".toList))
      request.uri.path with
  | none => rfl
  | some joined => exact (apply_ite Program.done _ _ _).symm

/-- The FastCGI module passes every request, or none. -/
theorem passRequest_eq (env : Environment) (config : ServerConfiguration) (server requestPath : Str) :
    ∃ pathInfo, FcgiScript.passRequest env config server "/".toList requestPath =
      some (passOutcome env config requestPath pathInfo (some server)) := by
  let withSlashes := if requestPath = [] then requestPath ++ ['/'] else requestPath
  refine ⟨if withSlashes.head? = some '/' then some withSlashes.tail else none, ?_⟩
  rw [FcgiScript.passRequest, passOutcome, scriptRoot, webRoot]
  have hslash : (if "/".toList.getLast? = some '/' then "/".toList.dropLast else "/".toList) =
      ([] : Str) := by decide
  dsimp only
  rw [hslash, if_pos List.isPrefixOf_nil_left]
  cases joinedPathbuf env (env.wwwrootPathbuf ((wwwroot config).getD "/nonexistent".toList))
      requestPath with
  | none => rfl
  | some joined => exact (apply_ite some _ _ _).symm

/-- What the SCGI module selects. -/
theorem scgi_selected_iff (hdisable : disableUrlSanitizer config = true) :
    selected env codings config request ((handle env config request .scgi).answer find) = some path ↔
      Handles config request .scgi ∧ PassesCheck env config request path := by
  cases hserver : ScgiScript.scgiTo config with
  | none => simp [handle, ScgiScript.requestHandler, hserver, Program.answer, selected, Handles]
  | some server =>
      cases hbad : isBadPath request.uri.path with
      | true =>
          simp [handle, ScgiScript.requestHandler, hserver, hbad, Program.answer, selected, Handles]
      | false =>
          have hhandles : Handles config request .scgi := ⟨by simp [hserver], hbad⟩
          rw [and_iff_right hhandles, handle_scgi hserver hbad, Program.answer]
          exact selected_passOutcome_iff hdisable _ _

/-- What the FastCGI module finds without a check. -/
theorem fcgiScript_eq_ok_iff {root : Str} (hroot : wwwroot config = some root) :
    (∃ data, FcgiScript.fcgiScript env config (env.wwwrootPathbuf root) request.uri.path = .ok data ∧
        data.1 = some path) ↔
      ∃ joined, joinedPathbuf env (scriptRoot env config) request.uri.path = some joined ∧
        FcgiFinds env config request joined path := by
  unfold FcgiFinds FcgiScript.fcgiScript
  rw [scriptRoot, webRoot_of_wwwroot hroot]
  cases joinedPathbuf env (env.wwwrootPathbuf root) request.uri.path with
  | none => simp
  | some joined => simp [← scriptData_eq_some_iff]

theorem fcgiScript_error {root : PathBuf} {outcome : Outcome}
    (h : FcgiScript.fcgiScript env config root request.uri.path = .error outcome) :
    selected env codings config request outcome = none := by
  rw [FcgiScript.fcgiScript] at h
  split at h
  · obtain rfl := Except.error.inj h
    rfl
  · exact absurd h (by simp)

/-- What the FastCGI module selects. -/
theorem fcgi_selected_iff (hdisable : disableUrlSanitizer config = true) :
    selected env codings config request ((handle env config request .fcgi).answer find) = some path ↔
      Handles config request .fcgi ∧
        (FcgiScript.fastcgiPass config = true ∧ PassesCheck env config request path ∨
          FcgiScript.fastcgiPass config = false ∧ wwwroot config ≠ none ∧
            ((∃ data : ScriptData, find (FcgiScript.key config request) = some data ∧
                data.1 = some path) ∨
              find (FcgiScript.key config request) = none ∧
                ∃ joined, joinedPathbuf env (scriptRoot env config) request.uri.path = some joined ∧
                  FcgiFinds env config request joined path)) := by
  cases hserver : FcgiScript.fastcgiTo config with
  | none => simp [handle, FcgiScript.requestHandler, hserver, Program.answer, selected, Handles]
  | some server =>
      cases hbad : isBadPath request.uri.path with
      | true =>
          simp [handle, FcgiScript.requestHandler, hserver, hbad, Program.answer, selected, Handles]
      | false =>
          have hhandles : Handles config request .fcgi := ⟨by simp [hserver], hbad⟩
          rw [and_iff_right hhandles, handle, FcgiScript.requestHandler, hserver]
          dsimp only
          rw [hbad, if_neg (by simp)]
          cases hpass : FcgiScript.fastcgiPass config with
          | true =>
              obtain ⟨pathInfo, heq⟩ := passRequest_eq env config server request.uri.path
              rw [if_pos rfl, heq]
              dsimp only [Program.answer]
              rw [selected_passOutcome_iff hdisable]
              simp
          | false =>
              rw [if_neg (by simp)]
              cases hroot : wwwroot config with
              | none => simp [Program.answer, selected]
              | some root =>
                  rw [← fcgiScript_eq_ok_iff hroot]
                  simp only [Bool.false_eq_true, false_and, false_or, true_and, ne_eq, reduceCtorEq,
                    not_false_eq_true]
                  exact selected_cached_iff (selected_execute _ _) fun outcome => fcgiScript_error

theorem refuseUnless_answer (allowed : Bool) (next : PathProgram) :
    (StaticLookup.refuseUnless allowed next).answer find =
      if allowed then next.answer find else .status 403 [] :=
  apply_ite (Program.answer find) _ _ _

/-- The check of the static file module refuses a path or goes on. -/
theorem checkTraversal_answer (hdisable : disableUrlSanitizer config = true) (joined : PathBuf)
    (next : PathProgram) :
    (StaticLookup.checkTraversal env config (webRoot config) joined next).answer find =
      if checkResult env config find joined then next.answer find else .status 403 [] := by
  rw [StaticLookup.checkTraversal, hdisable, if_pos rfl, Program.answer, checkResult]
  cases find (.pathTraversalCheck joined) with
  | some allowed => exact refuseUnless_answer allowed next
  | none => exact refuseUnless_answer (StaticLookup.isAllowed env (webRoot config) joined) next

/-- What is selected behind the check. -/
theorem selected_checkTraversal_iff (hdisable : disableUrlSanitizer config = true)
    (joined : PathBuf) (next : PathProgram) :
    selected env codings config request
        ((StaticLookup.checkTraversal env config (webRoot config) joined next).answer find) =
          some path ↔
      checkResult env config find joined = true ∧
        selected env codings config request (next.answer find) = some path := by
  rw [checkTraversal_answer hdisable]
  cases checkResult env config find joined with
  | true => simp
  | false => simp [selected]

theorem selected_fileError (kind : ErrorKind) :
    selected env codings config request (StaticLookup.fileError kind) = none := by
  cases kind with
  | notFound => rfl
  | notADirectory => rfl
  | permissionDenied => rfl
  | other => rfl

theorem indexFile_error {joined : PathBuf} {indexes : List Str} {outcome : Outcome}
    (h : StaticLookup.indexFile env joined indexes = .error outcome) :
    selected env codings config request outcome = none := by
  induction indexes with
  | nil => exact absurd h (by simp [StaticLookup.indexFile])
  | cons name names ih =>
      rw [StaticLookup.indexFile] at h
      split at h
      · exact absurd h (by simp)
      · exact ih h
      · exact ih h
      · exact ih h
      · obtain rfl := Except.error.inj h
        rfl
      · obtain rfl := Except.error.inj h
        rfl

/-- When a path is not resolved nothing is selected. -/
theorem resolve_error {joined : PathBuf} {indexes : List Str} {outcome : Outcome}
    (h : StaticLookup.resolve env indexes joined = .error outcome) :
    selected env codings config request outcome = none := by
  rw [StaticLookup.resolve] at h
  split at h
  · obtain rfl := Except.error.inj h
    exact selected_fileError _
  · split at h
    · next herror =>
        obtain rfl := Except.error.inj h
        exact indexFile_error herror
    · exact absurd h (by simp)
    · exact absurd h (by simp)
  · exact absurd h (by simp)

/-- What is served of a path from the cache. -/
theorem selected_serveCached_iff {found : PathBuf} :
    selected env codings config request ((StaticLookup.serveCached env found).answer find) =
        some path ↔
      ∃ kind, env.metadata found = .ok kind ∧
        StaticLookup.served env codings config request found kind = some path := by
  rw [StaticLookup.serveCached]
  cases env.metadata found with
  | error kind => simp [Program.answer, selected_fileError]
  | ok kind => simp [Program.answer, selected]

/-- What is served of a path that is resolved. -/
theorem selected_serveResolved_iff {joined : PathBuf} :
    selected env codings config request
        ((StaticLookup.serveResolved env config request joined).answer find) = some path ↔
      ∃ target kind,
        StaticLookup.Resolves env (indexes StaticLookup.defaultIndexes config) joined target kind ∧
        StaticLookup.served env codings config request target kind = some path := by
  simp only [← StaticLookup.resolve_eq_ok_iff]
  rw [StaticLookup.serveResolved]
  cases hresolve : StaticLookup.resolve env (indexes StaticLookup.defaultIndexes config) joined with
  | error outcome => simp [Program.answer, resolve_error hresolve]
  | ok found =>
      obtain ⟨target, kind⟩ := found
      simp [Program.answer, selected]

theorem handle_static (h : Handles config request .staticFile) :
    handle env config request .staticFile =
      StaticLookup.lookupPath env config (webRoot config) request := by
  obtain ⟨hmethod, hroot, hpath⟩ := h
  obtain ⟨root, hroot⟩ := Option.ne_none_iff_exists'.1 hroot
  have hoptions : request.method ≠ .options := by
    intro hoptions
    rw [hoptions] at hmethod
    exact absurd hmethod (by decide)
  rw [handle, StaticLookup.requestHandler, if_neg hoptions, if_pos hmethod, hroot,
    webRoot_of_wwwroot hroot]
  dsimp only
  rw [hpath, if_neg (by simp)]

theorem selected_static_of_not_handles (h : ¬Handles config request .staticFile) :
    selected env codings config request ((handle env config request .staticFile).answer find) =
      none := by
  rw [handle, StaticLookup.requestHandler]
  split
  · rfl
  · split
    · next hmethod =>
        cases hroot : wwwroot config with
        | none => rfl
        | some root =>
            cases hpath : isBadPath request.uri.path with
            | true => rfl
            | false => exact absurd ⟨hmethod, by simp [hroot], hpath⟩ h
    · rfl

/-- What the static file module selects. -/
theorem static_selected_iff (hdisable : disableUrlSanitizer config = true) :
    selected env codings config request ((handle env config request .staticFile).answer find) =
        some path ↔
      Handles config request .staticFile ∧
        ((∃ found : PathBuf, find (StaticLookup.key config request) = some found ∧
            checkResult env config find found = true ∧
            ∃ kind, env.metadata found = .ok kind ∧
              StaticLookup.served env codings config request found kind = some path) ∨
          find (StaticLookup.key config request) = none ∧
            ∃ joined, joinedPathbuf env (webRoot config) request.uri.path = some joined ∧
              checkResult env config find joined = true ∧
              ∃ target kind,
                StaticLookup.Resolves env (indexes StaticLookup.defaultIndexes config) joined target
                  kind ∧
                StaticLookup.served env codings config request target kind = some path) := by
  by_cases hhandles : Handles config request .staticFile
  · rw [and_iff_right hhandles, handle_static hhandles, StaticLookup.lookupPath, Program.answer]
    cases find (StaticLookup.key config request) with
    | some found =>
        refine (selected_checkTraversal_iff hdisable found (StaticLookup.serveCached env found)).trans
          ((and_congr_right fun _ => selected_serveCached_iff).trans ?_)
        constructor
        · exact fun h => Or.inl ⟨found, rfl, h⟩
        · rintro (⟨found', hfound', h⟩ | ⟨hnone, -⟩)
          · obtain rfl := Option.some.inj hfound'
            exact h
          · exact absurd hnone (by simp)
    | none =>
        dsimp only
        cases joinedPathbuf env (webRoot config) request.uri.path with
        | none => simp [Program.answer, selected]
        | some joined =>
            dsimp only
            rw [selected_checkTraversal_iff hdisable, selected_serveResolved_iff]
            simp
  · rw [selected_static_of_not_handles hhandles]
    simp [hhandles]

/-! ## What is confined -/

theorem cgi_confined_iff (hdisable : disableUrlSanitizer config = true) :
    Confined env codings config request find .cgi ↔
      (Handles config request .cgi → CgiGuarded env config request find) := by
  constructor
  · intro h hhandles
    constructor
    · intro data hdata path hpath
      exact h path ((cgi_selected_iff hdisable).2 ⟨hhandles, Or.inl ⟨data, hdata, hpath⟩⟩)
    · intro hmissed joined path hpasses hfinds _
      exact h path ((cgi_selected_iff hdisable).2
        ⟨hhandles, Or.inr ⟨hmissed, joined, hpasses, hfinds⟩⟩)
  · intro h path hselected
    obtain ⟨hhandles, ⟨data, hdata, hpath⟩ | ⟨hmissed, joined, hpasses, hfinds⟩⟩ :=
      (cgi_selected_iff hdisable).1 hselected
    · exact (h hhandles).cached data hdata path hpath
    · by_cases hchecked : path = joined ∧ SoundCheck env config joined
      · obtain ⟨rfl, hsound⟩ := hchecked
        exact hpasses.inside hsound
      · exact (h hhandles).searched hmissed joined path hpasses hfinds (not_and.1 hchecked)

theorem passed_confined (h : PassedInside env config request)
    (hpasses : PassesCheck env config request path) : Inside env config path := by
  by_cases hsound : SoundCheck env config path
  · exact hpasses.inside hsound
  · exact h path hpasses hsound

theorem scgi_confined_iff (hdisable : disableUrlSanitizer config = true) :
    Confined env codings config request find .scgi ↔
      (Handles config request .scgi → PassedInside env config request) := by
  constructor
  · intro h hhandles joined hpasses _
    exact h joined ((scgi_selected_iff hdisable).2 ⟨hhandles, hpasses⟩)
  · intro h path hselected
    obtain ⟨hhandles, hpasses⟩ := (scgi_selected_iff hdisable).1 hselected
    exact passed_confined (h hhandles) hpasses

theorem fcgi_confined_iff (hdisable : disableUrlSanitizer config = true) :
    Confined env codings config request find .fcgi ↔
      (Handles config request .fcgi → FcgiGuarded env config request find) := by
  constructor
  · intro h hhandles
    have hselect := fun path hpath =>
      h path ((fcgi_selected_iff hdisable).2 ⟨hhandles, hpath⟩)
    constructor
    · intro hpass joined hpasses _
      exact hselect joined (Or.inl ⟨hpass, hpasses⟩)
    · intro hpass hroot data hdata path hpath
      exact hselect path (Or.inr ⟨hpass, hroot, Or.inl ⟨data, hdata, hpath⟩⟩)
    · intro hpass hroot hmissed joined path hjoined hfinds
      exact hselect path (Or.inr ⟨hpass, hroot, Or.inr ⟨hmissed, joined, hjoined, hfinds⟩⟩)
  · intro h path hselected
    obtain ⟨hhandles, ⟨hpass, hpasses⟩ | ⟨hpass, hroot, hsearch⟩⟩ :=
      (fcgi_selected_iff hdisable).1 hselected
    · exact passed_confined ((h hhandles).passed hpass) hpasses
    · rcases hsearch with ⟨data, hdata, hpath⟩ | ⟨hmissed, joined, hjoined, hfinds⟩
      · exact (h hhandles).cached hpass hroot data hdata path hpath
      · exact (h hhandles).searched hpass hroot hmissed joined path hjoined hfinds

theorem static_confined_iff (hdisable : disableUrlSanitizer config = true) :
    Confined env codings config request find .staticFile ↔
      (Handles config request .staticFile → StaticGuarded env codings config request find) := by
  constructor
  · intro h hhandles
    have hselect := fun path hpath =>
      h path ((static_selected_iff hdisable).2 ⟨hhandles, hpath⟩)
    constructor
    · intro found hfound hcheck kind path hkind hserved _
      exact hselect path (Or.inl ⟨found, hfound, hcheck, kind, hkind, hserved⟩)
    · intro hmissed joined hjoined hcheck target kind path hresolves hserved _
      exact hselect path
        (Or.inr ⟨hmissed, joined, hjoined, hcheck, target, kind, hresolves, hserved⟩)
  · intro h path hselected
    obtain ⟨hhandles, ⟨found, hfound, hcheck, kind, hkind, hserved⟩ |
      ⟨hmissed, joined, hjoined, hcheck, target, kind, hresolves, hserved⟩⟩ :=
        (static_selected_iff hdisable).1 hselected
    · by_cases hchecked : path = found ∧ FreshCheck env find found
      · obtain ⟨rfl, hfresh⟩ := hchecked
        exact inside_of_freshCheck hcheck hfresh
      · exact (h hhandles).cached found hfound hcheck kind path hkind hserved (not_and.1 hchecked)
    · by_cases hchecked : path = joined ∧ FreshCheck env find joined
      · obtain ⟨rfl, hfresh⟩ := hchecked
        exact inside_of_freshCheck hcheck hfresh
      · exact (h hhandles).resolved hmissed joined hjoined hcheck target kind path hresolves hserved
          (not_and.1 hchecked)

end Selection

/-- With the sanitizer off, whatever the lookups find, everything that a handler selects has a canonical
form inside the canonical web root exactly when everything that it selects without a sound check has. -/
theorem confined_iff (env : Environment) (codings : Request → PathBuf → List Str)
    (config : ServerConfiguration) (request : Request)
    (find : (key : PathCacheKey) → Option key.Value) (handler : FileHandler)
    (hdisable : disableUrlSanitizer config = true) :
    Confined env codings config request find handler ↔
      (Handles config request handler → Guarded env codings config request find handler) := by
  cases handler with
  | staticFile => exact static_confined_iff hdisable
  | cgi => exact cgi_confined_iff hdisable
  | scgi => exact scgi_confined_iff hdisable
  | fcgi => exact fcgi_confined_iff hdisable

/-! ## A script above the web root -/

/-- One entry with one value. -/
def singleEntry (value : ServerConfigurationValue) : ServerConfigurationEntries := ⟨[⟨[value], ∅⟩]⟩

/-- A host with the web root `/www` and the sanitizer off, whose `.php` files are scripts. -/
def phpHost : ServerConfiguration where
  entries := (((((∅ : HashMap Str ServerConfigurationEntries).insert "root".toList
    (singleEntry (.string "/www".toList))).insert "disable_url_sanitizer".toList
    (singleEntry (.bool true))).insert "fcgi".toList
    ⟨[⟨[.string "tcp://localhost:4000/".toList],
      (∅ : HashMap Str ServerConfigurationValue).insert "pass".toList (.bool false)⟩]⟩).insert
    "fcgi_extension".toList (singleEntry (.string ".php".toList))).insert
    "cgi_extension".toList (singleEntry (.string ".php".toList))
  filters := ⟨true, some "host".toList, none, none, none, none⟩

/-- A request for a script next to the web root. -/
def secretRequest : Request := ⟨.get, ⟨"/../secret/a.php".toList, none, by decide⟩, []⟩

/-- A file system with the script `/secret/a.php` and the directory `/www`. -/
def secretScript : Environment where
  decode := some
  metadata path := if path = "/www/../secret/a.php".toList then .ok .file else .error .notFound
  canonicalize path :=
    if path = "/www/../secret/a.php".toList then some "/secret/a.php".toList
    else if path = "/www".toList then some path
    else none

/-- No coding is accepted. -/
def noCodings (_ : Request) (_ : PathBuf) : List Str := []

/-- Nothing is in the caches. -/
def findNothing (key : PathCacheKey) : Option key.Value := none

/-- The FastCGI module has a script executed that is outside the web root. -/
theorem fcgi_not_confined :
    disableUrlSanitizer phpHost = true ∧
      ¬Confined secretScript noCodings phpHost secretRequest findNothing .fcgi := by
  refine ⟨by decide +kernel, ?_⟩
  intro h
  obtain ⟨canonical, hcanonical, hinside⟩ := h "/www/../secret/a.php".toList (by decide +kernel)
  have heq : secretScript.canonicalize "/www/../secret/a.php".toList =
      some "/secret/a.php".toList := by decide +kernel
  obtain rfl := Option.some.inj (heq.symm.trans hcanonical)
  exact absurd hinside (by decide +kernel)

/-- The CGI module refuses the request. -/
theorem confined_iff_cgi : Confined secretScript noCodings phpHost secretRequest findNothing .cgi := by
  refine (confined_iff secretScript noCodings phpHost secretRequest findNothing .cgi
    (by decide +kernel)).2 fun _ => ⟨?_, ?_⟩
  · intro data hdata
    exact absurd hdata (by simp [findNothing])
  · rintro _ joined path ⟨hjoined, hinside⟩
    have heq : joinedPathbuf secretScript (scriptRoot secretScript phpHost) secretRequest.uri.path =
        some "/www/../secret/a.php".toList := by decide +kernel
    obtain rfl := Option.some.inj (heq.symm.trans hjoined)
    exact absurd hinside (by decide +kernel)

end Ferron.Modules.PathConfinement
