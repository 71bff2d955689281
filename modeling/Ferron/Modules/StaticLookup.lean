import Ferron.Modules.PathCache

/-!
# Path lookups of the static file module

The module looks up the path of a file or directory in one cache and, when the URL sanitizer is off,
whether it is inside the web root in another one. Of what it does with the path only the choice between
a file and its precompressed variants is kept (`served`).
-/

set_option autoImplicit false

namespace Ferron.Modules.StaticLookup

open Ferron.Common Ferron.Http Ferron.Lib.SharedCache Ferron.Modules.PathCache

/-- The index files that the module tries by default. -/
def defaultIndexes : List Str := ["index.html".toList, "index.htm".toList, "index.xhtml".toList]

/-- The `Allow` header of the module. -/
def allowHeader : HeaderMap := [("allow".toList, asciiBytes "GET, POST, HEAD, OPTIONS".toList)]

/-- The canonical path is inside the canonical web root. -/
def isAllowed (env : Environment) (root joined : PathBuf) : Bool :=
  PathBuf.startsWith (env.canonical joined) (env.canonical root)

/-- The answer to an error of the file system. -/
def fileError : ErrorKind → Outcome
  | .notFound => .status 404 []
  | .notADirectory => .status 404 []
  | .permissionDenied => .status 403 []
  | .other => .error (.io .other)

/-- The loop over the index files: the first one that is a file, if there is one. -/
def indexFile (env : Environment) (joined : PathBuf) : List Str → Except Outcome (Option PathBuf)
  | [] => .ok none
  | index :: indexes =>
      let temp := PathBuf.join joined index
      match env.metadata temp with
      | .ok .file => .ok (some temp)
      | .ok _ => indexFile env joined indexes
      | .error .notFound => indexFile env joined indexes
      | .error .notADirectory => indexFile env joined indexes
      | .error .permissionDenied => .error (.status 403 [])
      | .error .other => .error (.error (.io .other))

/-- The path that is served, and what it is: an index file of a directory, or the path itself. -/
def resolve (env : Environment) (indexes : List Str) (joined : PathBuf) :
    Except Outcome (PathBuf × FileKind) :=
  match env.metadata joined with
  | .error kind => .error (fileError kind)
  | .ok .directory =>
      match indexFile env joined indexes with
      | .error outcome => .error outcome
      | .ok none => .ok (joined, .directory)
      | .ok (some index) => .ok (index, .file)
  | .ok kind => .ok (joined, kind)

/-- The key of a request in the cache of paths. -/
def key (config : ServerConfiguration) (request : Request) : PathCacheKey :=
  .pathbuf (cacheKey config.filters request.uri.path)

/-- A path outside the web root is refused. -/
def refuseUnless (allowed : Bool) (next : PathProgram) : PathProgram :=
  if allowed then next else .done (.status 403 [])

/-- The check for path traversal, when the URL sanitizer is off. -/
def checkTraversal (env : Environment) (config : ServerConfiguration) (root joined : PathBuf)
    (next : PathProgram) : PathProgram :=
  if disableUrlSanitizer config then
    .lookup (.pathTraversalCheck joined) fun
      | some allowed => refuseUnless allowed next
      | none =>
          .store (.pathTraversalCheck joined) (isAllowed env root joined)
            (refuseUnless (isAllowed env root joined) next)
  else next

/-- A path from the cache is served without a search for index files. -/
def serveCached (env : Environment) (path : PathBuf) : PathProgram :=
  match env.metadata path with
  | .error kind => .done (fileError kind)
  | .ok kind => .done (.found path kind)

/-- A path that is not from the cache is resolved and stored. -/
def serveResolved (env : Environment) (config : ServerConfiguration) (request : Request)
    (joined : PathBuf) : PathProgram :=
  match resolve env (indexes defaultIndexes config) joined with
  | .error outcome => .done outcome
  | .ok (path, kind) => .store (key config request) path (.done (.found path kind))

/-- The lookup of a request path below the web root. -/
def lookupPath (env : Environment) (config : ServerConfiguration) (root : PathBuf)
    (request : Request) : PathProgram :=
  .lookup (key config request) fun
    | some path => checkTraversal env config root path (serveCached env path)
    | none =>
        match joinedPathbuf env root request.uri.path with
        | none => .done (.status 400 [])
        | some joined =>
            checkTraversal env config root joined (serveResolved env config request joined)

/-- `request_handler`, up to the path that is served. -/
def requestHandler (env : Environment) (config : ServerConfiguration) (request : Request) :
    PathProgram :=
  if request.method = .options then .done (.response 204 allowHeader)
  else if request.method = .get ∨ request.method = .post ∨ request.method = .head then
    match wwwroot config with
    | none => .done .pass
    | some root =>
        if isBadPath request.uri.path then .done (.status 400 [])
        else lookupPath env config root request
  else .done (.status 405 allowHeader)

/-! ## What is served -/

/-- The variant of a file with an extension for a content coding. -/
def withPrecompressedExtension (path : PathBuf) (ext : Str) : PathBuf :=
  PathBuf.setExtension path ((PathBuf.extension path).getD [] ++ '.' :: ext)

/-- The first variant that is a file, or the file itself. -/
def precompressedFile (env : Environment) (extensions : List Str) (path : PathBuf) : PathBuf :=
  ((extensions.map (withPrecompressedExtension path)).find? env.isFile).getD path

/-- The file or directory that is sent. The extensions of the codings that a request accepts for a path
depend on its headers and on the size and the type of the file. -/
def served (env : Environment) (codings : Request → PathBuf → List Str) (config : ServerConfiguration)
    (request : Request) (path : PathBuf) : FileKind → Option PathBuf
  | .file =>
      some (if isOn "precompressed".toList config then precompressedFile env (codings request path) path
        else path)
  | .directory => if isOn "directory_listing".toList config then some path else none
  | .other => none

/-- An index file that is tried before another one is. -/
def Skipped (env : Environment) (path : PathBuf) : Prop :=
  (∃ kind, env.metadata path = .ok kind ∧ kind ≠ .file) ∨ env.metadata path = .error .notFound ∨
    env.metadata path = .error .notADirectory

/-- What a path is resolved to: an index file, a directory without any, or the path itself. -/
inductive Resolves (env : Environment) (indexes : List Str) (joined : PathBuf) :
    PathBuf → FileKind → Prop where
  | index {front back : List Str} {index : Str} (hdirectory : env.metadata joined = .ok .directory)
      (hindexes : indexes = front ++ index :: back)
      (hfile : env.metadata (PathBuf.join joined index) = .ok .file)
      (hfront : ∀ other ∈ front, Skipped env (PathBuf.join joined other)) :
      Resolves env indexes joined (PathBuf.join joined index) .file
  | directory (hdirectory : env.metadata joined = .ok .directory)
      (hindexes : ∀ other ∈ indexes, Skipped env (PathBuf.join joined other)) :
      Resolves env indexes joined joined .directory
  | path {kind : FileKind} (hkind : env.metadata joined = .ok kind) (hother : kind ≠ .directory) :
      Resolves env indexes joined joined kind

theorem indexFile_cons_of_skipped {env : Environment} {joined : PathBuf} {index : Str}
    (h : Skipped env (PathBuf.join joined index)) (indexes : List Str) :
    indexFile env joined (index :: indexes) = indexFile env joined indexes := by
  rw [indexFile]
  rcases h with ⟨kind, hkind, hother⟩ | herror | herror
  · rw [hkind]
    cases kind with
    | file => exact absurd rfl hother
    | directory => rfl
    | other => rfl
  · rw [herror]
  · rw [herror]

theorem indexFile_append_of_skipped {env : Environment} {joined : PathBuf} {front : List Str}
    (h : ∀ other ∈ front, Skipped env (PathBuf.join joined other)) (indexes : List Str) :
    indexFile env joined (front ++ indexes) = indexFile env joined indexes := by
  induction front with
  | nil => rfl
  | cons name front ih =>
      rw [List.cons_append, indexFile_cons_of_skipped (h name List.mem_cons_self)]
      exact ih fun other hother => h other (List.mem_cons_of_mem _ hother)

/-- What the loop over the index files gives when it does not fail: the first file, or nothing when all
names are skipped. -/
theorem indexFile_ok {env : Environment} {joined : PathBuf} {indexes : List Str}
    {found : Option PathBuf} (h : indexFile env joined indexes = .ok found) :
    (∃ front back index, indexes = front ++ index :: back ∧ found = some (PathBuf.join joined index) ∧
        env.metadata (PathBuf.join joined index) = .ok .file ∧
        ∀ other ∈ front, Skipped env (PathBuf.join joined other)) ∨
      found = none ∧ ∀ other ∈ indexes, Skipped env (PathBuf.join joined other) := by
  induction indexes with
  | nil => exact Or.inr ⟨(Except.ok.inj h).symm, fun _ hmem => absurd hmem (by simp)⟩
  | cons name names ih =>
      by_cases hskipped : Skipped env (PathBuf.join joined name)
      · rw [indexFile_cons_of_skipped hskipped] at h
        have hall : ∀ {rest : List Str},
            (∀ other ∈ rest, Skipped env (PathBuf.join joined other)) →
              ∀ other ∈ name :: rest, Skipped env (PathBuf.join joined other) := by
          intro rest hrest other hmem
          rcases List.mem_cons.1 hmem with rfl | hother
          · exact hskipped
          · exact hrest other hother
        rcases ih h with ⟨front, back, index, rfl, hfound, hfile, hfront⟩ | ⟨hnone, hnames⟩
        · exact Or.inl ⟨name :: front, back, index, rfl, hfound, hfile, hall hfront⟩
        · exact Or.inr ⟨hnone, hall hnames⟩
      · rw [indexFile] at h
        split at h
        · next hfile =>
            exact Or.inl ⟨[], names, name, rfl, (Except.ok.inj h).symm, hfile,
              fun _ hmem => absurd hmem (by simp)⟩
        · next kind hother hkind =>
            exact absurd (Or.inl ⟨kind, hkind, hother⟩) hskipped
        · next herror => exact absurd (Or.inr (Or.inl herror)) hskipped
        · next herror => exact absurd (Or.inr (Or.inr herror)) hskipped
        · exact absurd h (by simp)
        · exact absurd h (by simp)

/-- `resolve` gives what a path is resolved to. -/
theorem resolve_eq_ok_iff {env : Environment} {indexes : List Str} {joined path : PathBuf}
    {kind : FileKind} :
    resolve env indexes joined = .ok (path, kind) ↔ Resolves env indexes joined path kind := by
  rw [resolve]
  constructor
  · intro h
    split at h
    · exact absurd h (by simp)
    · next hdirectory =>
        split at h
        · exact absurd h (by simp)
        · next hnone =>
            obtain ⟨rfl, rfl⟩ := Prod.mk.inj (Except.ok.inj h)
            rcases indexFile_ok hnone with ⟨_, _, _, _, hfound, _⟩ | ⟨-, hall⟩
            · exact absurd hfound (by simp)
            · exact .directory hdirectory hall
        · next index hsome =>
            obtain ⟨rfl, rfl⟩ := Prod.mk.inj (Except.ok.inj h)
            rcases indexFile_ok hsome with ⟨front, back, name, hnames, hfound, hfile, hfront⟩ | ⟨hnone, -⟩
            · obtain rfl := Option.some.inj hfound
              exact .index hdirectory hnames hfile hfront
            · exact absurd hnone (by simp)
    · next kind' hother hkind =>
        obtain ⟨rfl, rfl⟩ := Prod.mk.inj (Except.ok.inj h)
        exact .path hkind hother
  · intro h
    cases h with
    | index hdirectory hindexes hfile hfront =>
        rw [hdirectory, hindexes, indexFile_append_of_skipped hfront, indexFile, hfile]
    | directory hdirectory hindexes =>
        have hnone := indexFile_append_of_skipped hindexes []
        rw [List.append_nil] at hnone
        rw [hdirectory, hnone, indexFile]
    | path hkind hother =>
        rw [hkind]
        cases kind with
        | file => rfl
        | directory => exact absurd rfl hother
        | other => rfl

/-! ## What is cached -/

/-- The path that a request is resolved to under its own configuration. -/
def Decides (env : Environment) (request : PathRequest) (path : PathBuf) : Prop :=
  ∃ root joined kind, request.root = some root ∧
    joinedPathbuf env root request.path = some joined ∧
    resolve env (indexes defaultIndexes request.config) joined = .ok (path, kind)

/-- If a request has to check for path traversal, then the check says the same of a directory and of
its index files. -/
def IndexesInside (env : Environment) (request : PathRequest) : Prop :=
  disableUrlSanitizer request.config = true → ∀ root joined, request.root = some root →
    joinedPathbuf env root request.path = some joined →
      ∀ index ∈ indexes defaultIndexes request.config,
        env.metadata (PathBuf.join joined index) = .ok .file →
          isAllowed env root (PathBuf.join joined index) = isAllowed env root joined

/-- The lookups of two requests depend on the same things, and the first one may take a path from the
cache without a search for index files. -/
structure SameLookup (env : Environment) (request owner : PathRequest) : Prop where
  root : request.root = owner.root
  path : request.path = owner.path
  indexes : indexes defaultIndexes request.config = indexes defaultIndexes owner.config
  inside : IndexesInside env request

/-- What a path is resolved to is there, and it is the path itself or one of the index files. -/
theorem resolve_ok {env : Environment} {indexes : List Str} {joined path : PathBuf}
    {kind : FileKind} (h : resolve env indexes joined = .ok (path, kind)) :
    env.metadata path = .ok kind ∧
      (path = joined ∨ ∃ index ∈ indexes, path = PathBuf.join joined index ∧ kind = .file) := by
  have hindex : ∀ names : List Str, indexFile env joined names = .ok (some path) →
      env.metadata path = .ok .file ∧ ∃ index ∈ names, path = PathBuf.join joined index := by
    intro names hfound
    induction names with
    | nil => exact absurd hfound (by simp [indexFile])
    | cons name names ih =>
        rw [indexFile] at hfound
        split at hfound
        · rename_i hfile
          obtain rfl := Option.some.inj (Except.ok.inj hfound)
          exact ⟨hfile, name, List.mem_cons_self, rfl⟩
        · obtain ⟨hfile, index, hmem, heq⟩ := ih hfound
          exact ⟨hfile, index, List.mem_cons_of_mem _ hmem, heq⟩
        · obtain ⟨hfile, index, hmem, heq⟩ := ih hfound
          exact ⟨hfile, index, List.mem_cons_of_mem _ hmem, heq⟩
        · obtain ⟨hfile, index, hmem, heq⟩ := ih hfound
          exact ⟨hfile, index, List.mem_cons_of_mem _ hmem, heq⟩
        · exact absurd hfound (by simp)
        · exact absurd hfound (by simp)
  rw [resolve] at h
  split at h
  · exact absurd h (by simp)
  · rename_i hdirectory
    split at h
    · exact absurd h (by simp)
    · obtain ⟨rfl, rfl⟩ := Prod.mk.inj (Except.ok.inj h)
      exact ⟨hdirectory, Or.inl rfl⟩
    · rename_i hfound
      obtain ⟨rfl, rfl⟩ := Prod.mk.inj (Except.ok.inj h)
      obtain ⟨hfile, index, hmem, heq⟩ := hindex indexes hfound
      exact ⟨hfile, Or.inr ⟨index, hmem, heq, rfl⟩⟩
  · rename_i hkind
    obtain ⟨rfl, rfl⟩ := Prod.mk.inj (Except.ok.inj h)
    exact ⟨hkind, Or.inl rfl⟩

variable {env : Environment} {request owner : PathRequest} {path : PathBuf}

theorem Decides.of_sameLookup (hdecides : Decides env owner path)
    (h : SameLookup env request owner) : Decides env request path := by
  obtain ⟨root, joined, kind, hroot, hjoined, hresolve⟩ := hdecides
  refine ⟨root, joined, kind, h.root.trans hroot, ?_, ?_⟩
  · rw [h.path]
    exact hjoined
  · rw [h.indexes]
    exact hresolve

variable {puts : PathRequest → (key : PathCacheKey) → key.Value → Prop}
  {agree : PathRequest → PathRequest → PathCacheKey → Prop}

/-- The check is sound when what goes on is, as long as the check passes. -/
theorem checkTraversal_sound {config : ServerConfiguration} {root joined : PathBuf}
    {next : PathProgram} {outcome : Outcome}
    (hput : puts request (.pathTraversalCheck joined) (isAllowed env root joined))
    (hfound : ∀ owner allowed, agree request owner (.pathTraversalCheck joined) →
      puts owner (.pathTraversalCheck joined) allowed → allowed = isAllowed env root joined)
    (hnext : (disableUrlSanitizer config = true → isAllowed env root joined = true) →
      next.Sound puts agree request outcome)
    (hrefused : disableUrlSanitizer config = true → isAllowed env root joined = false →
      outcome = .status 403 []) :
    (checkTraversal env config root joined next).Sound puts agree request outcome := by
  rw [checkTraversal]
  cases hdisable : disableUrlSanitizer config with
  | false =>
      rw [if_neg (by simp)]
      exact hnext fun h => absurd (hdisable.symm.trans h) (by simp)
  | true =>
      rw [if_pos rfl]
      have hrefuse : (refuseUnless (isAllowed env root joined) next).Sound puts agree request
          outcome := by
        rw [refuseUnless]
        cases hallowed : isAllowed env root joined with
        | false => exact (hrefused hdisable hallowed).symm
        | true => exact hnext fun _ => hallowed
      refine ⟨⟨hput, hrefuse⟩, ?_⟩
      intro owner allowed hagree hputs
      obtain rfl := hfound owner allowed hagree hputs
      exact hrefuse

/-- When every lookup misses, a path that fails the check is refused. -/
theorem checkTraversal_fresh (config : ServerConfiguration) (root joined : PathBuf)
    (next : PathProgram) :
    (checkTraversal env config root joined next).fresh =
      if disableUrlSanitizer config = true ∧ isAllowed env root joined = false
      then .status 403 [] else next.fresh := by
  rw [checkTraversal]
  cases hdisable : disableUrlSanitizer config with
  | false => simp
  | true =>
      cases hallowed : isAllowed env root joined with
      | false => simp [Program.fresh, refuseUnless]
      | true => simp [Program.fresh, refuseUnless]

theorem serveResolved_sound {root joined : PathBuf} (hroot : request.root = some root)
    (hjoined : joinedPathbuf env root request.path = some joined)
    (hput : ∀ path, Decides env request path →
      puts request (key request.config request.request) path) :
    (serveResolved env request.config request.request joined).Sound puts agree request
      (serveResolved env request.config request.request joined).fresh := by
  rw [serveResolved]
  cases hresolve : resolve env (indexes defaultIndexes request.config) joined with
  | error outcome => rfl
  | ok found => exact ⟨hput _ ⟨root, joined, found.2, hroot, hjoined, hresolve⟩, rfl⟩

/-- A path from the cache is served as it would be resolved, if it is checked like the path that was
resolved. -/
theorem checkTraversal_serveCached_sound {root joined : PathBuf} {kind : FileKind}
    (hresolve : resolve env (indexes defaultIndexes request.config) joined = .ok (path, kind))
    (hallowed : disableUrlSanitizer request.config = true →
      isAllowed env root path = isAllowed env root joined)
    (hput : puts request (.pathTraversalCheck path) (isAllowed env root path))
    (hfound : ∀ owner allowed, agree request owner (.pathTraversalCheck path) →
      puts owner (.pathTraversalCheck path) allowed → allowed = isAllowed env root path) :
    (checkTraversal env request.config root path (serveCached env path)).Sound puts agree request
      (checkTraversal env request.config root joined
        (serveResolved env request.config request.request joined)).fresh := by
  rw [checkTraversal_fresh, serveResolved, hresolve]
  apply checkTraversal_sound hput hfound
  · intro hpasses
    rw [serveCached, (resolve_ok hresolve).1, if_neg]
    · rfl
    · rintro ⟨hdisable, hrefused⟩
      rw [← hallowed hdisable, hpasses hdisable] at hrefused
      exact absurd hrefused (by simp)
  · intro hdisable hrefused
    rw [if_pos ⟨hdisable, (hallowed hdisable).symm.trans hrefused⟩]

/-- The lookup stores what the request decides, and it is sound when it finds only this. -/
theorem lookupPath_sound {root : PathBuf} (hroot : request.root = some root)
    (hput : ∀ path, Decides env request path →
      puts request (key request.config request.request) path)
    (hputCheck : ∀ path, puts request (.pathTraversalCheck path) (isAllowed env root path))
    (hfound : ∀ owner path, agree request owner (key request.config request.request) →
      puts owner (key request.config request.request) path →
      Decides env request path ∧ IndexesInside env request)
    (hfoundCheck : ∀ owner path allowed, agree request owner (.pathTraversalCheck path) →
      puts owner (.pathTraversalCheck path) allowed → allowed = isAllowed env root path) :
    (lookupPath env request.config root request.request).Sound puts agree request
      (lookupPath env request.config root request.request).fresh := by
  rw [lookupPath, Program.fresh]
  cases hjoined : joinedPathbuf env root request.request.uri.path with
  | none =>
      refine ⟨rfl, ?_⟩
      intro owner path hagree hputs
      obtain ⟨⟨root', joined, -, hroot', hjoined', -⟩, -⟩ := hfound owner path hagree hputs
      obtain rfl := Option.some.inj (hroot.symm.trans hroot')
      exact absurd (hjoined.symm.trans hjoined') (by simp)
  | some joined =>
      constructor
      · apply checkTraversal_sound (hputCheck joined) (fun owner => hfoundCheck owner joined)
        · intro hpasses
          dsimp only
          rw [checkTraversal_fresh, if_neg]
          · exact serveResolved_sound hroot hjoined hput
          · rintro ⟨hdisable, hrefused⟩
            exact absurd ((hpasses hdisable).symm.trans hrefused) (by simp)
        · intro hdisable hrefused
          dsimp only
          rw [checkTraversal_fresh, if_pos ⟨hdisable, hrefused⟩]
      · intro owner path hagree hputs
        obtain ⟨⟨root', joined', kind, hroot', hjoined', hresolve⟩, hinside⟩ :=
          hfound owner path hagree hputs
        obtain rfl := Option.some.inj (hroot.symm.trans hroot')
        obtain rfl := Option.some.inj (hjoined.symm.trans hjoined')
        refine checkTraversal_serveCached_sound hresolve ?_ (hputCheck path)
          (fun owner => hfoundCheck owner path)
        intro hdisable
        obtain ⟨hfile, rfl | ⟨index, hindex, rfl, rfl⟩⟩ := resolve_ok hresolve
        · rfl
        · exact hinside hdisable root joined hroot hjoined index hindex hfile

/-- The handler stores what the request decides, and it is sound when it finds only this. -/
theorem requestHandler_sound
    (hput : ∀ path, Decides env request path →
      puts request (key request.config request.request) path)
    (hputCheck : ∀ root path, request.root = some root →
      puts request (.pathTraversalCheck path) (isAllowed env root path))
    (hfound : ∀ owner path, agree request owner (key request.config request.request) →
      puts owner (key request.config request.request) path →
      Decides env request path ∧ IndexesInside env request)
    (hfoundCheck : ∀ root owner path allowed, request.root = some root →
      agree request owner (.pathTraversalCheck path) →
      puts owner (.pathTraversalCheck path) allowed → allowed = isAllowed env root path) :
    (requestHandler env request.config request.request).Sound puts agree request
      (requestHandler env request.config request.request).fresh := by
  unfold requestHandler
  split
  · rfl
  · split
    · split
      · rfl
      · rename_i root hroot
        split
        · rfl
        · apply lookupPath_sound hroot hput
          · intro path
            exact hputCheck root path hroot
          · exact hfound
          · intro owner path allowed
            exact hfoundCheck root owner path allowed hroot
    · rfl

end Ferron.Modules.StaticLookup
