import Ferron.Common.Config
import Ferron.Common.IpDisplay
import Ferron.Common.TtlCache
import Ferron.Http.Request
import Ferron.Lib.SharedCache
import Ferron.Rust.Path

/-!
# The caches of path lookups

Four modules look up what a request path stands for under a web root. Each module loader has a cache
for this (the static file module has two), and all configurations share it. The modules build the
keys in the same way, from the IP address and the hostname of the configuration and from the path of
the request.
-/

set_option autoImplicit false

namespace Ferron.Modules.PathCache

open Ferron.Common Ferron.Http Ferron.Lib.SharedCache

/-! ## Files -/

/-- The kinds of I/O errors that are told apart. -/
inductive ErrorKind where
  | notFound
  | notADirectory
  | permissionDenied
  | other
  deriving DecidableEq

/-- What `is_file` and `is_dir` of metadata say; `other` is neither of both. -/
inductive FileKind where
  | file
  | directory
  | other
  deriving DecidableEq

/-- A file system that does not change, and `urlencoding::decode` with the error dropped. -/
structure Environment where
  decode : Str → Option Str
  metadata : PathBuf → Except ErrorKind FileKind
  canonicalize : PathBuf → Option PathBuf

namespace Environment

variable (env : Environment)

/-- The metadata are those of a file. -/
def isFile (path : PathBuf) : Bool := env.metadata path matches .ok .file

/-- The metadata are those of a directory. -/
def isDir (path : PathBuf) : Bool := env.metadata path matches .ok .directory

/-- The canonical path, or the path itself when there is none. -/
def canonical (path : PathBuf) : PathBuf := (env.canonicalize path).getD path

/-- The web root of the CGI and FastCGI modules: an absolute path is taken as it is. -/
def wwwrootPathbuf (wwwroot : PathBuf) : PathBuf :=
  if PathBuf.isAbsolute wwwroot then wwwroot else env.canonical wwwroot

end Environment

/-! ## Configurations and requests -/

/-- The web root: the first value of `root`. -/
def wwwroot (config : ServerConfiguration) : Option Str :=
  ((config.getEntry "root".toList).bind fun entry => entry.values.head?).bind
    ServerConfigurationValue.asStr

/-- The index files: the values of `index`. -/
def indexes (default : List Str) (config : ServerConfiguration) : List Str :=
  ((config.getEntry "index".toList).map fun entry =>
    entry.values.filterMap ServerConfigurationValue.asStr).getD default

/-- The script extensions: the first values of the entries of a property. -/
def scriptExts (property : Str) (config : ServerConfiguration) : List Str :=
  ((config.getEntries property).map fun entries => entries.inner.filterMap fun entry =>
    entry.values.head?.bind ServerConfigurationValue.asStr).getD []

/-- A property that is on or off; without a value it is off. -/
def isOn (property : Str) (config : ServerConfiguration) : Bool :=
  ((config.getValue property).bind ServerConfigurationValue.asBool).getD false

/-- `disable_url_sanitizer`: then the modules check for path traversal. -/
def disableUrlSanitizer (config : ServerConfiguration) : Bool :=
  isOn "disable_url_sanitizer".toList config

/-- The request path without its first byte and the slashes behind it. -/
def relativePath (requestPath : Str) : Str := (requestPath.drop 1).dropWhile (· == '/')

/-- The decoded relative path below a web root. -/
def joinedPathbuf (env : Environment) (root : PathBuf) (requestPath : Str) : Option PathBuf :=
  (env.decode (relativePath requestPath)).map (PathBuf.join root)

/-- The request path does not start with a slash. -/
def isBadPath (requestPath : Str) : Bool := requestPath.head? != some '/'

/-! ## Cache keys -/

/-- The cache key of a request path. -/
def cacheKey (filters : ServerConfigurationFilters) (requestPath : Str) : Str :=
  (match filters.ip with
    | some ip => displayIp ip ++ ['-']
    | none => []) ++
  (match filters.hostname with
    | some domain => domain ++ ['-']
    | none => []) ++ requestPath

/-! ## Handlers -/

/-- The modules that look up paths. -/
inductive Handler where
  | trailing
  | cgi
  | fcgi
  | staticFile
  deriving DecidableEq

/-- A request to a module, with the configuration that it is handled under. -/
structure PathRequest where
  handler : Handler
  config : ServerConfiguration
  request : Request

namespace PathRequest

/-- The path of the request. -/
def path (request : PathRequest) : Str := request.request.uri.path

/-- The web root of its configuration. -/
def root (request : PathRequest) : Option Str := wwwroot request.config

end PathRequest

/-- The errors that a handler gives. -/
inductive HandlerError where
  | io (kind : ErrorKind)
  | http
  deriving DecidableEq

/-- What a handler does with a request: nothing, a status, a response, a script with its web root and
path info (and the server it is sent to), a path that is served, or an error. -/
inductive Outcome where
  | pass
  | status (code : Nat) (headers : HeaderMap)
  | response (code : Nat) (headers : HeaderMap)
  | script (wwwroot execute : PathBuf) (pathInfo server : Option Str)
  | found (path : PathBuf) (kind : FileKind)
  | error (error : HandlerError)
  deriving DecidableEq

/-! ## The shared caches -/

/-- A script and its path info, if there is one. -/
abbrev ScriptData := Option PathBuf × Option Str

/-- A key of one of the caches. -/
inductive PathCacheKey where
  | trailingSlashes (key : Str)
  | cgiPath (key : Str)
  | fcgiPath (key : Str)
  | pathbuf (key : Str)
  | pathTraversalCheck (path : PathBuf)
  deriving DecidableEq

/-- What a cache has under its keys. -/
def PathCacheKey.Value : PathCacheKey → Type
  | trailingSlashes _ => Bool
  | cgiPath _ => ScriptData
  | fcgiPath _ => ScriptData
  | pathbuf _ => PathBuf
  | pathTraversalCheck _ => Bool

/-- A handler as a program on the caches. -/
abbrev PathProgram := Program PathCacheKey PathCacheKey.Value Outcome

/-- The lifetime of 100 milliseconds. -/
def lifetime : Nat := 100000000

/-- The cache of a module loader. -/
abbrev LoaderCache (κ ν : Type) := { cache : TtlCache κ ν // cache.ttl = lifetime }

namespace LoaderCache

variable {κ ν : Type} [DecidableEq κ]

omit [DecidableEq κ] in
/-- The cache that a module loader starts with. -/
def new : LoaderCache κ ν := ⟨TtlCache.new lifetime, rfl⟩

/-- `insert`. -/
def insert (cache : LoaderCache κ ν) (now : Nat) (key : κ) (value : ν) : LoaderCache κ ν :=
  ⟨cache.1.insert now key value, cache.2⟩

/-- `cleanup`, then `insert`. -/
def cleanInsert (cache : LoaderCache κ ν) (now : Nat) (key : κ) (value : ν) : LoaderCache κ ν :=
  insert ⟨cache.1.cleanup now, cache.2⟩ now key value

/-- What is found after an insertion was inserted and is alive, or was found before. -/
theorem get_insert {cache : LoaderCache κ ν} {stored now : Nat} {key key' : κ} {value value' : ν}
    (h : (cache.insert stored key value).1.get now key' = some value') :
    (key' = key ∧ value' = value ∧ TtlCache.elapsed stored now < lifetime) ∨
      (key' ≠ key ∧ cache.1.get now key' = some value') := by
  have hget := TtlCache.get_insert h
  rwa [cache.2] at hget

/-- Cleaning up before adds nothing. -/
theorem get_cleanInsert {cache : LoaderCache κ ν} {stored now : Nat} {key key' : κ}
    {value value' : ν} (h : (cache.cleanInsert stored key value).1.get now key' = some value') :
    (key' = key ∧ value' = value ∧ TtlCache.elapsed stored now < lifetime) ∨
      (key' ≠ key ∧ cache.1.get now key' = some value') := by
  rcases get_insert h with hnew | ⟨hne, hold⟩
  · exact Or.inl hnew
  · exact Or.inr ⟨hne, TtlCache.get_cleanup hold⟩

end LoaderCache

/-- The caches of the module loaders. -/
structure PathCaches where
  trailingSlashesCache : LoaderCache Str Bool
  cgiPathCache : LoaderCache Str ScriptData
  fcgiPathCache : LoaderCache Str ScriptData
  pathbufCache : LoaderCache Str PathBuf
  pathTraversalCheckCache : LoaderCache PathBuf Bool

namespace PathCaches

/-- The caches that the module loaders start with. -/
def new : PathCaches := ⟨.new, .new, .new, .new, .new⟩

/-- `get`. -/
def get (caches : PathCaches) (now : Nat) : (key : PathCacheKey) → Option key.Value
  | .trailingSlashes key => caches.trailingSlashesCache.1.get now key
  | .cgiPath key => caches.cgiPathCache.1.get now key
  | .fcgiPath key => caches.fcgiPathCache.1.get now key
  | .pathbuf key => caches.pathbufCache.1.get now key
  | .pathTraversalCheck path => caches.pathTraversalCheckCache.1.get now path

/-- The modules clean a cache up before they insert, except for that of the traversal checks. -/
def store (caches : PathCaches) (now : Nat) : (key : PathCacheKey) → key.Value → PathCaches
  | .trailingSlashes key, value =>
      { caches with trailingSlashesCache := caches.trailingSlashesCache.cleanInsert now key value }
  | .cgiPath key, value =>
      { caches with cgiPathCache := caches.cgiPathCache.cleanInsert now key value }
  | .fcgiPath key, value =>
      { caches with fcgiPathCache := caches.fcgiPathCache.cleanInsert now key value }
  | .pathbuf key, value =>
      { caches with pathbufCache := caches.pathbufCache.cleanInsert now key value }
  | .pathTraversalCheck path, value =>
      { caches with
        pathTraversalCheckCache := caches.pathTraversalCheckCache.insert now path value }

/-- A key of the same cache that is found has been stored or was found before. -/
theorem get_store (caches : PathCaches) (stored : Nat) (key : PathCacheKey) (value : key.Value)
    (now : Nat) (key' : PathCacheKey) (value' : key'.Value)
    (h : (caches.store stored key value).get now key' = some value') :
    (⟨key', value'⟩ : Sigma PathCacheKey.Value) = ⟨key, value⟩ ∧
        TtlCache.elapsed stored now < lifetime ∨
      key' ≠ key ∧ caches.get now key' = some value' := by
  cases key with
  | trailingSlashes key =>
      cases key' with
      | trailingSlashes key' =>
          rcases LoaderCache.get_cleanInsert h with ⟨rfl, rfl, halive⟩ | ⟨hne, hold⟩
          · exact Or.inl ⟨rfl, halive⟩
          · exact Or.inr ⟨fun heq => hne (PathCacheKey.trailingSlashes.inj heq), hold⟩
      | _ => exact Or.inr ⟨by simp, h⟩
  | cgiPath key =>
      cases key' with
      | cgiPath key' =>
          rcases LoaderCache.get_cleanInsert h with ⟨rfl, rfl, halive⟩ | ⟨hne, hold⟩
          · exact Or.inl ⟨rfl, halive⟩
          · exact Or.inr ⟨fun heq => hne (PathCacheKey.cgiPath.inj heq), hold⟩
      | _ => exact Or.inr ⟨by simp, h⟩
  | fcgiPath key =>
      cases key' with
      | fcgiPath key' =>
          rcases LoaderCache.get_cleanInsert h with ⟨rfl, rfl, halive⟩ | ⟨hne, hold⟩
          · exact Or.inl ⟨rfl, halive⟩
          · exact Or.inr ⟨fun heq => hne (PathCacheKey.fcgiPath.inj heq), hold⟩
      | _ => exact Or.inr ⟨by simp, h⟩
  | pathbuf key =>
      cases key' with
      | pathbuf key' =>
          rcases LoaderCache.get_cleanInsert h with ⟨rfl, rfl, halive⟩ | ⟨hne, hold⟩
          · exact Or.inl ⟨rfl, halive⟩
          · exact Or.inr ⟨fun heq => hne (PathCacheKey.pathbuf.inj heq), hold⟩
      | _ => exact Or.inr ⟨by simp, h⟩
  | pathTraversalCheck path =>
      cases key' with
      | pathTraversalCheck path' =>
          rcases LoaderCache.get_insert h with ⟨rfl, rfl, halive⟩ | ⟨hne, hold⟩
          · exact Or.inl ⟨rfl, halive⟩
          · exact Or.inr ⟨fun heq => hne (PathCacheKey.pathTraversalCheck.inj heq), hold⟩
      | _ => exact Or.inr ⟨by simp, h⟩

/-- New caches have nothing. -/
theorem get_new (now : Nat) (key : PathCacheKey) : new.get now key = none := by
  cases key <;> rfl

end PathCaches

/-- The caches of the module loaders find what was stored less than the lifetime ago. -/
def pathCaches : Caches PathCacheKey PathCacheKey.Value where
  State := PathCaches
  empty := PathCaches.new
  find := PathCaches.get
  store := PathCaches.store
  Alive stored now := TtlCache.elapsed stored now < lifetime
  find_empty := PathCaches.get_new
  find_store := PathCaches.get_store

end Ferron.Modules.PathCache
