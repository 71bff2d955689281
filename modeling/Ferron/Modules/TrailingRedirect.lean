import Ferron.Modules.PathCache

/-!
# Redirects to paths with a trailing slash

The module redirects a request for a directory to the same path with a slash behind it. Whether a path
is a directory is looked up in a cache first.
-/

set_option autoImplicit false

namespace Ferron.Modules.TrailingRedirect

open Ferron.Common Ferron.Http Ferron.Lib.SharedCache Ferron.Modules.PathCache

/-- The redirect to the path with a slash behind it. -/
def redirect (uri : Uri) : Outcome :=
  let newRequestUri := uri.path ++ '/' ::
    (match uri.query with
      | some query => '?' :: query
      | none => [])
  match headerValue newRequestUri with
  | some location => .response 301 [("location".toList, location)]
  | none => .error .http

/-- A directory is redirected, anything else is left alone. -/
def answer (uri : Uri) (isDirectory : Bool) : Outcome :=
  if isDirectory then redirect uri else .pass

/-- Whether the path of a request is a directory. Without metadata it is none. -/
def isDirectory (env : Environment) (root : PathBuf) (requestPath : Str) : Except Outcome Bool :=
  match joinedPathbuf env root requestPath with
  | none => .error (.status 400 [])
  | some joined => .ok (env.isDir joined)

/-- The key of a request in the cache. -/
def key (config : ServerConfiguration) (request : Request) : PathCacheKey :=
  .trailingSlashes (cacheKey config.filters request.uri.path)

/-- `request_handler`. -/
def requestHandler (env : Environment) (config : ServerConfiguration) (request : Request) : PathProgram :=
  if isOn "no_trailing_redirect".toList config then .done .pass
  else
    match wwwroot config with
    | none => .done .pass
    | some root =>
        if isBadPath request.uri.path then .done (.status 400 [])
        else
          match (request.uri.path.drop 1).getLast? with
          | none => .done .pass
          | some last =>
              if last = '/' then .done .pass
              else
                .cached (key config request) (isDirectory env root request.uri.path)
                  (answer request.uri)

/-! ## What is cached -/

/-- Whether the path of a request is a directory, under its own web root. -/
def Decides (env : Environment) (request : PathRequest) (value : Bool) : Prop :=
  ∃ root, request.root = some root ∧ isDirectory env root request.path = .ok value

/-- The lookups of two requests depend on the same things. -/
structure SameLookup (request owner : PathRequest) : Prop where
  root : request.root = owner.root
  path : request.path = owner.path

theorem Decides.of_sameLookup {env : Environment} {request owner : PathRequest} {value : Bool}
    (hdecides : Decides env owner value) (h : SameLookup request owner) :
    Decides env request value := by
  obtain ⟨root, hroot, hvalue⟩ := hdecides
  refine ⟨root, h.root.trans hroot, ?_⟩
  rw [h.path]
  exact hvalue

variable {env : Environment} {puts : PathRequest → (key : PathCacheKey) → key.Value → Prop}
  {agree : PathRequest → PathRequest → PathCacheKey → Prop} {request : PathRequest}

/-- The handler stores what the request decides, and it is sound when it finds only this. -/
theorem requestHandler_sound
    (hput : ∀ value, Decides env request value →
      puts request (key request.config request.request) value)
    (hfound : ∀ owner value, agree request owner (key request.config request.request) →
      puts owner (key request.config request.request) value → Decides env request value) :
    (requestHandler env request.config request.request).Sound puts agree request
      (requestHandler env request.config request.request).fresh := by
  unfold requestHandler
  split
  · rfl
  · split
    · rfl
    · rename_i root hroot
      split
      · rfl
      · split
        · rfl
        · split
          · rfl
          · apply Program.cached_sound
            · intro value hvalue
              exact hput value ⟨root, hroot, hvalue⟩
            · intro owner value hagree hputs
              obtain ⟨root', hroot', hvalue⟩ := hfound owner value hagree hputs
              obtain rfl := Option.some.inj (hroot.symm.trans hroot')
              exact hvalue

end Ferron.Modules.TrailingRedirect
