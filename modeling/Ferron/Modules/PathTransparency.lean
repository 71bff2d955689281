import Ferron.Modules.ScriptLookup
import Ferron.Modules.StaticLookup
import Ferron.Modules.TrailingRedirect

/-!
# Transparency of the path caches

The keys of the path caches have the IP address and the hostname of a configuration, but not its port
and location, and not the settings that a lookup depends on. So a request can be answered with what
another configuration stored (`staticFile_other_root`). `pathCaches_transparent` says when a run is
transparent: whenever a lookup finds something that is still alive, the request that has stored it has
the same settings and the same path.
-/

set_option autoImplicit false

namespace Ferron.Modules.PathTransparency

open Ferron.Common Ferron.Http Ferron.Lib.SharedCache Ferron.Modules.PathCache

/-- The handler of a request, as a program on the caches. -/
def handle (env : Environment) (request : PathRequest) : PathProgram :=
  match request.handler with
  | .trailing => TrailingRedirect.requestHandler env request.config request.request
  | .cgi => CgiScript.requestHandler env request.config request.request
  | .fcgi => FcgiScript.requestHandler env request.config request.request
  | .staticFile => StaticLookup.requestHandler env request.config request.request

/-- What a request stores under a key is what its own configuration says. -/
def Puts (env : Environment) (request : PathRequest) : (key : PathCacheKey) → key.Value → Prop
  | .trailingSlashes _, value => TrailingRedirect.Decides env request value
  | .cgiPath _, data => CgiScript.Decides env request data
  | .fcgiPath _, data => FcgiScript.Decides env request data
  | .pathbuf _, path => StaticLookup.Decides env request path
  | .pathTraversalCheck path, allowed =>
      ∃ root, request.root = some root ∧ allowed = StaticLookup.isAllowed env root path

/-- A request may use what another one has stored under a key: all that the lookup depends on is the
same. -/
def SameResolution (env : Environment) (request owner : PathRequest) : PathCacheKey → Prop
  | .trailingSlashes _ => TrailingRedirect.SameLookup request owner
  | .cgiPath _ => CgiScript.SameLookup env request owner
  | .fcgiPath _ => FcgiScript.SameLookup request owner
  | .pathbuf _ => StaticLookup.SameLookup env request owner
  | .pathTraversalCheck _ => request.root = owner.root

/-- Every handler is sound. -/
theorem handle_sound (env : Environment) (request : PathRequest) :
    (handle env request).Sound (Puts env) (SameResolution env) request
      (handle env request).fresh := by
  rw [handle]
  cases request.handler with
  | trailing =>
      apply TrailingRedirect.requestHandler_sound
      · intro value hvalue
        exact hvalue
      · intro owner value hagree hputs
        exact TrailingRedirect.Decides.of_sameLookup hputs hagree
  | cgi =>
      apply CgiScript.requestHandler_sound
      · intro data hdata
        exact hdata
      · intro owner data hagree hputs
        exact CgiScript.Decides.of_sameLookup hputs hagree
  | fcgi =>
      apply FcgiScript.requestHandler_sound
      · intro data hdata
        exact hdata
      · intro owner data hagree hputs
        exact FcgiScript.Decides.of_sameLookup hputs hagree
  | staticFile =>
      apply StaticLookup.requestHandler_sound
      · intro path hpath
        exact hpath
      · intro root path hroot
        exact ⟨root, hroot, rfl⟩
      · intro owner path hagree hputs
        exact ⟨StaticLookup.Decides.of_sameLookup hputs hagree, hagree.inside⟩
      · intro root owner path allowed hroot hagree hputs
        obtain ⟨root', hroot', rfl⟩ := hputs
        obtain rfl := Option.some.inj (hroot.symm.trans (hagree.trans hroot'))
        rfl

/-- The path caches are empty and no request has come in. -/
abbrev initialRun : RunState pathCaches PathRequest Outcome := initial

/-- In every run in which a lookup finds only what a request with the same resolution has stored, each
request gets what it would get with empty caches. -/
theorem pathCaches_transparent (env : Environment) (actions : List (Action PathRequest))
    (hsame : AllAgree (handle env) (SameResolution env) initialRun actions) :
    ∀ entry ∈ (run (handle env) initialRun actions).results,
      entry.2 = (handle env entry.1).fresh :=
  results_eq_fresh (handle_sound env) hsame

/-- A host with a web root on a port. -/
def hostConfig (port : UInt16) (root : Str) : ServerConfiguration where
  entries := AList.insert "root".toList ⟨[⟨[.string root], ∅⟩]⟩ ∅
  filters := ⟨true, some "host".toList, none, some port, none, none⟩

/-- A request for `/file` to the static file module. -/
def fileRequest (port : UInt16) (root : Str) : PathRequest where
  handler := .staticFile
  config := hostConfig port root
  request := ⟨.get, ⟨"/file".toList, none, by decide⟩, []⟩

/-- A file system that has only the file `/one/file`. -/
def oneFile : Environment where
  decode := some
  metadata path := if path = "/one/file".toList then .ok .file else .error .notFound
  canonicalize _ := none

/-- Two requests, one after the other. -/
def twoRequests (first second : PathRequest) : List (Action PathRequest) :=
  [.start first, .resume 0 0, .resume 0 0, .resume 0 0, .start second, .resume 0 0, .resume 0 0]

/-- A host on another port, with another web root, is served the file of the first one. -/
theorem staticFile_other_root :
    ((run (handle oneFile) initialRun
        (twoRequests (fileRequest 80 "/one".toList) (fileRequest 81 "/two".toList))).results.map
      Prod.snd) = [.found "/one/file".toList .file, .found "/one/file".toList .file] ∧
    (handle oneFile (fileRequest 81 "/two".toList)).fresh = .status 404 [] := by
  decide +kernel

/-- With the same web root the second request may use the cache. -/
theorem pathCaches_transparent_twice :
    ((run (handle oneFile) initialRun
        (twoRequests (fileRequest 80 "/one".toList) (fileRequest 81 "/one".toList))).results.all
      fun entry => decide (entry.2 = (handle oneFile entry.1).fresh)) = true := by
  rw [List.all_eq_true]
  intro entry hentry
  apply decide_eq_true
  refine pathCaches_transparent oneFile _ ?_ entry hentry
  refine ⟨trivial, ?_, trivial, trivial, trivial, ?_, trivial, trivial⟩
  · intro stored hstored
    exact absurd hstored (Option.not_mem_none stored)
  · intro stored hstored halive
    obtain rfl := Option.some.inj hstored
    exact ⟨rfl, rfl, rfl, fun hdisable => absurd hdisable (by decide +kernel)⟩

end Ferron.Modules.PathTransparency
