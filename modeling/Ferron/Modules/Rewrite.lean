import Ferron.Common.Config
import Ferron.Common.HeaderPlaceholders
import Ferron.Modules.RemoveBase
import Ferron.Rust.Path

/-!
# URL rewriting

The rewrite module applies its rules to the URL of a request one after the other. What comes out is put
into the request when no original URL has been saved, and the URL from before is not saved then. When the
core module has saved one with the removal of a location prefix, the request keeps the URL that it has.
So a URL that the rules change is either not rewritten or not kept (`rewritten_not_kept`).
-/

set_option autoImplicit false

namespace Ferron.Modules.Rewrite

open Ferron.Common Ferron.Common.MatchLocation Ferron.Http Ferron.Modules.RemoveBase

/-! ## The rules -/

/-- `UrlRewriteRule`. -/
structure UrlRewriteRule (ρ : Type) where
  regex : ρ
  replacement : Str
  isNotDirectory : Bool
  isNotFile : Bool
  last : Bool
  allowDoubleSlashes : Bool

/-- Other libraries: the replacement of the first match of a regular expression, and how the HTTP library
reads a URL in the place of that of a request. -/
structure Library (ρ : Type) where
  replace : ρ → Str → Str → Str
  replacePathAndQuery : CoreRequest → Str → Option Uri

section Rules

-- The metadata of a file or a directory, from the cache or the file system, when a rule is at turn.
variable {ρ : Type} (library : Library ρ) (metadata : Nat → PathBuf → Bool × Bool)
  (config : ServerConfiguration)

/-- `joined_pathbuf`. -/
def joinedPathbuf (wwwroot : PathBuf) (rewrittenUrl : Str) : PathBuf :=
  PathBuf.join wwwroot ((rewrittenUrl.tail.dropWhile (· = '/')).takeWhile (· ≠ '?'))

/-- Whether a rule is passed over, since the URL is that of a file or a directory. -/
def passesOver (index : Nat) (rule : UrlRewriteRule ρ) (rewrittenUrl : Str) : Bool :=
  (rule.isNotDirectory || rule.isNotFile) &&
    match ((config.getEntry "root".toList).bind fun e => e.values.head?).bind
        ServerConfigurationValue.asStr with
    | some wwwroot =>
        let (isFile, isDirectory) := metadata index (joinedPathbuf wwwroot rewrittenUrl)
        rule.isNotFile && isFile || rule.isNotDirectory && isDirectory
    | none => false

/-- The URL that a rule is applied to. -/
def oldRewrittenUrl (rule : UrlRewriteRule ρ) (rewrittenUrl : Str) : Str :=
  if rule.allowDoubleSlashes then rewrittenUrl else (collapseLoop rewrittenUrl).1

/-- The loop over the rules, from one index on; there is no result when a rule gives something else than a
path. -/
def rewriteUrl : Nat → List (UrlRewriteRule ρ) → Str → Option Str
  | _, [], rewrittenUrl => some rewrittenUrl
  | index, rule :: rules, rewrittenUrl =>
      if passesOver metadata config index rule rewrittenUrl then rewriteUrl (index + 1) rules rewrittenUrl
      else
        let old := oldRewrittenUrl rule rewrittenUrl
        let new := library.replace rule.regex old rule.replacement
        if new.head? ≠ some '/' then none
        else if rule.last && old != new then some new
        else rewriteUrl (index + 1) rules new

/-- The URL of a request as the rules get it. -/
def originalUrl (request : CoreRequest) : Str :=
  request.request.uri.path ++ displayQuery request.request.uri.query

/-- What the module answers with: the request for the modules behind it, the status code of an error
response, or an error. -/
inductive Handled where
  | passed (request : CoreRequest)
  | status (code : Nat)
  | error

/-- `request_handler`. -/
def requestHandler (rules : List (UrlRewriteRule ρ)) (request : CoreRequest) : Handled :=
  if (originalUrl request).head? ≠ some '/' then .status 400
  else
    match rewriteUrl library metadata config 0 rules (originalUrl request) with
    | none => .status 400
    | some rewrittenUrl =>
        if rewrittenUrl ≠ originalUrl request then
          match request.originalUrl with
          | some _ => .passed request
          | none =>
              match library.replacePathAndQuery request rewrittenUrl with
              | some uri => .passed { request with request := { request.request with uri := uri } }
              | none => .error
        else .passed request

/-! ## What the rules do to a request -/

/-- The rules give another URL than the request has. -/
structure Changes (rules : List (UrlRewriteRule ρ)) (request : CoreRequest) (rewritten : Str) : Prop where
  rewrites : rewriteUrl library metadata config 0 rules (originalUrl request) = some rewritten
  text : rewritten ≠ originalUrl request
  uri : library.replacePathAndQuery request rewritten ≠ some request.request.uri

/-- A request carries the URL that the rules gave, and the URL that the client sent as the original one. -/
structure RewrittenAndKept (sent rewriting passed : CoreRequest) (rewritten : Str) : Prop where
  rewritten : library.replacePathAndQuery rewriting rewritten = some passed.request.uri
  original : passed.originalUrl = some sent.request.uri

/-- A request with a saved URL is passed on as it is. -/
theorem requestHandler_of_original {rules : List (UrlRewriteRule ρ)} {request : CoreRequest}
    {rewritten : Str} (hsaved : request.originalUrl.isSome = true)
    (hpath : (originalUrl request).head? = some '/')
    (h : rewriteUrl library metadata config 0 rules (originalUrl request) = some rewritten) :
    requestHandler library metadata config rules request = .passed request := by
  obtain ⟨url, hurl⟩ := Option.isSome_iff_exists.1 hsaved
  rw [requestHandler, if_neg (not_not.2 hpath), h]
  dsimp only
  split
  · rw [hurl]
  · rfl

/-- The request that the module passes on when the rules change its URL. -/
theorem requestHandler_changes {rules : List (UrlRewriteRule ρ)} {request passed : CoreRequest}
    {rewritten : Str} (hchanges : Changes library metadata config rules request rewritten)
    (hpassed : requestHandler library metadata config rules request = .passed passed) :
    request.originalUrl.isSome = true ∧ passed = request ∨
      request.originalUrl = none ∧ passed.originalUrl = none := by
  rw [requestHandler] at hpassed
  split at hpassed
  · nomatch hpassed
  · rw [hchanges.rewrites] at hpassed
    dsimp only at hpassed
    rw [if_pos hchanges.text] at hpassed
    cases horiginal : request.originalUrl with
    | some url =>
        rw [horiginal] at hpassed
        exact Or.inl ⟨rfl, (Handled.passed.inj hpassed).symm⟩
    | none =>
        rw [horiginal] at hpassed
        dsimp only at hpassed
        split at hpassed
        · rw [← Handled.passed.inj hpassed]
          exact Or.inr ⟨rfl, rfl⟩
        · nomatch hpassed

/-- No request whose URL the rules change is passed on with the rewritten URL and the original one, with
the removal of a location prefix before or without. -/
theorem rewritten_not_kept (rules : List (UrlRewriteRule ρ)) (location : Option Str)
    (sent passed : CoreRequest) (rewritten : Str)
    (hchanges : Changes library metadata config rules (removePathPrefix location sent) rewritten)
    (hpassed : requestHandler library metadata config rules (removePathPrefix location sent) =
      .passed passed) :
    ¬ RewrittenAndKept library sent (removePathPrefix location sent) passed rewritten := by
  rintro ⟨hrewritten, horiginal⟩
  rcases requestHandler_changes library metadata config hchanges hpassed with ⟨-, rfl⟩ | ⟨-, hnone⟩
  · -- the prefix was removed, and the module leaves the request alone
    exact hchanges.uri hrewritten
  · -- nothing was saved before, and the module saves nothing
    rw [hnone] at horiginal
    nomatch horiginal

end Rules

/-! ## A rewritten URL without and with a location prefix -/

theorem takeWhile_no_question (text : Str) : '?' ∉ text.takeWhile (· ≠ '?') := by
  intro hmem
  have hne := List.mem_takeWhile_imp hmem
  simp at hne

/-- A URL read as a path and a query. -/
def readUrl (text : Str) : Uri :=
  ⟨text.takeWhile (· ≠ '?'), (text.dropWhile (· ≠ '?')).tail?, takeWhile_no_question text⟩

/-- Regular expressions that are literal texts at the beginning of a URL. -/
def literals : Library Str where
  replace regex url replacement :=
    if regex.isPrefixOf url then replacement ++ url.drop regex.length else url
  replacePathAndQuery _ url := some (readUrl url)

/-- A configuration without properties. -/
def emptyConfiguration : ServerConfiguration := ⟨∅, ⟨true, none, none, none, none, none⟩⟩

/-- No file and no directory. -/
def noFiles : Nat → PathBuf → Bool × Bool := fun _ _ => (false, false)

/-- `rewrite "^/old" "/new" allow_double_slashes=#true`. -/
def oldToNew : UrlRewriteRule Str := ⟨"/old".toList, "/new".toList, false, false, false, true⟩

theorem old_no_question : '?' ∉ "/old".toList := by decide

theorem appOld_no_question : '?' ∉ "/app/old".toList := by decide

/-- A request for the old URL. -/
def oldRequest : CoreRequest := getRequest "/old".toList old_no_question

/-- A request for the old URL in a location. -/
def appRequest : CoreRequest := getRequest "/app/old".toList appOld_no_question

/-- The request for the new URL. -/
def newRequest : CoreRequest :=
  { oldRequest with request := { oldRequest.request with uri := readUrl "/new".toList } }

/-- The request is passed on with the new URL, and the old one is lost. -/
theorem oldRequest_not_kept :
    requestHandler literals noFiles emptyConfiguration [oldToNew] (removePathPrefix none oldRequest) =
        .passed newRequest ∧
      ¬ RewrittenAndKept literals oldRequest (removePathPrefix none oldRequest) newRequest
        "/new".toList :=
  ⟨rfl, rewritten_not_kept literals noFiles emptyConfiguration [oldToNew] none oldRequest newRequest
    "/new".toList ⟨by decide, by decide, by decide⟩ rfl⟩

/-- Without a location prefix the original URL is not saved, and with one the URL is not rewritten. -/
theorem requestHandler_oldToNew :
    (requestHandler literals noFiles emptyConfiguration [oldToNew] (removePathPrefix none oldRequest) =
        .passed newRequest ∧
      newRequest.originalUrl = none) ∧
      rewriteUrl literals noFiles emptyConfiguration 0 [oldToNew]
        (originalUrl (removePathPrefix (some "/app".toList) appRequest)) = some "/new".toList ∧
      requestHandler literals noFiles emptyConfiguration [oldToNew]
        (removePathPrefix (some "/app".toList) appRequest) =
          .passed (removePathPrefix (some "/app".toList) appRequest) ∧
      (removePathPrefix (some "/app".toList) appRequest).request.uri.path = "/old".toList := by
  have hrewrite : rewriteUrl literals noFiles emptyConfiguration 0 [oldToNew]
      (originalUrl (removePathPrefix (some "/app".toList) appRequest)) = some "/new".toList := by
    decide +kernel
  refine ⟨⟨rfl, rfl⟩, hrewrite, ?_, ?_⟩
  · exact requestHandler_of_original _ _ _ (by decide +kernel) (by decide +kernel) hrewrite
  · decide +kernel

end Ferron.Modules.Rewrite
