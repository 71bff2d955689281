import Ferron.Common.MatchLocation
import Ferron.Http.Request
import Mathlib.Tactic

/-!
# Removal of the location prefix

A `location` block with `remove_base` has the core module strip its prefix from the request path. The
prefix is prepared as for the choice of the location, the request path is compared as it is.

A choice of the location calls for a path that gives the request path when it follows the prefix, up to
runs of slashes and the trailing slash (`Removes`). `removesWhenMatched_iff` says for which requests the
core module does so: `match_location` takes every path with a double slash for one under the prefix, and
of these the prefix is only removed where it stands literally. Requests to a forward proxy are left
alone.
-/

set_option autoImplicit false

namespace Ferron.Modules.RemoveBase

open Ferron.Http
open Ferron.Common.MatchLocation

/-- The method of a tunnel, `Method::CONNECT`. -/
def connect : Method := ⟨"CONNECT".toList, by decide⟩

/-- A request as the core module gets it: the version, the host of the request target, and the URL
saved in the request data. -/
structure CoreRequest where
  version : Version
  host : Option Str
  request : Request
  originalUrl : Option Uri

/-- `is_proxy_request`. -/
def isProxyRequest (request : CoreRequest) : Bool :=
  match request.version with
  | .http2 | .http3 => request.request.method = connect && request.host.isSome
  | _ => request.host.isSome

/-- `path_prepared`. -/
def pathPrepared (location : Str) : Str := (collapseLoop (trimTrailingSlashes location)).1

/-- `new_path`, where `strip_prefix` has found the prefix. -/
def newPath (location requestPath : Str) : Option Str :=
  if requestPath = pathPrepared location then some ['/']
  else if (pathPrepared location ++ ['/']).isPrefixOf requestPath then
    some (requestPath.drop (pathPrepared location).length)
  else none

theorem newPath_no_question {location requestPath path : Str} (hrequest : '?' ∉ requestPath)
    (h : newPath location requestPath = some path) : '?' ∉ path := by
  unfold newPath at h
  split at h
  · rw [← Option.some.inj h]
    decide
  · split at h
    · rw [← Option.some.inj h]
      exact fun hmem => hrequest (List.mem_of_mem_drop hmem)
    · exact absurd h (by simp)

/-- The URL with the new path and the old query. -/
def rewriteUri (location : Str) (uri : Uri) : Uri :=
  match h : newPath location uri.path with
  | some path => ⟨path, uri.query, newPath_no_question uri.path_no_question h⟩
  | none => uri

/-- The removal in `request_handler`. The location is the value of `UNDOCUMENTED_REMOVE_PATH_PREFIX`. -/
def removePathPrefix (location : Option Str) (request : CoreRequest) : CoreRequest :=
  if isProxyRequest request then request
  else
    match location with
    | some location =>
        { request with
          request := { request.request with uri := rewriteUri location request.request.uri }
          originalUrl := request.originalUrl.or (some request.request.uri) }
    | none => request

@[simp] theorem rewriteUri_path (location : Str) (uri : Uri) :
    (rewriteUri location uri).path = (newPath location uri.path).getD uri.path := by
  unfold rewriteUri
  split
  · next path h => exact (congrArg (Option.getD · uri.path) h).symm
  · next h => exact (congrArg (Option.getD · uri.path) h).symm

@[simp] theorem rewriteUri_query (location : Str) (uri : Uri) :
    (rewriteUri location uri).query = uri.query := by
  unfold rewriteUri
  split <;> rfl

/-! ## Texts up to repeated and trailing slashes -/

/-- A path up to runs of slashes and trailing slashes. -/
def normalize (path : Str) : Str := trimTrailingSlashes (collapseRuns path)

/-- Whether the last character was a slash, after some characters. -/
def slashAfter : Bool → Str → Bool
  | afterSlash, [] => afterSlash
  | _, c :: cs => slashAfter (c = '/') cs

@[simp] theorem slashAfter_concat (afterSlash : Bool) (s : Str) (c : Char) :
    slashAfter afterSlash (s ++ [c]) = decide (c = '/') := by
  induction s generalizing afterSlash with
  | nil => rfl
  | cons d s ih => exact ih _

theorem collapseFrom_append (afterSlash : Bool) (s t : Str) :
    collapseFrom afterSlash (s ++ t) =
      collapseFrom afterSlash s ++ collapseFrom (slashAfter afterSlash s) t := by
  induction s generalizing afterSlash with
  | nil => rfl
  | cons c s ih =>
      rw [List.cons_append, collapseFrom, collapseFrom, slashAfter]
      by_cases hc : c = '/'
      · rw [if_pos hc, if_pos hc, ih, decide_eq_true hc]
        cases afterSlash with
        | false => rfl
        | true => rfl
      · rw [if_neg hc, if_neg hc, ih, decide_eq_false hc, List.cons_append]

@[simp] theorem slashAfter_collapseFrom (afterSlash : Bool) (s : Str) :
    slashAfter afterSlash (collapseFrom afterSlash s) = slashAfter afterSlash s := by
  induction s generalizing afterSlash with
  | nil => rfl
  | cons c s ih =>
      rw [collapseFrom, slashAfter]
      by_cases hc : c = '/'
      · rw [if_pos hc, decide_eq_true hc]
        cases afterSlash with
        | false => exact ih true
        | true => exact ih true
      · rw [if_neg hc, decide_eq_false hc, slashAfter, decide_eq_false hc]
        exact ih false

theorem collapseFrom_idem (afterSlash : Bool) (s : Str) :
    collapseFrom afterSlash (collapseFrom afterSlash s) = collapseFrom afterSlash s := by
  induction s generalizing afterSlash with
  | nil => rfl
  | cons c s ih =>
      rw [collapseFrom]
      by_cases hc : c = '/'
      · rw [if_pos hc]
        cases afterSlash with
        | true => exact ih true
        | false =>
            rw [if_neg (by simp), collapseFrom, if_pos rfl, if_neg (by simp), ih]
      · rw [if_neg hc, collapseFrom, if_neg hc, ih]

/-- A beginning may be collapsed first. -/
theorem collapseRuns_append (s t : Str) :
    collapseRuns (collapseRuns s ++ t) = collapseRuns (s ++ t) := by
  rw [collapseRuns, collapseFrom_append, collapseRuns, collapseFrom_idem, slashAfter_collapseFrom,
    collapseRuns, collapseFrom_append]

theorem trimTrailingSlashes_concat_slash (s : Str) :
    trimTrailingSlashes (s ++ ['/']) = trimTrailingSlashes s :=
  List.rdropWhile_concat_pos _ _ _ rfl

theorem trimTrailingSlashes_concat {c : Char} (hc : c ≠ '/') (s : Str) :
    trimTrailingSlashes (s ++ [c]) = s ++ [c] :=
  List.rdropWhile_concat_neg _ _ _ (by simpa using hc)

/-- A slash at the end does not count. -/
theorem normalize_concat_slash (s : Str) : normalize (s ++ ['/']) = normalize s := by
  rw [normalize, collapseRuns, collapseFrom_append]
  cases slashAfter false s with
  | true => rw [collapseFrom, if_pos rfl, if_pos rfl, collapseFrom, List.append_nil]; rfl
  | false =>
      rw [collapseFrom, if_pos rfl, if_neg (by simp), collapseFrom]
      exact trimTrailingSlashes_concat_slash _

theorem collapseRuns_eq_nil {s : Str} : collapseRuns s = [] ↔ s = [] := by
  constructor
  · intro h
    cases s with
    | nil => rfl
    | cons c s =>
        rw [collapseRuns, collapseFrom] at h
        split at h <;> simp at h
  · rintro rfl
    rfl

theorem slashAfter_trimTrailingSlashes (s : Str) :
    slashAfter false (trimTrailingSlashes s) = false := by
  induction s using List.reverseRecOn with
  | nil => rfl
  | append_singleton s c ih =>
      by_cases hc : c = '/'
      · subst hc
        rw [trimTrailingSlashes_concat_slash]
        exact ih
      · rw [trimTrailingSlashes_concat hc, slashAfter_concat, decide_eq_false hc]

/-- Without a slash at the end there is nothing to trim. -/
theorem trimTrailingSlashes_of_slashAfter {s : Str} (h : slashAfter false s = false) :
    trimTrailingSlashes s = s := by
  induction s using List.reverseRecOn with
  | nil => rfl
  | append_singleton s c _ =>
      rw [slashAfter_concat] at h
      exact trimTrailingSlashes_concat (of_decide_eq_false h) s

/-- A text of slashes is trimmed away, whatever comes before it. -/
theorem trimTrailingSlashes_append_of_eq_nil {s t : Str} (h : trimTrailingSlashes t = []) :
    trimTrailingSlashes (s ++ t) = trimTrailingSlashes s := by
  induction t using List.reverseRecOn with
  | nil => rw [List.append_nil]
  | append_singleton t c ih =>
      by_cases hc : c = '/'
      · subst hc
        rw [trimTrailingSlashes_concat_slash] at h
        rw [← List.append_assoc, trimTrailingSlashes_concat_slash]
        exact ih h
      · rw [trimTrailingSlashes_concat hc] at h
        exact absurd h (by simp)

/-- In any other text the trimming stops. -/
theorem trimTrailingSlashes_append_of_ne_nil {s t : Str} (h : trimTrailingSlashes t ≠ []) :
    trimTrailingSlashes (s ++ t) = s ++ trimTrailingSlashes t := by
  induction t using List.reverseRecOn with
  | nil => exact absurd rfl h
  | append_singleton t c ih =>
      by_cases hc : c = '/'
      · subst hc
        rw [trimTrailingSlashes_concat_slash] at h
        rw [← List.append_assoc, trimTrailingSlashes_concat_slash, trimTrailingSlashes_concat_slash]
        exact ih h
      · rw [← List.append_assoc, trimTrailingSlashes_concat hc, trimTrailingSlashes_concat hc,
          List.append_assoc]

/-- A text without a slash at the end, before a path, is seen in the normalized whole. -/
theorem eq_nil_of_normalize_append {s rest : Str} (hs : slashAfter false s = false)
    (h : normalize (s ++ '/' :: rest) = normalize ('/' :: rest)) : s = [] := by
  rw [← collapseRuns_eq_nil]
  have hcollapsed : slashAfter false (collapseRuns s) = false := by
    rw [collapseRuns, slashAfter_collapseFrom]
    exact hs
  have happend : collapseRuns (s ++ '/' :: rest) = collapseRuns s ++ collapseRuns ('/' :: rest) := by
    rw [collapseRuns, collapseFrom_append, hs]
    rfl
  rw [normalize, normalize, happend] at h
  by_cases hnil : trimTrailingSlashes (collapseRuns ('/' :: rest)) = []
  · rw [trimTrailingSlashes_append_of_eq_nil hnil, hnil,
      trimTrailingSlashes_of_slashAfter hcollapsed] at h
    exact h
  · rw [trimTrailingSlashes_append_of_ne_nil hnil] at h
    exact List.append_left_eq_self.1 h

/-! ## The removal and the choice of the location -/

/-- A new path that starts with a slash and gives the request path when it follows the location. -/
def Removes (location requestPath path : Str) : Prop :=
  path.head? = some '/' ∧
    normalize (trimTrailingSlashes location ++ path) = normalize requestPath

instance (location requestPath path : Str) : Decidable (Removes location requestPath path) :=
  inferInstanceAs (Decidable (_ ∧ _))

/-- The request path is the prepared location or continues it with a slash. -/
def StandsLiterally (location requestPath : Str) : Prop :=
  requestPath = pathPrepared location ∨ pathPrepared location ++ ['/'] <+: requestPath

theorem pathPrepared_eq (location : Str) :
    pathPrepared location = collapseRuns (trimTrailingSlashes location) :=
  collapseLoop_eq _

/-- Where the location stands literally it is removed. -/
theorem removes_of_standsLiterally {location requestPath : Str}
    (h : StandsLiterally location requestPath) :
    Removes location requestPath ((newPath location requestPath).getD requestPath) := by
  have hnormalize : ∀ path : Str, normalize (trimTrailingSlashes location ++ path) =
      normalize (pathPrepared location ++ path) := by
    intro path
    rw [pathPrepared_eq, normalize, normalize, collapseRuns_append]
  rcases h with hsame | hstart
  · rw [newPath, if_pos hsame, Option.getD_some]
    refine ⟨rfl, ?_⟩
    rw [hnormalize, normalize_concat_slash, hsame]
  · rw [newPath]
    by_cases hsame : requestPath = pathPrepared location
    · rw [if_pos hsame, Option.getD_some]
      refine ⟨rfl, ?_⟩
      rw [hnormalize, normalize_concat_slash, hsame]
    · rw [if_neg hsame, if_pos (List.isPrefixOf_iff_prefix.2 hstart), Option.getD_some]
      obtain ⟨rest, rfl⟩ := hstart
      rw [List.append_assoc, List.drop_left]
      exact ⟨rfl, hnormalize _⟩

/-- Where it does not, the request path stays. -/
theorem newPath_eq_none {location requestPath : Str} (h : ¬ StandsLiterally location requestPath) :
    newPath location requestPath = none := by
  rw [StandsLiterally, not_or] at h
  rw [newPath, if_neg h.1, if_neg]
  rw [List.isPrefixOf_iff_prefix]
  exact h.2

theorem pathPrepared_eq_nil {location : Str} :
    pathPrepared location = [] ↔ trimTrailingSlashes location = [] := by
  rw [pathPrepared_eq, collapseRuns_eq_nil]

/-- A path that stays is right exactly after a location of slashes. -/
theorem removes_self_iff {location requestPath : Str} :
    Removes location requestPath requestPath ↔
      pathPrepared location = [] ∧ requestPath.head? = some '/' := by
  rw [pathPrepared_eq_nil]
  constructor
  · rintro ⟨hhead, hnormalize⟩
    obtain ⟨rest, rfl⟩ := List.head?_eq_some_iff.1 hhead
    exact ⟨eq_nil_of_normalize_append (slashAfter_trimTrailingSlashes location) hnormalize, hhead⟩
  · rintro ⟨hnil, hhead⟩
    refine ⟨hhead, ?_⟩
    rw [hnil, List.nil_append]

/-- A path without a double slash that matches the location has it literally. -/
theorem standsLiterally_of_matchLocation {location requestPath : Str}
    (hslash : containsDoubleSlash requestPath = false)
    (hmatch : matchLocation id location requestPath = true) :
    StandsLiterally location requestPath := by
  have hunder := (matchLocation_iff_of_not_contains id location hslash).1 hmatch
  have hcollapsed : collapseRuns requestPath = requestPath :=
    collapseFrom_eq_self false requestPath hslash fun h => absurd h (by simp)
  rw [UnderLocation, hcollapsed] at hunder
  rw [StandsLiterally, pathPrepared_eq]
  exact hunder

/-- When `match_location` selects the location, the path that the core module hands on is what follows
the location. -/
def RemovesWhenMatched (location : Str) (request : CoreRequest) : Prop :=
  matchLocation id location request.request.uri.path = true →
    Removes location request.request.uri.path
      (removePathPrefix (some location) request).request.uri.path

/-- The core module removes the location that has been chosen exactly when the path has no double slash
or has the location literally. A request to a forward proxy keeps its path, which is right only where
the location does not match or consists of slashes. -/
theorem removesWhenMatched_iff (location : Str) (request : CoreRequest) :
    RemovesWhenMatched location request ↔
      if isProxyRequest request then
        matchLocation id location request.request.uri.path = false ∨
          pathPrepared location = [] ∧ request.request.uri.path.head? = some '/'
      else containsDoubleSlash request.request.uri.path = false ∨
        StandsLiterally location request.request.uri.path := by
  rw [RemovesWhenMatched, removePathPrefix]
  cases hproxy : isProxyRequest request with
  | true =>
      rw [if_pos rfl, if_pos rfl]
      rw [removes_self_iff]
      cases matchLocation id location request.request.uri.path <;> simp
  | false =>
      rw [if_neg (by simp), if_neg (by simp), rewriteUri_path]
      generalize request.request.uri.path = requestPath
      constructor
      · intro h
        cases hslash : containsDoubleSlash requestPath with
        | false => exact Or.inl rfl
        | true =>
            right
            by_contra hnot
            have hremoves := h (matchLocation_of_contains id location hslash)
            rw [newPath_eq_none hnot, Option.getD_none] at hremoves
            obtain ⟨hnil, hhead⟩ := removes_self_iff.1 hremoves
            obtain ⟨rest, rfl⟩ := List.head?_eq_some_iff.1 hhead
            apply hnot
            rw [StandsLiterally, hnil]
            exact Or.inr ⟨rest, rfl⟩
      · intro h hmatch
        apply removes_of_standsLiterally
        rcases h with hslash | hliteral
        · exact standsLiterally_of_matchLocation hslash hmatch
        · exact hliteral

/-- A GET request for a path to the server itself. -/
def getRequest (path : Str) (hpath : '?' ∉ path) : CoreRequest :=
  ⟨.http11, none, ⟨Method.get, ⟨path, none, hpath⟩, []⟩, none⟩

/-- A double slash before the prefix: the location is chosen, and the prefix stays in place. -/
theorem removePathPrefix_double_slash :
    matchLocation id "/api".toList "//api/x".toList = true ∧
      (removePathPrefix (some "/api".toList)
        (getRequest "//api/x".toList (by decide))).request.uri.path = "//api/x".toList ∧
      ¬ RemovesWhenMatched "/api".toList (getRequest "//api/x".toList (by decide)) := by
  unfold RemovesWhenMatched
  decide +kernel

end Ferron.Modules.RemoveBase
