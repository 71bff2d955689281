import Ferron.Common.HeaderPlaceholders
import Ferron.Config.ConditionalData
import Ferron.Config.FindConfiguration
import Ferron.Config.MergeDuplicates
import Ferron.Modules.Replace

/-!
# Matching a subcondition

`matchCondition` evaluates a subcondition for a request. Subconditions are compared when configurations
are merged, and `matchCondition_eq_iff` says when two that compare equal mean the same: regular
expressions are compared by their patterns only, so one that ignores the case of letters equals one that
does not.
-/

set_option autoImplicit false

namespace Ferron.Config

open Ferron.Common Ferron.Http Ferron.Lib.AdjacentMerge Ferron.Lib.StableSort

/-! ## What subconditions are evaluated with -/

/-- What a Rego policy gets of a request. A header or a constant that is not there has no texts. -/
structure RegoInput where
  method : Str
  protocol : Str
  uri : Str
  headers : HeaderName → List Str
  clientIp : Str
  clientPort : Nat
  serverIp : Str
  serverPort : Nat
  encrypted : Bool
  constants : Str → Option Str

/-- A subcondition is not evaluated: there is an error, or the placeholders are replaced forever. -/
inductive Failure where
  | error (message : Str)
  | diverges
  deriving DecidableEq

/-- What subconditions are evaluated with: reading addresses, regular expressions, Rego engines by their
policies, and the qualities of languages. When a quality is no number the sort may leave the languages in
any order. -/
structure Matcher where
  parseIpAddr : Str → Option IpAddr
  isMatch : Regex → Str → Except Str Bool
  evalRule : List Str → RegoInput → Except Str Bool
  Quality : Type
  zero : Quality
  one : Quality
  parseQuality : Str → Option Quality
  sortByQuality : List (Str × Quality) → List (Str × Quality)

/-! ## Lists of languages -/

/-- `split_once` with a hyphen: the text before it. -/
def beforeHyphen (s : Str) : Option Str :=
  if s.contains '-' then some (s.takeWhile (· ≠ '-')) else none

namespace Matcher

variable (matcher : Matcher)

/-- A value of a header with its quality, if it has one. -/
def valueFromStr (s : Str) : Str × Option matcher.Quality :=
  let parts := s.splitOn ';'
  (Modules.Replace.trim (parts.headD []),
    parts[1]?.map fun part =>
      let part := Modules.Replace.trim part
      (matcher.parseQuality (if "q=".toList.isPrefixOf part then part.drop 2 else ['0'])).getD
        matcher.zero)

/-- A value without a quality has that of the next one that has one, or the quality one. The first
component is the quality of the first value that has one. -/
def fillQualities : List (Str × Option matcher.Quality) →
    Option matcher.Quality × List (Str × matcher.Quality)
  | [] => (none, [])
  | (value, none) :: values =>
      let (last, filled) := fillQualities values
      (last, (value, last.getD matcher.one) :: filled)
  | (value, some quality) :: values => (some quality, (value, quality) :: (fillQualities values).2)

/-- `parse_q_value_header`. -/
def parseQValueHeader (header : Str) : List Str :=
  let values := (header.splitOn ',').map fun s => matcher.valueFromStr (Modules.Replace.trim s)
  (matcher.sortByQuality (matcher.fillQualities values).2).map Prod.fst

end Matcher

/-- The languages of a list, with the languages that the regional ones belong to. -/
def supportedLanguages (languages : Str) : List Str :=
  (languages.splitOn ',').flatMap fun language => language :: (beforeHyphen language).toList

/-! ## Subconditions -/

section Matching

variable (matcher : Matcher) (request : Parts) (socketData : SocketData)

/-- The address that a request is forwarded for: the first one of the header, or the remote address. -/
def forwardedFor : Option IpAddr :=
  match (request.headers.get "x-forwarded-for".toList).bind toStr with
  | some xForwardedFor =>
      matcher.parseIpAddr (((xForwardedFor.splitOn ',').headD []).filter (· ≠ ' '))
  | none => some socketData.remoteAddr.ip

/-- The text of a subcondition with its placeholders replaced. -/
def expand (input : Str) : Except Failure Str :=
  match replaceHeaderPlaceholders request (some socketData) input with
  | some text => .ok text
  | none => .error .diverges

/-- `to_string` of the target of a request. -/
def displayUri : Str :=
  (match request.scheme with
    | some scheme => scheme ++ "://".toList
    | none => []) ++
  request.authority.getD [] ++ request.uri.path ++ displayQuery request.uri.query

/-- `rego_input`. -/
def regoInput (constants : HashMap Str Str) : RegoInput where
  method := request.method.token
  protocol := displayVersion request.version
  uri := displayUri request
  headers name := (request.headers.getAll name).map fun value => (toStr value).getD []
  clientIp := displayIp socketData.remoteAddr.ip
  clientPort := socketData.remoteAddr.port.toNat
  serverIp := displayIp socketData.localAddr.ip
  serverPort := socketData.localAddr.port.toNat
  encrypted := socketData.encrypted
  constants := constants.lookup

/-- The arm for languages. -/
def matchLanguage (language : Str) (constants : HashMap Str Str) : Bool :=
  let acceptedLanguages := matcher.parseQValueHeader
    (((request.headers.get "accept-language".toList).bind toStr).getD ['*'])
  let supported := ((constants.lookup "LANGUAGES".toList).map supportedLanguages).getD [language]
  match acceptedLanguages.find? fun l =>
      l = ['*'] || supported.contains l || (beforeHyphen l).any supported.contains with
  | some l => l = language || beforeHyphen language = some l
  | none => false

/-- An error of a library. -/
def ofLibrary {α : Type} : Except Str α → Except Failure α
  | .ok value => .ok value
  | .error message => .error (.error message)

/-- The result of `match_condition`. -/
def conditionResult (constants : HashMap Str Str) : ConditionalData → Except Failure Bool
  | .isRemoteIp list => .ok (list.isBlocked socketData.remoteAddr.ip)
  | .isForwardedFor list =>
      .ok (((forwardedFor matcher request socketData).map list.isBlocked).getD false)
  | .isNotRemoteIp list => .ok (!list.isBlocked socketData.remoteAddr.ip)
  | .isNotForwardedFor list =>
      .ok (((forwardedFor matcher request socketData).map fun ip => !list.isBlocked ip).getD false)
  | .isEqual left right => do
      let left ← expand request socketData left
      let right ← expand request socketData right
      pure (left = right)
  | .isNotEqual left right => do
      let left ← expand request socketData left
      let right ← expand request socketData right
      pure (left ≠ right)
  | .isRegex value regex => do
      let text ← expand request socketData value
      ofLibrary (matcher.isMatch regex text)
  | .isNotRegex value regex => do
      let text ← expand request socketData value
      (!·) <$> ofLibrary (matcher.isMatch regex text)
  | .isRego engine =>
      ofLibrary (matcher.evalRule engine.policies (regoInput request socketData constants))
  | .setConstant _ _ => .ok true
  | .isLanguage language => .ok (matchLanguage matcher request language constants)

/-- The constants after a subcondition. -/
def constantsAfter (constants : HashMap Str Str) : ConditionalData → HashMap Str Str
  | .setConstant name value => constants.insert name value
  | _ => constants

/-- `match_condition`. -/
def matchCondition (condition : ConditionalData) (constants : HashMap Str Str) :
    Except Failure (Bool × HashMap Str Str) :=
  (conditionResult matcher request socketData constants condition).map fun matched =>
    (matched, constantsAfter constants condition)

end Matching

/-! ## Equal subconditions -/

section Equality

variable (matcher : Matcher)

/-- Two regular expressions with one pattern match the same of what a text may become: both ignore the
case of letters, or neither does, or it makes no difference. -/
def SameMatches (value : Str) (regex other : Regex) : Prop :=
  regex.caseInsensitive = other.caseInsensitive ∨
    ∀ (request : Parts) (socketData : SocketData) (text : Str),
      replaceHeaderPlaceholders request (some socketData) value = some text →
        matcher.isMatch regex text = matcher.isMatch other text

/-- Two engines say the same of every request. -/
def SameAnswers (engine other : RegoEngine) : Prop :=
  ∀ (request : Parts) (socketData : SocketData) (constants : HashMap Str Str),
    matcher.evalRule engine.policies (regoInput request socketData constants) =
      matcher.evalRule other.policies (regoInput request socketData constants)

/-- What the equality of subconditions leaves open: the case of letters, and the policies of engines that
cannot list theirs. -/
def MeansTheSame : ConditionalData → ConditionalData → Prop
  | .isRegex value regex, .isRegex _ other => SameMatches matcher value regex other
  | .isNotRegex value regex, .isNotRegex _ other => SameMatches matcher value regex other
  | .isRego engine, .isRego other => engine.getPolicies ≠ none ∨ SameAnswers matcher engine other
  | _, _ => True

variable {matcher}

theorem ofLibrary_inj {α : Type} {x y : Except Str α} : ofLibrary x = ofLibrary y ↔ x = y := by
  cases x <;> cases y <;> simp [ofLibrary]

theorem map_not_ofLibrary_inj {x y : Except Str Bool} :
    (!·) <$> ofLibrary x = (!·) <$> ofLibrary y ↔ x = y := by
  cases x <;> cases y <;> simp [ofLibrary, Functor.map, Except.map]

/-- The results of regular expressions are the same when the matches are, whatever is done with them. -/
theorem forall_bind_expand_iff {f : Except Str Bool → Except Failure Bool}
    (hf : ∀ x y, f x = f y ↔ x = y) {value : Str} {regex other : Regex}
    (hpattern : regex.asStr = other.asStr) :
    (∀ (request : Parts) (socketData : SocketData),
      (expand request socketData value >>= fun text => f (matcher.isMatch regex text)) =
        expand request socketData value >>= fun text => f (matcher.isMatch other text)) ↔
      SameMatches matcher value regex other := by
  constructor
  · intro h
    refine Or.inr fun request socketData text htext => ?_
    have hresult := h request socketData
    rw [expand, htext] at hresult
    exact (hf _ _).1 hresult
  · rintro (hcase | hmatches) request socketData
    · have hsame : regex = other := by
        cases regex
        cases other
        simp_all
      rw [hsame]
    · rw [expand]
      split
      · rename_i text htext
        exact (hf _ _).2 (hmatches request socketData text htext)
      · rfl

theorem map_result_inj {x y : Except Failure Bool} {constants constants' : HashMap Str Str}
    (h : constants = constants') :
    (x.map fun matched => (matched, constants)) = (y.map fun matched => (matched, constants')) ↔
      x = y := by
  cases x <;> cases y <;> simp [Except.map, h]

/-- Subconditions that are equal set the same constants. -/
theorem constantsAfter_congr {a b : ConditionalData} (h : (a == b) = true)
    (constants : HashMap Str Str) : constantsAfter constants a = constantsAfter constants b := by
  cases a <;> cases b <;>
    simp_all [ConditionalData.beq_eq, ConditionalData.eq, constantsAfter]

/-- Equal subconditions give the same results if and only if they mean the same. -/
theorem conditionResult_eq_iff {a b : ConditionalData} (h : (a == b) = true) :
    (∀ (request : Parts) (socketData : SocketData) (constants : HashMap Str Str),
      conditionResult matcher request socketData constants a =
        conditionResult matcher request socketData constants b) ↔ MeansTheSame matcher a b := by
  rw [ConditionalData.beq_eq] at h
  cases a <;> cases b <;> simp only [ConditionalData.eq, reduceCtorEq, Bool.and_eq_true, beq_iff_eq] at h
  case isRemoteIp.isRemoteIp list other =>
      simp [conditionResult, MeansTheSame, IpBlockList.isBlocked_congr h]
  case isForwardedFor.isForwardedFor list other =>
      have hblocked : list.isBlocked = other.isBlocked := funext (IpBlockList.isBlocked_congr h)
      simp [conditionResult, MeansTheSame, hblocked]
  case isNotRemoteIp.isNotRemoteIp list other =>
      simp [conditionResult, MeansTheSame, IpBlockList.isBlocked_congr h]
  case isNotForwardedFor.isNotForwardedFor list other =>
      have hblocked : list.isBlocked = other.isBlocked := funext (IpBlockList.isBlocked_congr h)
      simp [conditionResult, MeansTheSame, hblocked]
  case isEqual.isEqual => simp [h.1, h.2, MeansTheSame]
  case isNotEqual.isNotEqual => simp [h.1, h.2, MeansTheSame]
  case isRegex.isRegex value regex _ other =>
      obtain ⟨rfl, hpattern⟩ := h
      exact ⟨fun hresult => (forall_bind_expand_iff (fun _ _ => ofLibrary_inj) hpattern).1
          fun request socketData => hresult request socketData ∅,
        fun hmatches request socketData _ =>
          (forall_bind_expand_iff (fun _ _ => ofLibrary_inj) hpattern).2 hmatches request socketData⟩
  case isNotRegex.isNotRegex value regex _ other =>
      obtain ⟨rfl, hpattern⟩ := h
      exact ⟨fun hresult => (forall_bind_expand_iff (fun _ _ => map_not_ofLibrary_inj) hpattern).1
          fun request socketData => hresult request socketData ∅,
        fun hmatches request socketData _ =>
          (forall_bind_expand_iff (fun _ _ => map_not_ofLibrary_inj) hpattern).2 hmatches request
            socketData⟩
  case isRego.isRego engine other =>
      simp only [conditionResult, ofLibrary_inj, MeansTheSame]
      refine ⟨Or.inr, ?_⟩
      rintro (hlisted | hanswers)
      · obtain ⟨policies, hpolicies⟩ := Option.ne_none_iff_exists'.1 hlisted
        rw [← engine.listed policies hpolicies, ← other.listed policies (h ▸ hpolicies)]
        exact fun _ _ _ => rfl
      · exact hanswers
  case setConstant.setConstant => simp [h.1, h.2, MeansTheSame]
  case isLanguage.isLanguage => simp [h, MeansTheSame]

/-- Equal subconditions match alike if and only if they mean the same. -/
theorem matchCondition_eq_iff_of_beq {a b : ConditionalData} (h : (a == b) = true) :
    (∀ (request : Parts) (socketData : SocketData) (constants : HashMap Str Str),
      matchCondition matcher request socketData a constants =
        matchCondition matcher request socketData b constants) ↔ MeansTheSame matcher a b := by
  rw [← conditionResult_eq_iff h]
  simp only [matchCondition, map_result_inj (constantsAfter_congr h _)]

end Equality

/-! ## Equal filters -/

/-- The subconditions of a conditional. -/
def conditionalData : Conditional → List ConditionalData
  | .ifBlock data => data
  | .ifNot data => data

/-- The subconditions of filters. -/
def filterData (filters : ServerConfigurationFilters) : List ConditionalData :=
  (filters.condition.map fun conditions => conditions.conditionals.flatMap conditionalData).getD []

section Filters

variable {ε : Type}
  {evaluate : ConditionalData → HashMap Str Str → Except ε (Bool × HashMap Str Str)}

theorem matchData_congr {data other : List ConditionalData} (h : (data == other) = true)
    (hsame : ∀ a ∈ data, ∀ b ∈ other, (a == b) = true → evaluate a = evaluate b)
    (constants : HashMap Str Str) :
    matchData evaluate data constants = matchData evaluate other constants := by
  induction data generalizing other constants with
  | nil =>
      cases other with
      | nil => rfl
      | cons => exact absurd h Bool.false_ne_true
  | cons a data ih =>
      cases other with
      | nil => exact absurd h Bool.false_ne_true
      | cons b other =>
          rw [list_cons_beq_cons, Bool.and_eq_true] at h
          have hhead := hsame a List.mem_cons_self b List.mem_cons_self h.1
          have htail : ∀ constants, matchData evaluate data constants =
              matchData evaluate other constants := ih h.2 fun a' ha' b' hb' =>
            hsame a' (List.mem_cons_of_mem _ ha') b' (List.mem_cons_of_mem _ hb')
          simp only [matchData, hhead, htail]

theorem matchConditional_congr {a b : Conditional} (h : (a == b) = true)
    (hsame : ∀ d ∈ conditionalData a, ∀ d' ∈ conditionalData b, (d == d') = true →
      evaluate d = evaluate d') :
    matchConditional evaluate a = matchConditional evaluate b := by
  rw [Conditional.beq_eq] at h
  cases a <;> cases b <;> simp only [Conditional.eq, Bool.false_eq_true] at h
  case ifBlock.ifBlock => exact matchData_congr h hsame ∅
  case ifNot.ifNot => exact congrArg (Except.map (!·)) (matchData_congr h hsame ∅)

theorem matchConditionals_congr {conditionals other : List Conditional}
    (h : (conditionals == other) = true)
    (hsame : ∀ d ∈ conditionals.flatMap conditionalData, ∀ d' ∈ other.flatMap conditionalData,
      (d == d') = true → evaluate d = evaluate d') :
    matchConditionals evaluate conditionals = matchConditionals evaluate other := by
  induction conditionals generalizing other with
  | nil =>
      cases other with
      | nil => rfl
      | cons => exact absurd h Bool.false_ne_true
  | cons a conditionals ih =>
      cases other with
      | nil => exact absurd h Bool.false_ne_true
      | cons b other =>
          rw [list_cons_beq_cons, Bool.and_eq_true] at h
          simp only [List.flatMap_cons, List.mem_append] at hsame
          have hhead := matchConditional_congr h.1 fun d hd d' hd' =>
            hsame d (Or.inl hd) d' (Or.inl hd')
          have htail := ih h.2 fun d hd d' hd' => hsame d (Or.inr hd) d' (Or.inr hd')
          simp only [matchConditionals, hhead, htail]

/-- Equal filters match the same requests where equal subconditions match alike. -/
theorem matchesRequest_congr {filters other : ServerConfigurationFilters}
    (h : (filters == other) = true)
    (hsame : ∀ d ∈ filterData filters, ∀ d' ∈ filterData other, (d == d') = true →
      evaluate d = evaluate d')
    (toLowercase : Str → Str) (path : Str) (hostname : Option Str) (localAddr : LocalAddress) :
    matchesRequest evaluate toLowercase filters path hostname localAddr =
      matchesRequest evaluate toLowercase other path hostname localAddr := by
  obtain ⟨-, hhostname, hip, hport, hcondition, hstatus⟩ :=
    (ServerConfigurationFilters.beq_iff filters other).1 h
  have hhost : matchesHost toLowercase filters hostname localAddr =
      matchesHost toLowercase other hostname localAddr := by
    simp only [matchesHost, hhostname, hip, hport]
  rw [matchesRequest, matchesRequest, hhost, hstatus]
  cases hleft : filters.condition with
  | none =>
      cases hright : other.condition with
      | none => rfl
      | some => simp [hleft, hright] at hcondition
  | some conditions =>
      cases hright : other.condition with
      | none => simp [hleft, hright] at hcondition
      | some otherConditions =>
          rw [hleft, hright] at hcondition
          obtain ⟨hlocation, hconditionals⟩ : conditions.locationPrefix = otherConditions.locationPrefix ∧
              (conditions.conditionals == otherConditions.conditionals) = true := by
            simpa [Conditions.beq_eq] using hcondition
          have hmatches : matchConditions evaluate conditions path =
              matchConditions evaluate otherConditions path := by
            rw [matchConditions, matchConditions, hlocation, matchConditionals_congr hconditionals]
            simpa [filterData, hleft, hright] using hsame
          simp only [hmatches]

end Filters

/-- Equal subconditions match alike if and only if they mean the same. Where all equal subconditions do,
a block is only joined with blocks that apply to the same requests. -/
theorem matchCondition_eq_iff (matcher : Matcher) (toLowercase : Str → Str) :
    (∀ a b : ConditionalData, (a == b) = true →
      ((∀ (request : Parts) (socketData : SocketData) (constants : HashMap Str Str),
        matchCondition matcher request socketData a constants =
          matchCondition matcher request socketData b constants) ↔ MeansTheSame matcher a b)) ∧
    ∀ configurations : List ServerConfiguration,
      (∀ c ∈ configurations, ∀ c' ∈ configurations, ∀ a ∈ filterData c.filters,
        ∀ b ∈ filterData c'.filters, (a == b) = true → MeansTheSame matcher a b) →
      ∀ c ∈ configurations, ∀ d ∈ mergeDuplicates configurations, (d.filters == c.filters) = true →
        ∀ (request : Parts) (hostname : Option Str) (socketData : SocketData),
          matchesRequest (matchCondition matcher request socketData) toLowercase d.filters
              request.uri.path hostname ⟨socketData.localAddr.ip, socketData.localAddr.port⟩ =
            matchesRequest (matchCondition matcher request socketData) toLowercase c.filters
              request.uri.path hostname ⟨socketData.localAddr.ip, socketData.localAddr.port⟩ := by
  constructor
  · intro a b h
    exact matchCondition_eq_iff_of_beq h
  · intro configurations hmeans c hc d hd hfilters request hostname socketData
    -- the filters of a block that is left are those of a block that came in
    have hmerge : ∀ a b, (mergeInto a b).filters = a.filters := fun _ _ => rfl
    obtain ⟨c', hc', hkey⟩ := exists_key_of_mem_mergeAdjacent _ hmerge hd
    rw [sortBy, List.mem_insertionSort] at hc'
    rw [← hkey] at hfilters ⊢
    apply matchesRequest_congr hfilters
    intro a ha b hb hab
    funext constants
    exact (matchCondition_eq_iff_of_beq hab).2 (hmeans c' hc' c hc a ha b hb hab) request socketData
      constants

/-! ## Two regular expressions with one pattern -/

/-- Regular expressions without special characters, which match where they occur. -/
def literalMatcher : Matcher where
  parseIpAddr _ := none
  isMatch regex text := .ok <|
    if regex.caseInsensitive then
      (text.map Char.toLower).tails.any (regex.asStr.map Char.toLower).isPrefixOf
    else text.tails.any regex.asStr.isPrefixOf
  evalRule _ _ := .error "no rule".toList
  Quality := Nat
  zero := 0
  one := 1
  parseQuality _ := none
  sortByQuality values := values

/-- A directive that matches the path. -/
def pathRegex (caseInsensitive : Bool) : ServerConfigurationEntry where
  values := [.string "{path}".toList, .string "/admin".toList]
  props := AList.insert "case_insensitive".toList (.bool caseInsensitive) ∅

/-- What the directive is read as. -/
def pathCondition (caseInsensitive : Bool) : ConditionalData :=
  .isRegex "{path}".toList ⟨"/admin".toList, caseInsensitive⟩

/-- A block of a conditional. -/
def conditionalBlock (caseInsensitive : Bool) : ServerConfiguration where
  entries := ∅
  filters := ⟨true, none, none, none, some ⟨"/".toList, [.ifBlock [pathCondition caseInsensitive]]⟩,
    none⟩

/-- A request for an upper-case path. -/
def adminRequest : Parts where
  method := .get
  uri := ⟨"/ADMIN".toList, none, by decide⟩
  headers := []
  version := .http11
  scheme := none
  authority := none

/-- Its connection. -/
def adminSocket : SocketData := ⟨⟨.v4 1, 1000⟩, ⟨.v4 2, 80⟩, false⟩

/-- The two directives are read as equal subconditions, but only one of them matches the request. Of two
blocks with them one is left, and it does not apply to the request. -/
theorem equalConditions_matchDifferently :
    (∀ caseInsensitive, parseConditionalData plainLibraries 0 "is_regex".toList
      (pathRegex caseInsensitive) = .ok (pathCondition caseInsensitive)) ∧
    (pathCondition false == pathCondition true) = true ∧
    matchCondition literalMatcher adminRequest adminSocket (pathCondition false) ∅ = .ok (false, ∅) ∧
    matchCondition literalMatcher adminRequest adminSocket (pathCondition true) ∅ = .ok (true, ∅) ∧
    mergeDuplicates [conditionalBlock false, conditionalBlock true] = [conditionalBlock false] := by
  refine ⟨?_, rfl, rfl, rfl, rfl⟩
  intro caseInsensitive
  cases caseInsensitive <;> rfl

/-- The client has one of two addresses, which the table of the list has in one order or the other. -/
def clientCondition (swapped : Bool) : ConditionalData :=
  .isRemoteIp ⟨⟨if swapped then [.v4 2, .v4 1] else [.v4 1, .v4 2], by cases swapped <;> decide⟩, .new⟩

/-- A block for these clients. -/
def clientBlock (swapped : Bool) : ServerConfiguration where
  entries := ∅
  filters := ⟨true, none, none, none, some ⟨"/".toList, [.ifBlock [clientCondition swapped]]⟩, none⟩

/-- Two blocks whose lists are equal and not the same apply to the same requests, so they may be joined. -/
theorem matchCondition_eq_iff_swapped :
    (∀ (request : Parts) (socketData : SocketData) (constants : HashMap Str Str),
      matchCondition literalMatcher request socketData (clientCondition false) constants =
        matchCondition literalMatcher request socketData (clientCondition true) constants) ∧
    mergeDuplicates [clientBlock false, clientBlock true] = [clientBlock false] ∧
    ∀ request socketData,
      matchesRequest (matchCondition literalMatcher request socketData) id (clientBlock false).filters
          request.uri.path none ⟨socketData.localAddr.ip, socketData.localAddr.port⟩ =
        matchesRequest (matchCondition literalMatcher request socketData) id (clientBlock true).filters
          request.uri.path none ⟨socketData.localAddr.ip, socketData.localAddr.port⟩ := by
  obtain ⟨hpair, hmerge⟩ := matchCondition_eq_iff literalMatcher id
  have hjoined : mergeDuplicates [clientBlock false, clientBlock true] = [clientBlock false] := rfl
  refine ⟨(hpair _ _ (by decide)).2 trivial, hjoined, fun request socketData => ?_⟩
  refine hmerge [clientBlock false, clientBlock true] ?_ (clientBlock true) (by simp) (clientBlock false)
    (by rw [hjoined]; exact List.mem_cons_self) rfl request none socketData
  intro c hc c' hc' a ha b hb _
  have hblock : ∀ c ∈ [clientBlock false, clientBlock true],
      ∃ swapped, filterData c.filters = [clientCondition swapped] := by
    simp [clientBlock, filterData, conditionalData]
  obtain ⟨first, hfirst⟩ := hblock c hc
  obtain ⟨second, hsecond⟩ := hblock c' hc'
  rw [hfirst, List.mem_singleton] at ha
  rw [hsecond, List.mem_singleton] at hb
  rw [ha, hb]
  trivial

end Ferron.Config
