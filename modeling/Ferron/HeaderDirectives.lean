import Ferron.ResponseHeaders
import Ferron.Modules.ForwardedHeaders

/-!
# Header directives that name one header several times

The loops over `header` and `proxy_request_header` go through the directives from the last one to the
first and pass over a name that has a value. Those over `header_replace` and
`proxy_request_header_replace` go the same way, but insert over what is there, so that the first
directive has the last word (`getAll_foldlM_setHeader`).

`lastDirective_determines_iff` says when all four do as if only the last directive for each name stood in
the configuration.
-/

set_option autoImplicit false

namespace Ferron.HeaderDirectives

open Ferron.Common Ferron.Http
open Ferron.Lib (exists_of_bind_ok)

/-! ## The loops -/

/-- The directives of a property that have a name and a value, in their order. -/
def directives (config : ServerConfiguration) (property : Str) : List (Str × Str) :=
  (((config.getEntries property).map ServerConfigurationEntries.inner).getD []).filterMap
    fun customHeader =>
      (customHeader.values.head?.bind ServerConfigurationValue.asStr).bind fun headerName =>
        (customHeader.values[1]?.bind ServerConfigurationValue.asStr).map fun headerValue =>
          (headerName, headerValue)

theorem customHeaders_eq_reverse (config : ServerConfiguration) (property : Str) :
    ResponseHeaders.customHeaders config property = (directives config property).reverse :=
  List.filterMap_reverse

theorem proxy_customHeaders_eq_reverse (config : ServerConfiguration) (property : String) :
    Modules.ForwardedHeaders.customHeaders property config =
      (directives config property.toList).reverse := by
  rw [Modules.ForwardedHeaders.customHeaders, directives]
  cases config.getEntries property.toList with
  | none => rfl
  | some entries =>
      rw [← List.filterMap_reverse]
      simp only [Option.map_some, Option.getD_some, List.head?_eq_getElem?]

section Loop

-- The replacement of the placeholders, which may go on forever.
variable (replace : Str → Option Str)

/-- The value that a directive gives to a header. -/
def valueOf (directive : Str × Str) (name : HeaderName) : Option HeaderValue :=
  if headerName directive.1 = some name then (replace directive.2).bind headerValue else none

/-- The values that the directives give to a header, in their order. -/
def valuesOf (directives : List (Str × Str)) (name : HeaderName) : List HeaderValue :=
  directives.filterMap fun directive => valueOf replace directive name

/-- The body of the four loops. -/
def setHeader (keepsFirst : Bool) (headers : HeaderMap) (directive : Str × Str) : Option HeaderMap :=
  if keepsFirst && headers.containsKey (lowerName directive.1) then some headers
  else
    match headerName directive.1 with
    | none => some headers
    | some name =>
        (replace directive.2).map fun text =>
          match headerValue text with
          | none => headers
          | some value => headers.insert name value

end Loop

theorem headersToAdd_eq (requestParts : Parts) (entries : List (Str × Str)) :
    ResponseHeaders.headersToAdd requestParts entries =
      entries.foldlM (setHeader (replaceHeaderPlaceholders requestParts none) true) [] := rfl

theorem headersToReplace_eq (requestParts : Parts) (entries : List (Str × Str)) :
    ResponseHeaders.headersToReplace requestParts entries =
      entries.foldlM (setHeader (replaceHeaderPlaceholders requestParts none) false) [] := rfl

theorem collectHeaders_eq (requestParts : Parts) (socketData : SocketData) (keepsFirst : Bool)
    (entries : List (Str × Str)) (headers : HeaderMap) :
    Modules.ForwardedHeaders.collectHeaders requestParts socketData keepsFirst entries headers =
      entries.foldlM (setHeader (replaceHeaderPlaceholders requestParts (some socketData)) keepsFirst)
        headers := by
  induction entries generalizing headers with
  | nil => rfl
  | cons directive entries ih =>
      obtain ⟨name, value⟩ := directive
      rw [Modules.ForwardedHeaders.collectHeaders, List.foldlM_cons, setHeader]
      split
      · exact ih headers
      · split
        · rename_i hname
          rw [hname]
          exact ih headers
        · rename_i headerName hname
          rw [hname]
          dsimp only
          cases replaceHeaderPlaceholders requestParts (some socketData) value with
          | none => rfl
          | some text =>
              dsimp only [Option.map_some]
              cases headerValue text with
              | none => exact ih headers
              | some value => exact ih _

section Values

variable {replace : Str → Option Str} {keepsFirst : Bool} {headers headers' : HeaderMap}

theorem lowerName_of_headerName {text : Str} {name : HeaderName} (h : headerName text = some name) :
    lowerName text = name := by
  rw [headerName] at h
  split at h
  · exact Option.some.inj h
  · cases h

/-- What one directive does to the values of a name. -/
theorem getAll_setHeader {directive : Str × Str}
    (h : setHeader replace keepsFirst headers directive = some headers') (name : HeaderName) :
    headers'.getAll name =
      if keepsFirst = true ∧ headers.getAll name ≠ [] then headers.getAll name
      else ((valueOf replace directive name).map fun value => [value]).getD (headers.getAll name) := by
  rw [setHeader] at h
  rw [valueOf]
  cases hname : headerName directive.1 with
  | none =>
      rw [hname, ite_self] at h
      rw [← Option.some.inj h, if_neg (Option.some_ne_none name).symm, Option.map_none,
        Option.getD_none, ite_self]
  | some directed =>
      rw [hname, lowerName_of_headerName hname] at h
      by_cases hpass : (keepsFirst && headers.containsKey directed) = true
      · -- the directive is passed over
        rw [if_pos hpass] at h
        rw [← Option.some.inj h]
        rw [Bool.and_eq_true, HeaderMap.containsKey_iff] at hpass
        by_cases hsame : directed = name
        · rw [← hsame, if_pos hpass]
        · rw [if_neg fun heq => hsame (Option.some.inj heq), Option.map_none, Option.getD_none, ite_self]
      · rw [if_neg hpass] at h
        obtain ⟨text, htext, rfl⟩ := Option.map_eq_some_iff.1 h
        rw [htext, Option.bind_some]
        rw [Bool.and_eq_true, HeaderMap.containsKey_iff] at hpass
        cases hvalue : headerValue text with
        | none =>
            dsimp only
            rw [ite_self, Option.map_none, Option.getD_none, ite_self]
        | some value =>
            dsimp only
            rw [HeaderMap.getAll_insert]
            by_cases hsame : directed = name
            · rw [← hsame, if_pos rfl, if_pos rfl, if_neg hpass]
              rfl
            · rw [if_neg (Ne.symm hsame), if_neg fun heq => hsame (Option.some.inj heq),
                Option.map_none, Option.getD_none, ite_self]

theorem valuesOf_cons (directive : Str × Str) (directives : List (Str × Str)) (name : HeaderName) :
    valuesOf replace (directive :: directives) name =
      (valueOf replace directive name).toList ++ valuesOf replace directives name := by
  rw [valuesOf, List.filterMap_cons]
  cases valueOf replace directive name <;> rfl

theorem valuesOf_reverse (directives : List (Str × Str)) (name : HeaderName) :
    valuesOf replace directives.reverse name = (valuesOf replace directives name).reverse :=
  List.filterMap_reverse

/-- The first directive that is taken keeps the name. -/
theorem getAll_foldlM_setHeader_true (entries : List (Str × Str))
    (h : entries.foldlM (setHeader replace true) headers = some headers') (name : HeaderName) :
    headers'.getAll name =
      if headers.getAll name ≠ [] then headers.getAll name
      else (valuesOf replace entries name).head?.toList := by
  induction entries generalizing headers with
  | nil =>
      rw [← Option.some.inj h]
      by_cases hnil : headers.getAll name = []
      · rw [if_neg (not_not.2 hnil), hnil]
        rfl
      · rw [if_pos hnil]
  | cons directive entries ih =>
      rw [List.foldlM_cons] at h
      obtain ⟨next, hnext, hrest⟩ := Option.bind_eq_some_iff.1 h
      have hstep := getAll_setHeader hnext name
      rw [ih hrest, valuesOf_cons]
      by_cases hnil : headers.getAll name = []
      · rw [if_neg (not_not.2 hnil)]
        rw [if_neg fun hkept => hkept.2 hnil, hnil] at hstep
        cases hvalue : valueOf replace directive name with
        | none =>
            rw [hvalue] at hstep
            have hnone : next.getAll name = [] := hstep
            rw [if_neg (not_not.2 hnone)]
            rfl
        | some value =>
            rw [hvalue] at hstep
            rw [hstep]
            exact if_pos (List.cons_ne_nil value [])
      · rw [if_pos ⟨rfl, hnil⟩] at hstep
        rw [if_pos hnil, hstep, if_pos hnil]

/-- The last directive that is taken takes the name. -/
theorem getAll_foldlM_setHeader_false (entries : List (Str × Str))
    (h : entries.foldlM (setHeader replace false) headers = some headers') (name : HeaderName) :
    headers'.getAll name =
      ((valuesOf replace entries name).getLast?.map fun value => [value]).getD
        (headers.getAll name) := by
  induction entries generalizing headers with
  | nil =>
      rw [← Option.some.inj h]
      rfl
  | cons directive entries ih =>
      rw [List.foldlM_cons] at h
      obtain ⟨next, hnext, hrest⟩ := Option.bind_eq_some_iff.1 h
      have hstep := getAll_setHeader hnext name
      rw [if_neg fun hkept => Bool.false_ne_true hkept.1] at hstep
      rw [ih hrest, valuesOf_cons, hstep]
      cases valueOf replace directive name with
      | none => rfl
      | some value =>
          rw [Option.toList_some, List.singleton_append, List.getLast?_cons]
          cases (valuesOf replace entries name).getLast? <;> rfl

/-- Of the directives that a loop goes through from behind, the last one sets the header when a name is
passed over, and the first one when it is not. -/
theorem getAll_foldlM_setHeader (directives : List (Str × Str))
    (h : directives.reverse.foldlM (setHeader replace keepsFirst) [] = some headers')
    (name : HeaderName) :
    headers'.getAll name = if keepsFirst = true then (valuesOf replace directives name).getLast?.toList
      else (valuesOf replace directives name).head?.toList := by
  cases keepsFirst with
  | true =>
      have hnil : HeaderMap.getAll [] name = [] := rfl
      rw [getAll_foldlM_setHeader_true _ h, if_neg (not_not.2 hnil), if_pos rfl, valuesOf_reverse,
        List.head?_reverse]
  | false =>
      rw [getAll_foldlM_setHeader_false _ h, if_neg Bool.false_ne_true, valuesOf_reverse,
        List.getLast?_reverse]
      cases (valuesOf replace directives name).head? <;> rfl

end Values

/-! ## The last directive -/

/-- What the directives make of the values of a header, when these values replace it, or are added where
it is missing. -/
def effect (isRemoved : Prop) [Decidable isRemoved] (replaced added : Option HeaderValue)
    (values : List HeaderValue) : List HeaderValue :=
  if isRemoved then []
  else
    match replaced with
    | some value => [value]
    | none => if values = [] then added.toList else values

/-- The values that the directives of a property give to a header of the response. -/
def responseValues (config : ServerConfiguration) (requestParts : Parts) (property : String)
    (name : HeaderName) : List HeaderValue :=
  valuesOf (replaceHeaderPlaceholders requestParts none) (directives config property.toList) name

/-- The values that the directives of a property give to a header of the proxied request. -/
def proxyValues (config : ServerConfiguration) (requestParts : Parts) (socketData : SocketData)
    (property : String) (name : HeaderName) : List HeaderValue :=
  valuesOf (replaceHeaderPlaceholders requestParts (some socketData))
    (directives config property.toList) name

theorem head?_getLast?_cases {α : Type} (values : List α) :
    values.head? = none ∧ values.getLast? = none ∨
      ∃ first last, values.head? = some first ∧ values.getLast? = some last := by
  cases values with
  | nil => exact Or.inl ⟨rfl, rfl⟩
  | cons value values => exact Or.inr ⟨value, _, rfl, List.getLast?_cons⟩

section Response

open ResponseHeaders

variable (config : ServerConfiguration) (requestParts : Parts) (added : Additions)

/-- In every response each header is what the last directives for it make of it. -/
def LastDeterminesResponse : Prop :=
  ∀ (headers : HeaderMap) (name : HeaderName), (finalizeResponse added headers).getAll name =
    added.own name (effect (name ∈ headersToRemove config)
      (responseValues config requestParts "header_replace" name).getLast?
      (responseValues config requestParts "header" name).getLast? (headers.getAll name))

/-- The first directive that replaces a header gives it the value that the last one gives it. For Alt-Svc
the announcement of HTTP/3 may make up for the difference, and Server has the value of the server. -/
def FirstIsLastInResponse : Prop :=
  ∀ name ∉ headersToRemove config, name ≠ server →
    let values := responseValues config requestParts "header_replace" name
    if name = altSvc then
      announce added.http3AltPort values.head?.toList = announce added.http3AltPort values.getLast?.toList
    else values.head? = values.getLast?

variable {config requestParts added} {http3AltPort : Option UInt16}

theorem toAdd_of_additions (h : additions config requestParts http3AltPort = some added) :
    headersToAdd requestParts (customHeaders config "header".toList) = some added.toAdd ∧
      headersToReplace requestParts (customHeaders config "header_replace".toList) =
        some added.toReplace ∧ added.toRemove = headersToRemove config := by
  unfold additions at h
  split at h
  · rename_i toAdd toReplace hadd hreplace
    rw [← Option.some.inj h]
    exact ⟨hadd, hreplace, rfl⟩
  · cases h

/-- The server replaces a header with the first directive, and adds it with the last one. -/
theorem getAll_finalizeResponse_eq (h : additions config requestParts http3AltPort = some added)
    (headers : HeaderMap) (name : HeaderName) : (finalizeResponse added headers).getAll name =
      added.own name (effect (name ∈ headersToRemove config)
        (responseValues config requestParts "header_replace" name).head?
        (responseValues config requestParts "header" name).getLast? (headers.getAll name)) := by
  obtain ⟨hadd, hreplace, hremove⟩ := toAdd_of_additions h
  rw [headersToAdd_eq, customHeaders_eq_reverse] at hadd
  rw [headersToReplace_eq, customHeaders_eq_reverse] at hreplace
  have hadded := getAll_foldlM_setHeader _ hadd name
  have hreplaced := getAll_foldlM_setHeader _ hreplace name
  rw [if_pos rfl] at hadded
  rw [if_neg Bool.false_ne_true] at hreplaced
  rw [getAll_finalizeResponse, Additions.custom, hremove, hadded, hreplaced, responseValues,
    responseValues]
  unfold effect
  congr 1
  split
  · rfl
  · cases hhead : (valuesOf (replaceHeaderPlaceholders requestParts none)
        (directives config "header_replace".toList) name).head? with
    | none =>
        rw [hhead] at hreplaced
        rw [if_neg fun hcontains => HeaderMap.containsKey_iff.1 hcontains hreplaced]
    | some value =>
        rw [hhead] at hreplaced
        rw [if_pos (HeaderMap.containsKey_iff.2 (by rw [hreplaced]; exact List.cons_ne_nil value []))]
        rfl

/-- In every response the last directives determine the headers exactly when the first directive that
replaces a header agrees with the last one. -/
theorem lastDeterminesResponse_iff (h : additions config requestParts http3AltPort = some added) :
    LastDeterminesResponse config requestParts added ↔
      FirstIsLastInResponse config requestParts added := by
  constructor
  · intro hlast name hremoved hserver
    -- a response without headers shows what the directives give
    have hsame := (getAll_finalizeResponse_eq h [] name).symm.trans (hlast [] name)
    unfold effect at hsame
    rw [if_neg hremoved, if_neg hremoved] at hsame
    dsimp only
    rcases head?_getLast?_cases (responseValues config requestParts "header_replace" name) with
      ⟨hfirst, hlast⟩ | ⟨first, last, hfirst, hlast⟩
    · rw [hfirst, hlast]
      split <;> rfl
    · rw [hfirst, hlast] at hsame ⊢
      split
      · rename_i haltSvc
        rw [haltSvc, own_altSvc, own_altSvc] at hsame
        exact hsame
      · rename_i haltSvc
        rw [own_of_ne hserver haltSvc, own_of_ne hserver haltSvc] at hsame
        rw [List.head_eq_of_cons_eq hsame]
  · intro hfirstIsLast headers name
    rw [getAll_finalizeResponse_eq h]
    unfold effect
    by_cases hremoved : name ∈ headersToRemove config
    · rw [if_pos hremoved, if_pos hremoved]
    rw [if_neg hremoved, if_neg hremoved]
    by_cases hserver : name = server
    · rw [Additions.own, if_pos hserver, Additions.own, if_pos hserver]
    have hagree := hfirstIsLast name hremoved hserver
    dsimp only at hagree
    rcases head?_getLast?_cases (responseValues config requestParts "header_replace" name) with
      ⟨hfirst, hlast⟩ | ⟨first, last, hfirst, hlast⟩
    · rw [hfirst, hlast]
    · rw [hfirst, hlast] at hagree ⊢
      by_cases haltSvc : name = altSvc
      · rw [if_pos haltSvc] at hagree
        rw [haltSvc, own_altSvc, own_altSvc]
        exact hagree
      · rw [if_neg haltSvc] at hagree
        rw [Option.some.inj hagree]

end Response

section Proxy

open Modules.ForwardedHeaders

variable (parseUri : Str → Option (Uri × Option Str × Option Str)) (toLowercase : Str → Str)
  (config : ServerConfiguration) (requestParts : Parts) (socketData : SocketData)
  (url : ProxyRequestUrl)

/-- In the proxied request each header is what the last directives for it make of the headers that the
proxy itself sets. -/
def LastDeterminesProxied (headers : HeaderMap) : Prop :=
  ∃ ownHeaders, rewriteHeaders toLowercase (trustXForwardedFor config) socketData url
      requestParts.headers = .ok ownHeaders ∧
    ∀ name : HeaderName, headers.getAll name = effect (name ∈ headersToRemove config)
      (proxyValues config requestParts socketData "proxy_request_header_replace" name).getLast?
      (proxyValues config requestParts socketData "proxy_request_header" name).getLast?
      (ownHeaders.getAll name)

/-- The first directive that replaces a header gives it the value that the last one gives it. -/
def FirstIsLastInProxied : Prop :=
  ∀ name ∉ headersToRemove config,
    (proxyValues config requestParts socketData "proxy_request_header_replace" name).head? =
      (proxyValues config requestParts socketData "proxy_request_header_replace" name).getLast?

variable {parseUri toLowercase config requestParts socketData url} {proxied : Parts}

theorem single_of_collectHeaders {keepsFirst : Bool} {entries : List (Str × Str)} {headers : HeaderMap}
    (h : collectHeaders requestParts socketData keepsFirst entries [] = some headers) :
    Single headers := by
  have hsame : DifferInForwarding requestParts requestParts := ⟨rfl, rfl, rfl, fun _ _ => rfl⟩
  have hempty : SameNames [] [] ∧ Single [] ∧ Single [] :=
    ⟨fun _ => Iff.rfl, List.nodup_nil, List.nodup_nil⟩
  have hrel := collectHeaders_rel hsame socketData keepsFirst entries hempty
  rw [h] at hrel
  cases hrel with
  | some hheaders => exact hheaders.2.1

theorem of_orError {α : Type} {error : ProxyError} {x : Option α} {a : α}
    (h : orError error x = .ok a) : x = some a := by
  cases x with
  | none => cases h
  | some b => rw [Except.ok.inj h]

/-- The proxy replaces a header with the first directive, and adds it with the last one. -/
theorem exists_ownHeaders (h : constructProxyRequestParts parseUri toLowercase requestParts config
    socketData url = .ok proxied) :
    ∃ ownHeaders, rewriteHeaders toLowercase (trustXForwardedFor config) socketData url
        requestParts.headers = .ok ownHeaders ∧
      ∀ name : HeaderName, proxied.headers.getAll name = effect (name ∈ headersToRemove config)
        (proxyValues config requestParts socketData "proxy_request_header_replace" name).head?
        (proxyValues config requestParts socketData "proxy_request_header" name).getLast?
        (ownHeaders.getAll name) := by
  rw [constructProxyRequestParts] at h
  obtain ⟨toAdd, hadd, h⟩ := exists_of_bind_ok h
  obtain ⟨toReplace, hreplace, h⟩ := exists_of_bind_ok h
  obtain ⟨uri, -, h⟩ := exists_of_bind_ok h
  obtain ⟨ownHeaders, hown, h⟩ := exists_of_bind_ok h
  refine ⟨ownHeaders, hown, fun name => ?_⟩
  have hadd := of_orError hadd
  have hreplace := of_orError hreplace
  have haddSingle := single_of_collectHeaders hadd
  have hreplaceSingle := single_of_collectHeaders hreplace
  rw [headersToAdd, collectHeaders_eq, proxy_customHeaders_eq_reverse] at hadd
  rw [headersToReplace, collectHeaders_eq, proxy_customHeaders_eq_reverse] at hreplace
  have hadded := getAll_foldlM_setHeader _ hadd name
  have hreplaced := getAll_foldlM_setHeader _ hreplace name
  rw [if_pos rfl] at hadded
  rw [if_neg Bool.false_ne_true] at hreplaced
  have hproxied : proxied.headers = removeHeaders (headersToRemove config)
      (replaceHeaders toReplace (addHeaders toAdd ownHeaders)) := by
    rw [← Except.ok.inj h]
  rw [hproxied, getAll_final haddSingle hreplaceSingle, hadded, hreplaced, proxyValues, proxyValues]
  unfold effect
  split
  · rfl
  · cases (valuesOf (replaceHeaderPlaceholders requestParts (some socketData))
        (directives config "proxy_request_header_replace".toList) name).head? with
    | none => exact if_pos rfl
    | some value => exact if_neg (List.cons_ne_nil value [])

/-- In the proxied request the last directives determine the headers exactly when the first directive
that replaces a header agrees with the last one. -/
theorem lastDeterminesProxied_iff (h : constructProxyRequestParts parseUri toLowercase requestParts
    config socketData url = .ok proxied) :
    LastDeterminesProxied toLowercase config requestParts socketData url proxied.headers ↔
      FirstIsLastInProxied config requestParts socketData := by
  obtain ⟨ownHeaders, hown, hvalues⟩ := exists_ownHeaders h
  constructor
  · rintro ⟨ownHeaders', hown', hlast⟩ name hremoved
    rw [hown] at hown'
    obtain rfl := Except.ok.inj hown'
    have hsame := (hvalues name).symm.trans (hlast name)
    unfold effect at hsame
    rw [if_neg hremoved, if_neg hremoved] at hsame
    rcases head?_getLast?_cases
        (proxyValues config requestParts socketData "proxy_request_header_replace" name) with
      ⟨hfirst, hlast⟩ | ⟨first, last, hfirst, hlast⟩
    · rw [hfirst, hlast]
    · rw [hfirst, hlast] at hsame ⊢
      rw [List.head_eq_of_cons_eq hsame]
  · intro hfirstIsLast
    refine ⟨ownHeaders, hown, fun name => ?_⟩
    rw [hvalues name]
    unfold effect
    by_cases hremoved : name ∈ headersToRemove config
    · rw [if_pos hremoved, if_pos hremoved]
    · rw [hfirstIsLast name hremoved]

end Proxy

/-- The last directive for each header determines its value, in every response and in the proxied
request, exactly when no header that is replaced, and not removed, has a first directive with another
value than its last one. -/
theorem lastDirective_determines_iff {config : ServerConfiguration} {requestParts : Parts}
    {http3AltPort : Option UInt16} {added : ResponseHeaders.Additions}
    (hadded : ResponseHeaders.additions config requestParts http3AltPort = some added)
    {parseUri : Str → Option (Uri × Option Str × Option Str)} {toLowercase : Str → Str}
    {received proxied : Parts} {socketData : SocketData}
    {url : Modules.ForwardedHeaders.ProxyRequestUrl}
    (hproxied : Modules.ForwardedHeaders.constructProxyRequestParts parseUri toLowercase received config
      socketData url = .ok proxied) :
    (LastDeterminesResponse config requestParts added ∧
        LastDeterminesProxied toLowercase config received socketData url proxied.headers) ↔
      FirstIsLastInResponse config requestParts added ∧
        FirstIsLastInProxied config received socketData :=
  and_congr (lastDeterminesResponse_iff hadded) (lastDeterminesProxied_iff hproxied)

/-! ## Two directives for one header -/

open Modules.ForwardedHeaders in
/-- Each of the four directives twice for one header, with two values. -/
def twiceConfig (first last : Str) : ServerConfiguration :=
  let entries : ServerConfigurationEntries := ⟨[⟨[.string "x-a".toList, .string first], ∅⟩,
    ⟨[.string "x-a".toList, .string last], ∅⟩]⟩
  ⟨(((plainConfig.entries.insert "header".toList entries).insert "header_replace".toList entries).insert
    "proxy_request_header".toList entries).insert "proxy_request_header_replace".toList entries,
    plainConfig.filters⟩

/-- What is added to a response: one value by `header`, and one by `header_replace`. -/
def twiceAdditions (added replaced : Str) : ResponseHeaders.Additions :=
  ⟨[("x-a".toList, asciiBytes added)], [("x-a".toList, asciiBytes replaced)], [], none,
    List.nodup_singleton _, List.nodup_singleton _⟩

open Modules.ForwardedHeaders in
/-- The first directive replaces the header in the response and in the proxied request, though `header`
adds it with the last one. -/
theorem firstDirective_replaces :
    ResponseHeaders.additions (twiceConfig "1".toList "2".toList) (requestWith []) none =
        some (twiceAdditions "2".toList "1".toList) ∧
      ¬LastDeterminesResponse (twiceConfig "1".toList "2".toList) (requestWith [])
        (twiceAdditions "2".toList "1".toList) ∧
      ((constructProxyRequestParts pathOnly id (requestWith []) (twiceConfig "1".toList "2".toList)
        plainSocket ⟨none, ['/']⟩).toOption.map fun parts => parts.headers.getAll "x-a".toList) =
          some [asciiBytes "1".toList] := by
  refine ⟨rfl, fun hlast => ?_, rfl⟩
  have hsame := hlast [] "x-a".toList
  revert hsame
  decide

open Modules.ForwardedHeaders in
theorem lastDirective_determines_iff_same :
    ∃ proxied, constructProxyRequestParts pathOnly id (requestWith [])
        (twiceConfig "1".toList "1".toList) plainSocket ⟨none, ['/']⟩ = .ok proxied ∧
      ((LastDeterminesResponse (twiceConfig "1".toList "1".toList) (requestWith [])
          (twiceAdditions "1".toList "1".toList) ∧
        LastDeterminesProxied id (twiceConfig "1".toList "1".toList) (requestWith []) plainSocket
          ⟨none, ['/']⟩ proxied.headers) ↔
        FirstIsLastInResponse (twiceConfig "1".toList "1".toList) (requestWith [])
            (twiceAdditions "1".toList "1".toList) ∧
          FirstIsLastInProxied (twiceConfig "1".toList "1".toList) (requestWith []) plainSocket) :=
  ⟨_, rfl, @lastDirective_determines_iff _ _ _ _ rfl pathOnly _ _ _ _ _ rfl⟩

end Ferron.HeaderDirectives
