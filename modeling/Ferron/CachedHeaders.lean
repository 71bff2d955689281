import Ferron.Modules.CacheReuse
import Ferron.ResponseHeaders

/-!
# The headers of responses from the cache

The request handler adds its headers before the response-modifying handlers run, so the cache stores
them with the response, and a response from the cache gets those for its own request on top.

A response from the cache should look like the one that was stored, except for the ignored headers and
for the headers that `header` and `header_replace` set, which should be those for its own request.
`hit_looksLikeMiss_iff` says for which pairs of requests it does: an Alt-Svc header of the backend
server is announced upon twice, and a value of `header` stays that of the first request.

The response-modifying handlers of other modules are left out.
-/

set_option autoImplicit false

namespace Ferron.CachedHeaders

open Ferron.Common Ferron.Http Ferron.Lib Ferron.Modules Ferron.Modules.Cache Ferron.ResponseHeaders
open Ferron.Modules.CacheIsolation (RoutedRequest Action)
open Ferron.Modules.CacheReuse (Origin Answer awaiting)

variable {rewrite : ServerConfiguration → Request → Request}

/-- The head of a request as the request handler has it when it determines the headers. -/
def requestParts (r : RoutedRequest rewrite) : Parts :=
  { r.received.request with version := r.received.version, scheme := none, authority := r.received.host }

/-- What is added to the response for a request that came by a port with HTTP/3, if it has one. -/
def additionsFor (r : RoutedRequest rewrite) (http3AltPort : Option UInt16) : Option Additions :=
  additions r.config (requestParts r) http3AltPort

/-- The names of the ignored headers. -/
def ignoredNames (r : RoutedRequest rewrite) : List HeaderName :=
  (CacheReuse.stringValues r.config "cache_ignore".toList).map lowerName

/-- The headers that come to the client for the first request. -/
def missHeaders (first : Additions) (backend : HeaderMap) : HeaderMap :=
  (finalizeResponse first backend).insert cacheHeaderName (asciiBytes "MISS".toList)

/-- The headers that come to the client with a response from the cache. -/
def hitHeaders (second : Additions) (response : Response) : HeaderMap :=
  (finalizeResponse second response.headers).insert cacheHeaderName (asciiBytes "HIT".toList)

/-- The names that the directives of the two requests set. -/
def directives (origin : Origin rewrite) (answer : Answer rewrite) : List HeaderName :=
  directiveNames origin.request.config ++ directiveNames answer.request.config

/-- A response from the cache looks like the one that was stored, and has the values of its own request
where directives set them. -/
def LooksLikeMiss (origin : Origin rewrite) (answer : Answer rewrite) (first second : Additions)
    (backend : HeaderMap) : Prop :=
  ∀ name, name ≠ cacheHeaderName → name ∉ ignoredNames origin.request →
    (hitHeaders second answer.response).getAll name =
      if name ∈ directives origin answer then (finalizeResponse second backend).getAll name
      else (missHeaders first backend).getAll name

/-- What the first request has of Alt-Svc is the announcement of this port and nothing else. -/
def AnnouncesOnly (first : Additions) (port : UInt16) (values : List HeaderValue) : Prop :=
  match first.http3AltPort with
  | none => values = [encode (announcement port)]
  | some firstPort =>
      firstPort = port ∧ ∀ value ∈ values.head?, Utf8.fromUtf8Lossy value = announcement port

/-- For a name that no directive sets and that has these values at the backend server: it is not taken
away from the second request only, and Alt-Svc announces nothing but the port of the second request. -/
def Undirected (first second : Additions) (name : HeaderName) (values : List HeaderValue) : Prop :=
  if name = altSvc then
    match second.http3AltPort with
    | some port => AnnouncesOnly first port (if name ∈ first.toRemove then [] else values)
    | none => name ∈ second.toRemove →
        first.http3AltPort = none ∧ (name ∈ first.toRemove ∨ values = [])
  else name ∈ second.toRemove → name ∈ first.toRemove ∨ values = []

/-- For a name that directives set and that has these values at the backend server: it is taken away or
replaced for the second request, or the directives of the first request give it the values that those of
the second give it. Alt-Svc may have any values over which the announcement is the same. -/
def Directed (first second : Additions) (name : HeaderName) (values : List HeaderValue) : Prop :=
  name ∈ second.toRemove ∨ second.toReplace.containsKey name = true ∨
    if name = altSvc then
      let received := announce first.http3AltPort (first.custom name values)
      announce second.http3AltPort
          (if received = [] then second.toAdd.getAll name else received) =
        announce second.http3AltPort (second.custom name values)
    else
      first.custom name values = second.custom name values ∨
        first.custom name values = [] ∧ second.toAdd.getAll name = second.custom name values

/-- The pairs of requests for which a response from the cache has the headers that it should. -/
def Steady (origin : Origin rewrite) (answer : Answer rewrite) (first second : Additions)
    (backend : HeaderMap) : Prop :=
  ∀ name, name ≠ cacheHeaderName → name ∉ ignoredNames origin.request → name ≠ server →
    if name ∈ directives origin answer then Directed first second name (backend.getAll name)
    else Undirected first second name (backend.getAll name)

/-! ## One name -/

theorem custom_of_not_directive {added : Additions} {name : HeaderName}
    (hadd : added.toAdd.getAll name = []) (hreplace : added.toReplace.getAll name = [])
    (values : List HeaderValue) :
    added.custom name values = if name ∈ added.toRemove then [] else values := by
  rw [Additions.custom]
  split
  · rfl
  · rw [if_neg (by rw [containsKey_eq_false_iff.2 hreplace]; exact Bool.false_ne_true)]
    split
    · next hnil => rw [hadd, hnil]
    · rfl

/-- The directives of the second request over those of the first. -/
theorem custom_twice_iff {second : Additions} {name : HeaderName} {received values : List HeaderValue}
    (hremove : name ∉ second.toRemove) (hreplace : second.toReplace.containsKey name = false) :
    second.custom name received = second.custom name values ↔
      received = second.custom name values ∨
        received = [] ∧ second.toAdd.getAll name = second.custom name values := by
  have hcustom : second.custom name received =
      if received = [] then second.toAdd.getAll name else received := by
    rw [Additions.custom, if_neg hremove, if_neg (by rw [hreplace]; exact Bool.false_ne_true)]
  rw [hcustom]
  by_cases hnil : received = []
  · rw [if_pos hnil]
    constructor
    · exact fun h => Or.inr ⟨hnil, h⟩
    · rintro (hsame | ⟨-, h⟩)
      · -- the second request adds nothing either
        rw [hnil, Additions.custom, if_neg hremove,
          if_neg (by rw [hreplace]; exact Bool.false_ne_true)] at hsame
        split at hsame
        · next hvalues =>
            rw [Additions.custom, if_neg hremove,
              if_neg (by rw [hreplace]; exact Bool.false_ne_true), if_pos hvalues]
        · next hvalues => exact absurd hsame.symm hvalues
      · exact h
  · rw [if_neg hnil]
    exact ⟨Or.inl, fun h => h.elim id fun hadd => absurd hadd.1 hnil⟩

theorem encode_injective : Function.Injective encode := by
  intro a b h
  rw [← fromUtf8Lossy_encode a, h, fromUtf8Lossy_encode]

/-- What is left of values that may be removed. -/
theorem ite_removed_eq_nil_iff {names : List HeaderName} {name : HeaderName}
    {values : List HeaderValue} :
    (if name ∈ names then [] else values) = [] ↔ name ∈ names ∨ values = [] := by
  by_cases hname : name ∈ names
  · simp [hname]
  · simp [hname]

/-- Values are the announcement of a port and nothing else after the first request. -/
theorem announce_eq_announcement_iff (first : Additions) (port : UInt16) {values : List HeaderValue}
    (h : ∀ value ∈ values, ValidBytes value) :
    announce first.http3AltPort values = [encode (announcement port)] ↔
      AnnouncesOnly first port values := by
  unfold AnnouncesOnly
  cases first.http3AltPort with
  | none => rfl
  | some firstPort =>
      rw [announce_some firstPort h, List.singleton_inj, encode_injective.eq_iff,
        announcedText_eq_iff, announcement_injective.eq_iff]
      refine and_congr_right fun hport => ?_
      rw [hport]

theorem announce_eq_nil_iff (first : Additions) {values : List HeaderValue}
    (h : ∀ value ∈ values, ValidBytes value) :
    announce first.http3AltPort values = [] ↔ first.http3AltPort = none ∧ values = [] := by
  cases first.http3AltPort with
  | none => exact (and_iff_right rfl).symm
  | some firstPort =>
      rw [announce_some firstPort h]
      simp

theorem validBytes_announce (first : Additions) {values : List HeaderValue}
    (h : ∀ value ∈ values, ValidBytes value) :
    ∀ value ∈ announce first.http3AltPort values, ValidBytes value := by
  cases first.http3AltPort with
  | none => exact h
  | some firstPort =>
      rw [announce_some firstPort h]
      intro value hvalue
      rw [List.mem_singleton.1 hvalue]
      exact validBytes_announcedText firstPort fun old hold => h old (List.mem_of_mem_head? hold)

/-- A name that no directive sets has the values of the first request again. -/
theorem undirected_iff {first second : Additions} {name : HeaderName} {values : List HeaderValue}
    (hserver : name ≠ server) (hvalues : ∀ value ∈ values, ValidBytes value)
    (hfirst : ∀ vs, first.custom name vs = if name ∈ first.toRemove then [] else vs)
    (hsecond : ∀ vs, second.custom name vs = if name ∈ second.toRemove then [] else vs) :
    second.own name (second.custom name (first.own name (first.custom name values))) =
        first.own name (first.custom name values) ↔
      Undirected first second name values := by
  rw [hfirst, hsecond, Undirected]
  have hkept : ∀ value ∈ (if name ∈ first.toRemove then [] else values), ValidBytes value := by
    intro value hvalue
    split at hvalue
    · exact absurd hvalue List.not_mem_nil
    · exact hvalues value hvalue
  have hremoved : ∀ received : List HeaderValue,
      (if name ∈ second.toRemove then [] else received) = received ↔
        (name ∈ second.toRemove → received = []) := by
    intro received
    by_cases hmem : name ∈ second.toRemove
    · rw [if_pos hmem]
      exact ⟨fun h _ => h.symm, fun h => (h hmem).symm⟩
    · rw [if_neg hmem]
      exact ⟨fun _ h => absurd h hmem, fun _ => rfl⟩
  by_cases haltSvc : name = altSvc
  · subst haltSvc
    rw [if_pos rfl, own_altSvc, own_altSvc]
    cases hport : second.http3AltPort with
    | none =>
        exact (hremoved _).trans (imp_congr_right fun _ =>
          (announce_eq_nil_iff first hkept).trans (and_congr_right fun _ => ite_removed_eq_nil_iff))
    | some port =>
        dsimp only
        rw [← announce_eq_announcement_iff first port hkept]
        by_cases hmem : altSvc ∈ second.toRemove
        · rw [if_pos hmem]
          have hnil : announce (some port) [] = [encode (announcement port)] :=
            announce_some port fun _ h => absurd h List.not_mem_nil
          rw [hnil]
          exact eq_comm
        · rw [if_neg hmem]
          exact announce_eq_self_iff port (validBytes_announce first hkept)
  · rw [if_neg haltSvc, own_of_ne hserver haltSvc, own_of_ne hserver haltSvc]
    exact (hremoved _).trans (imp_congr_right fun _ => ite_removed_eq_nil_iff)

/-- A name that directives set has the values for the second request. -/
theorem directed_iff {first second : Additions} {name : HeaderName} {values : List HeaderValue}
    (hserver : name ≠ server) :
    second.own name (second.custom name (first.own name (first.custom name values))) =
        second.own name (second.custom name values) ↔
      Directed first second name values := by
  rw [Directed]
  by_cases hremove : name ∈ second.toRemove
  · have hcustom : ∀ vs, second.custom name vs = [] := fun vs => if_pos hremove
    rw [hcustom, hcustom]
    exact ⟨fun _ => Or.inl hremove, fun _ => rfl⟩
  · rw [or_iff_right hremove]
    cases hreplace : second.toReplace.containsKey name with
    | true =>
        have hcustom : ∀ vs, second.custom name vs = second.toReplace.getAll name := fun vs =>
          (if_neg hremove).trans (if_pos hreplace)
        rw [hcustom, hcustom]
        exact ⟨fun _ => Or.inl rfl, fun _ => rfl⟩
    | false =>
        rw [or_iff_right Bool.false_ne_true]
        by_cases haltSvc : name = altSvc
        · subst haltSvc
          rw [if_pos rfl, own_altSvc, own_altSvc, own_altSvc]
          have hcustom : ∀ vs, second.custom altSvc vs =
              if vs = [] then second.toAdd.getAll altSvc else vs := fun vs =>
            (if_neg hremove).trans (if_neg (by rw [hreplace]; exact Bool.false_ne_true))
          rw [hcustom (announce _ _)]
        · rw [if_neg haltSvc, own_of_ne hserver haltSvc, own_of_ne hserver haltSvc,
            own_of_ne hserver haltSvc]
          exact custom_twice_iff hremove hreplace

/-! ## All names -/

theorem getAll_writtenHeaders {r : RoutedRequest rewrite} {name : HeaderName}
    (h : name ∉ ignoredNames r) (headers : HeaderMap) :
    (CacheReuse.writtenHeaders r headers).getAll name = headers.getAll name := by
  unfold ignoredNames at h
  unfold CacheReuse.writtenHeaders
  generalize CacheReuse.stringValues r.config "cache_ignore".toList = names at h ⊢
  induction names generalizing headers with
  | nil => rfl
  | cons ignored rest ih =>
      rw [List.map_cons, List.mem_cons, not_or] at h
      rw [List.foldl_cons, ih _ h.2, HeaderMap.getAll_remove]
      exact if_neg h.1

theorem custom_of_additionsFor {r : RoutedRequest rewrite} {http3AltPort : Option UInt16}
    {added : Additions} (h : additionsFor r http3AltPort = some added) {name : HeaderName}
    (hname : name ∉ directiveNames r.config) (values : List HeaderValue) :
    added.custom name values = if name ∈ added.toRemove then [] else values := by
  obtain ⟨hadd, hreplace⟩ := additions_names h
  have hnone : ∀ headers : HeaderMap, NamedIn (directiveNames r.config) headers →
      headers.getAll name = [] := by
    intro headers hnamed
    apply HeaderMap.getAll_eq_nil_of_notMem
    intro hmem
    obtain ⟨header, hheader, rfl⟩ := List.mem_map.1 hmem
    exact hname (hnamed header hheader)
  exact custom_of_not_directive (hnone _ hadd) (hnone _ hreplace) values

/-- Header by header, a response from the cache looks like the one that was stored exactly for the
steady pairs of requests. -/
theorem looksLikeMiss_iff {origin : Origin rewrite} {answer : Answer rewrite}
    {first second : Additions} {backend : HeaderMap} {firstPort secondPort : Option UInt16}
    (hbackend : CacheReuse.HeaderBytes backend)
    (hfirst : additionsFor origin.request firstPort = some first)
    (hsecond : additionsFor answer.request secondPort = some second)
    (hstored : answer.response.headers =
      CacheReuse.writtenHeaders origin.request (finalizeResponse first backend)) :
    LooksLikeMiss origin answer first second backend ↔
      Steady origin answer first second backend := by
  have hvalues : ∀ name, ∀ value ∈ backend.getAll name, ValidBytes value := by
    intro name value hvalue
    obtain ⟨header, hheader, rfl⟩ := List.mem_map.1 hvalue
    exact List.all_eq_true.1 (hbackend header (List.mem_filter.1 hheader).1)
  unfold LooksLikeMiss Steady
  refine forall_congr' fun name => imp_congr_right fun hcache => imp_congr_right fun hignored => ?_
  have hhit : (hitHeaders second answer.response).getAll name =
      second.own name (second.custom name (first.own name
        (first.custom name (backend.getAll name)))) := by
    rw [hitHeaders, HeaderMap.getAll_insert, if_neg hcache, getAll_finalizeResponse, hstored,
      getAll_writtenHeaders hignored, getAll_finalizeResponse]
  have hmiss : (missHeaders first backend).getAll name =
      first.own name (first.custom name (backend.getAll name)) := by
    rw [missHeaders, HeaderMap.getAll_insert, if_neg hcache, getAll_finalizeResponse]
  rw [hhit, hmiss, getAll_finalizeResponse]
  by_cases hserver : name = server
  · have hown : ∀ (added : Additions) (values : List HeaderValue),
        added.own name values = [asciiBytes serverSoftware] := fun _ _ => if_pos hserver
    rw [hown, hown, hown, ite_self]
    exact ⟨fun _ h => absurd hserver h, fun _ => rfl⟩
  · rw [imp_iff_right hserver]
    by_cases hdirective : name ∈ directives origin answer
    · rw [if_pos hdirective, if_pos hdirective]
      exact directed_iff hserver
    · rw [if_neg hdirective, if_neg hdirective]
      have hboth := mt List.mem_append.2 hdirective
      rw [not_or] at hboth
      exact undirected_iff hserver (hvalues name) (custom_of_additionsFor hfirst hboth.1)
        (custom_of_additionsFor hsecond hboth.2)

section Runs

variable {responses : BoundedCache Str CacheEntry} {varies : BoundedCache Str (List Str)}

/-- In every run of the cache from empty caches, every response from the cache was stored for a request
of the run, and whatever the backend server had sent for this request, it looks like the stored response
exactly when the two requests are a steady pair. -/
theorem hit_looksLikeMiss_iff (fromValue : Str → Option CacheControl)
    (module : CacheModule responses varies)
    (hentries : ∀ key, responses.lookup module.cache key = none)
    (hvaries : ∀ key, varies.lookup module.varyCache key = none) (actions : List (Action rewrite))
    (answer : Answer rewrite)
    (hanswer : answer ∈ (Run.run (CacheReuse.step fromValue) (.initial module) actions).answers) :
    ∃ origin, answer.origin = some origin ∧ origin.request ∈ CacheIsolation.requestsOf actions ∧
      origin.response ∈ CacheReuse.responsesOf actions ∧
      ∀ (firstPort secondPort : Option UInt16) (first second : Additions) (backend : HeaderMap),
        CacheReuse.HeaderBytes backend →
        additionsFor origin.request firstPort = some first →
        additionsFor answer.request secondPort = some second →
        origin.response.headers = finalizeResponse first backend →
        (LooksLikeMiss origin answer first second backend ↔
          Steady origin answer first second backend) := by
  obtain ⟨-, origin, horigin, hanswers⟩ := CacheReuse.run_answers fromValue hentries hvaries
    (fun _ haction => CacheReuse.actionHas_of_mem haction) hanswer
  refine ⟨origin, horigin, hanswers.request, hanswers.response, ?_⟩
  intro firstPort secondPort first second backend hbackend hfirst hsecond hheaders
  refine looksLikeMiss_iff hbackend hfirst hsecond ?_
  rw [hanswers.headers, hheaders]

end Runs

/-! ## Two requests with different agents -/

/-- `header "x-agent"` with a value. -/
def agentConfig (value : Str) : ServerConfiguration :=
  ⟨(∅ : HashMap Str ServerConfigurationEntries).insert "header".toList
      ⟨[⟨[.string "x-agent".toList, .string value], ∅⟩]⟩,
    ⟨true, some "a.test".toList, none, none, none, none⟩⟩

/-- The User-Agent header. -/
def userAgent (agent : Str) : HeaderMap := [("user-agent".toList, asciiBytes agent)]

theorem key_agentConfig (value : Str) (headers : HeaderMap) :
    CacheKey.cacheKey false (CacheIsolation.reaching CacheIsolation.keep (agentConfig value)
      (CacheReuse.fileRequest headers)) = "GET http://a.test/f".toList := rfl

/-- A request with an agent under this configuration. -/
def agentRequest (value agent : Str) : RoutedRequest CacheIsolation.keep :=
  ⟨agentConfig value, false, CacheReuse.fileRequest (userAgent agent), by
    rw [key_agentConfig]
    decide⟩

/-- A response of the backend server that may be stored for a minute, with other headers. -/
def backendHeaders (headers : HeaderMap) : HeaderMap :=
  ("cache-control".toList, asciiBytes "max-age=60".toList) :: headers

/-- A file is asked for with one agent, and then with another one. -/
def runAgents (value : Str) (headers : HeaderMap) : List (Action CacheIsolation.keep) :=
  [.request (agentRequest value "a".toList) 0, .response 0 ⟨200, headers, [.ok (.data [97])]⟩ 0 0,
    .request (agentRequest value "b".toList) 0]

/-- The answer of such a run, when there is one, is for the second request, and the stored response is
that for the first one. -/
theorem exists_answer_runAgents {value : Str} {headers : HeaderMap} {vary : List Str}
    (h : (Run.run (CacheReuse.step parseMaxAgeMinute) (.initial emptyModule)
      (runAgents value headers)).answers.map (CacheReuse.compareOrigin "user-agent".toList) =
        [some ⟨[asciiBytes "b".toList], [asciiBytes "a".toList], 200, vary⟩]) :
    ∃ answer ∈ (Run.run (CacheReuse.step parseMaxAgeMinute) (.initial emptyModule)
        (runAgents value headers)).answers,
      answer.request = agentRequest value "b".toList ∧
      answer.origin = some ⟨agentRequest value "a".toList, ⟨200, headers, [.ok (.data [97])]⟩⟩ ∧
      answer.response.headers =
        CacheReuse.writtenHeaders (agentRequest value "a".toList) headers := by
  obtain ⟨answer, hanswer, hcompare⟩ := CacheReuse.exists_answer h
  obtain ⟨hrequest, origin, horigin, hanswers⟩ := CacheReuse.run_answers parseMaxAgeMinute
    (fun _ => rfl) (fun _ => rfl) (fun _ haction => CacheReuse.actionHas_of_mem haction) hanswer
  rw [CacheReuse.compareOrigin, horigin, Option.map_some] at hcompare
  obtain ⟨hasked, hstored, -⟩ := CacheReuse.Comparison.mk.inj (Option.some.inj hcompare)
  have hagents : ∀ r ∈ CacheIsolation.requestsOf (runAgents value headers),
      r = agentRequest value "a".toList ∨ r = agentRequest value "b".toList := by
    intro r hr
    simpa [CacheIsolation.requestsOf, runAgents] using hr
  have hheaders : ∀ agent : Str,
      (agentRequest value agent).request.headers.getAll "user-agent".toList = [asciiBytes agent] :=
    fun _ => rfl
  have hab : [asciiBytes "a".toList] ≠ [asciiBytes "b".toList] := by decide
  have hsecond : answer.request = agentRequest value "b".toList := by
    rcases hagents _ hrequest with heq | heq
    · rw [heq, hheaders] at hasked
      exact absurd hasked hab
    · exact heq
  have hfirst : origin.request = agentRequest value "a".toList := by
    rcases hagents _ hanswers.request with heq | heq
    · exact heq
    · rw [heq, hheaders] at hstored
      exact absurd hstored.symm hab
  have hresponse : origin.response = ⟨200, headers, [.ok (.data [97])]⟩ :=
    List.mem_singleton.1 hanswers.response
  refine ⟨answer, hanswer, hsecond, ?_, ?_⟩
  · rw [horigin, ← hfirst, ← hresponse]
  · rw [hanswers.headers, hfirst, hresponse]

/-- What is added for an agent, with HTTP/3 on port 443. -/
def agentAdditions (value agent : Str) (http3AltPort : Option UInt16) : Option Additions :=
  additionsFor (agentRequest value agent) http3AltPort

/-- The value of a header that the configuration gives to the agent. -/
def placeholderValue : Str := "\x7bheader:user-agent\x7d".toList

/-- The backend server announces another service. -/
def otherService : HeaderMap := backendHeaders [(altSvc, asciiBytes "h2".toList)]

/-- The headers of the stored response for the agent `a`. -/
def storedHeaders : HeaderMap :=
  ((agentAdditions placeholderValue "a".toList (some 443)).map fun first =>
    finalizeResponse first otherService).getD []

theorem answers_runAgents :
    (Run.run (CacheReuse.step parseMaxAgeMinute) (.initial emptyModule)
      (runAgents placeholderValue storedHeaders)).answers.map
        (CacheReuse.compareOrigin "user-agent".toList) =
          [some ⟨[asciiBytes "b".toList], [asciiBytes "a".toList], 200, []⟩] := by
  decide +kernel

/-- The second request gets the announcement twice and the value for the first agent. -/
theorem hitValues_runAgents :
    ((agentAdditions placeholderValue "b".toList (some 443)).map fun second =>
      ((finalizeResponse second storedHeaders).getAll altSvc,
        (finalizeResponse second storedHeaders).getAll "x-agent".toList)) =
      some ([asciiBytes "h2, h3=\":443\", h3-29=\":443\", h3=\":443\", h3-29=\":443\"".toList],
        [asciiBytes "a".toList]) := by
  decide +kernel

theorem missValues_runAgents :
    storedHeaders.getAll altSvc = [asciiBytes "h2, h3=\":443\", h3-29=\":443\"".toList] ∧
      altSvc ∉ directiveNames (agentConfig placeholderValue) := by
  decide +kernel

/-- A response from the cache has an Alt-Svc header that is longer than that of the response that was
stored. -/
theorem hit_not_looksLikeMiss :
    ¬ ∀ (actions : List (Action CacheIsolation.keep)) (answer : Answer CacheIsolation.keep),
      answer ∈ (Run.run (CacheReuse.step parseMaxAgeMinute) (.initial emptyModule) actions).answers →
      ∃ origin, answer.origin = some origin ∧
        ∀ (firstPort secondPort : Option UInt16) (first second : Additions) (backend : HeaderMap),
          CacheReuse.HeaderBytes backend →
          additionsFor origin.request firstPort = some first →
          additionsFor answer.request secondPort = some second →
          origin.response.headers = finalizeResponse first backend →
          LooksLikeMiss origin answer first second backend := by
  intro h
  obtain ⟨answer, hanswer, hrequest, horigin, hheaders⟩ := exists_answer_runAgents answers_runAgents
  obtain ⟨origin, horigin', hlooks⟩ := h _ answer hanswer
  obtain rfl := Option.some.inj (horigin'.symm.trans horigin)
  cases hfirst : agentAdditions placeholderValue "a".toList (some 443) with
  | none => exact absurd (congrArg Option.isSome hfirst) (by decide +kernel)
  | some first =>
      cases hsecond : agentAdditions placeholderValue "b".toList (some 443) with
      | none => exact absurd (congrArg Option.isSome hsecond) (by decide +kernel)
      | some second =>
          have hstored : storedHeaders = finalizeResponse first otherService := by
            rw [storedHeaders, hfirst]
            rfl
          have hmiss := hlooks (some 443) (some 443) first second otherService
            (by unfold CacheReuse.HeaderBytes; decide) hfirst (by rw [hrequest]; exact hsecond)
            hstored altSvc (by decide) (by decide)
          have hvalues := hitValues_runAgents
          rw [hsecond, Option.map_some, Option.some.injEq] at hvalues
          obtain ⟨hstoredValues, hdirective⟩ := missValues_runAgents
          have hnone : altSvc ∉ directives
              ⟨agentRequest placeholderValue "a".toList,
                ⟨200, storedHeaders, [.ok (.data [97])]⟩⟩ answer := by
            rw [directives, hrequest, List.mem_append]
            exact fun hmem => hmem.elim hdirective hdirective
          have hwritten : CacheReuse.writtenHeaders (agentRequest placeholderValue "a".toList)
              storedHeaders = storedHeaders := rfl
          rw [if_neg hnone, hitHeaders, HeaderMap.getAll_insert, if_neg (by decide), missHeaders,
            HeaderMap.getAll_insert, if_neg (by decide), hheaders, hwritten, ← hstored,
            hstoredValues, (Prod.mk.inj hvalues).1] at hmiss
          exact absurd hmiss (by decide)

/-- The backend server announces nothing, and the configured value has no placeholder. -/
def plainHeaders : HeaderMap :=
  ((agentAdditions "ferron".toList "a".toList none).map fun first =>
    finalizeResponse first (backendHeaders [])).getD []

theorem answers_runAgents_plain :
    (Run.run (CacheReuse.step parseMaxAgeMinute) (.initial emptyModule)
      (runAgents "ferron".toList plainHeaders)).answers.map
        (CacheReuse.compareOrigin "user-agent".toList) =
          [some ⟨[asciiBytes "b".toList], [asciiBytes "a".toList], 200, []⟩] := by
  decide +kernel

theorem additions_runAgents_plain :
    ((agentAdditions "ferron".toList "a".toList none).isSome = true ∧
      (agentAdditions "ferron".toList "b".toList none).isSome = true) ∧
      (∀ added ∈ agentAdditions "ferron".toList "b".toList none,
        added.toRemove = [] ∧ added.http3AltPort = none) ∧
      directiveNames (agentConfig "ferron".toList) = ["x-agent".toList] ∧
      ∀ first ∈ agentAdditions "ferron".toList "a".toList none,
        ∀ second ∈ agentAdditions "ferron".toList "b".toList none,
          first.custom "x-agent".toList [] = second.custom "x-agent".toList [] := by
  decide +kernel

/-- Without placeholders and without HTTP/3 the second request gets what the first one got. -/
theorem hit_looksLikeMiss_iff_plain :
    ∃ answer ∈ (Run.run (CacheReuse.step parseMaxAgeMinute) (.initial emptyModule)
        (runAgents "ferron".toList plainHeaders)).answers,
      ∃ origin first second, answer.origin = some origin ∧
        additionsFor origin.request none = some first ∧
        additionsFor answer.request none = some second ∧
        LooksLikeMiss origin answer first second (backendHeaders []) := by
  obtain ⟨answer, hanswer, hrequest, horigin, -⟩ := exists_answer_runAgents answers_runAgents_plain
  obtain ⟨origin, horigin', -, -, hiff⟩ := hit_looksLikeMiss_iff parseMaxAgeMinute emptyModule
    (fun _ => rfl) (fun _ => rfl) _ answer hanswer
  obtain rfl := Option.some.inj (horigin'.symm.trans horigin)
  obtain ⟨⟨hfirst, hsecond⟩, hnothing, hnames, hsame⟩ := additions_runAgents_plain
  obtain ⟨first, hfirst⟩ := Option.isSome_iff_exists.1 hfirst
  obtain ⟨second, hsecond⟩ := Option.isSome_iff_exists.1 hsecond
  obtain ⟨hremove, hport⟩ := hnothing second hsecond
  have hstored : plainHeaders = finalizeResponse first (backendHeaders []) := by
    rw [plainHeaders, hfirst]
    rfl
  have hsecond' : additionsFor answer.request none = some second := by
    rw [hrequest]
    exact hsecond
  refine ⟨answer, hanswer, _, first, second, horigin, hfirst, hsecond', ?_⟩
  apply (hiff none none first second _ (by unfold CacheReuse.HeaderBytes; decide) hfirst hsecond'
    hstored).2
  intro name _ _ _
  split
  · next hname =>
      rw [directives, hrequest, List.mem_append] at hname
      have hagent : name = "x-agent".toList := by
        have hmem : name ∈ directiveNames (agentConfig "ferron".toList) := hname.elim id id
        rw [hnames] at hmem
        exact List.mem_singleton.1 hmem
      subst hagent
      refine Or.inr (Or.inr ?_)
      rw [if_neg (by decide)]
      exact Or.inl (hsame first hfirst second hsecond)
  · rw [Undirected, hport, hremove]
    split
    · exact fun hmem => absurd hmem List.not_mem_nil
    · exact fun hmem => absurd hmem List.not_mem_nil

end Ferron.CachedHeaders
