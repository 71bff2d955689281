import Ferron.Lib.LabelledLines
import Ferron.Modules.CacheIsolation

/-!
# What responses from the cache were stored for

A run notes the response that was stored last under a key with the request it was for, and for every
response from the cache the noted one. In every run a response from the cache has the status and the
headers of the noted response, less the ignored headers, and its request and the noted one have the same
values of the varying headers in their keys (`run_answers`).

A response may have a status that depends on the range or on conditions of its request. Nothing but the
varying headers keeps it from other requests: `run_conditional` says what is kept apart by them, and
`conditional_reused` that nothing else is.
-/

set_option autoImplicit false

namespace Ferron.Modules.CacheReuse

open Ferron.Common Ferron.Http Ferron.Lib Ferron.Modules.Cache
open Ferron.Modules.CacheIsolation (RoutedRequest CacheRun Action storedKey lookedUpKey)

section Runs

variable {responses : BoundedCache Str CacheEntry} {varies : BoundedCache Str (List Str)}
  {rewrite : ServerConfiguration → Request → Request}

/-- The values of a property that are strings. -/
def stringValues (config : ServerConfiguration) (name : Str) : List Str :=
  (config.getValues name).filterMap ServerConfigurationValue.asStr

/-- The names of the varying headers of a response for a request. -/
def varyNames (r : RoutedRequest rewrite) (response : Response) : List Str :=
  processVary (stringValues r.config "cache_vary".toList) response.headers

/-- The headers that are stored for a request. -/
def writtenHeaders (r : RoutedRequest rewrite) (headers : HeaderMap) : HeaderMap :=
  (stringValues r.config "cache_ignore".toList).foldl
    (fun headers name => headers.remove (name.map Char.toLower)) headers

/-- A response that was stored, as it came to the cache module, and the request it was for. -/
structure Origin (rewrite : ServerConfiguration → Request → Request) where
  request : RoutedRequest rewrite
  response : Response

/-- The key under which it was stored. -/
def Origin.key (origin : Origin rewrite) : Str :=
  buildVaryKey origin.request.key (varyNames origin.request origin.response)
    origin.request.request.headers

/-- A response from the cache, with the one that was noted under its key. -/
structure Answer (rewrite : ServerConfiguration → Request → Request) where
  request : RoutedRequest rewrite
  response : Response
  origin : Option (Origin rewrite)

/-- A run of the cache module with its notes. -/
structure ReuseRun (responses : BoundedCache Str CacheEntry) (varies : BoundedCache Str (List Str))
    (rewrite : ServerConfiguration → Request → Request) where
  caches : CacheRun responses varies rewrite
  /-- The response that was stored last under a key. -/
  stored : Str → Option (Origin rewrite)
  answers : List (Answer rewrite)

/-- The run at its start. -/
def ReuseRun.initial (module : CacheModule responses varies) : ReuseRun responses varies rewrite :=
  ⟨.initial module, fun _ => none, []⟩

variable (fromValue : Str → Option CacheControl)

/-- Notes a response under the key, if there is one. -/
def note (stored : Str → Option (Origin rewrite)) (key : Option Str) (origin : Origin rewrite) :
    Str → Option (Origin rewrite) :=
  fun other => if key = some other then some origin else stored other

/-- One use of the shared caches, and what is noted of it. -/
def step (state : ReuseRun responses varies rewrite) (action : Action rewrite) :
    ReuseRun responses varies rewrite :=
  let caches := CacheIsolation.step fromValue state.caches action
  match action with
  | .request r now =>
      let module := state.caches.module
      match (requestHandler fromValue module .new r.request r.config r.encrypted now).2.2 with
      | some response =>
          let origin := (lookedUpKey module r).bind state.stored
          { state with caches := caches, answers := state.answers ++ [⟨r, response, origin⟩] }
      | none => { state with caches := caches }
  | .response index response _ _ =>
      match state.caches.inFlight[index]? with
      | some (r, handlers) =>
          let key := storedKey fromValue handlers response
          { state with caches := caches, stored := note state.stored key ⟨r, response⟩ }
      | none => { state with caches := caches }

/-! ## What one use of the caches does -/

/-- The handlers that await the response for a request. -/
def awaiting (r : RoutedRequest rewrite) : CacheModuleHandlers :=
  { CacheModuleHandlers.new.extractCacheConfig r.config with
    requestHeaders := r.request.headers
    cacheKey := some r.key
    hasAuthorization := r.request.headers.containsKey "authorization".toList }

/-- Handlers with a key are those that await the response. -/
theorem requestHandler_awaiting {module : CacheModule responses varies} {r : RoutedRequest rewrite}
    {now : Nanos} {cacheKey : Str}
    (h : (requestHandler fromValue module .new r.request r.config r.encrypted now).2.1.cacheKey =
      some cacheKey) :
    (requestHandler fromValue module .new r.request r.config r.encrypted now).2.1 = awaiting r := by
  have hnone : ¬(none : Option Str) = some cacheKey := by simp
  unfold requestHandler at h ⊢
  dsimp only at h ⊢
  by_cases hstore : (CacheDecision.fromRequest fromValue r.request).noStore = true
  · rw [if_pos hstore] at h
    exact absurd h hnone
  · rw [if_neg hstore] at h ⊢
    split at h
    · exact absurd h hnone
    · rfl

theorem storedKey_cacheKey {handlers : CacheModuleHandlers} {response : Response} {key : Str}
    (h : storedKey fromValue handlers response = some key) : handlers.cacheKey ≠ none := by
  intro hnone
  obtain ⟨cacheKey, vary, hcacheKey, -⟩ := CacheIsolation.storedKey_eq_some fromValue h
  rw [hnone] at hcacheKey
  exact absurd hcacheKey (by simp)

/-- The key under which the response for a request is stored. -/
theorem storedKey_awaiting {r : RoutedRequest rewrite} {response : Response} {key : Str}
    (h : storedKey fromValue (awaiting r) response = some key) : key = Origin.key ⟨r, response⟩ := by
  unfold storedKey at h
  split at h
  · obtain ⟨cacheKey, hcacheKey, hkey⟩ := Option.bind_eq_some_iff.1 h
    split at hkey
    · dsimp only at hkey
      split at hkey
      · exact absurd hkey (by simp)
      · rw [← Option.some.inj hkey, ← Option.some.inj hcacheKey]
        rfl
    · exact absurd hkey (by simp)
  · exact absurd h (by simp)

/-- A request changes none of the lists of varying headers. -/
theorem lookup_varies_requestHandler (module : CacheModule responses varies)
    (handlers : CacheModuleHandlers) (request : Request) (config : ServerConfiguration)
    (encrypted : Bool) (now : Nanos) (key : Str) :
    varies.lookup (requestHandler fromValue module handlers request config encrypted now).1.varyCache
      key = varies.lookup module.varyCache key := by
  have hlookup : varies.lookup (lookupCached module (CacheKey.cacheKey encrypted request)
      request.headers now).1.varyCache key = varies.lookup module.varyCache key := by
    unfold lookupCached
    dsimp only
    split
    · exact varies.get_snd _ _ _
    · exact varies.get_snd _ _ _
  unfold requestHandler
  dsimp only
  split
  · rfl
  · split
    · next hentry =>
        split
        · rfl
        · exact hlookup
    · split
      · rfl
      · exact hlookup

/-- A response changes at most the list of varying headers of its request. -/
theorem lookup_varies_responseModifyingHandler {module : CacheModule responses varies}
    {r : RoutedRequest rewrite} {response : Response} {cleanupTime storeTime : Nanos} {key : Str}
    {vary : List Str}
    (h : varies.lookup (responseModifyingHandler fromValue module (awaiting r) response cleanupTime
      storeTime).1.varyCache key = some vary) :
    vary = varyNames r response ∨ varies.lookup module.varyCache key = some vary := by
  by_cases hcollects : Collects fromValue (awaiting r) response.headers
  · obtain ⟨cacheKey, -, hresult⟩ := responseModifyingHandler_of_collects fromValue response hcollects
      module cleanupTime storeTime
    rw [hresult] at h
    split at h
    · exact Or.inr h
    · exact Or.inr h
    · unfold store at h
      dsimp only at h
      split at h
      · exact Or.inr h
      · rcases varies.insert_le _ _ _ _ _ h with ⟨-, rfl⟩ | ⟨-, hold⟩
        · exact Or.inl rfl
        · exact Or.inr hold
  · obtain ⟨response', hresult, -⟩ := responseModifyingHandler_of_not_collects fromValue response
      hcollects module cleanupTime storeTime
    rw [hresult] at h
    exact Or.inr h

/-- Without a key the caches stay as they are. -/
theorem responseModifyingHandler_of_cacheKey_none {module : CacheModule responses varies}
    {handlers : CacheModuleHandlers} (hkey : handlers.cacheKey = none) (response : Response)
    (cleanupTime storeTime : Nanos) :
    (responseModifyingHandler fromValue module handlers response cleanupTime storeTime).1 = module := by
  have hcollects : ¬Collects fromValue handlers response.headers := by
    rintro ⟨-, -, hsome, -⟩
    rw [hkey] at hsome
    exact absurd hsome (by simp)
  obtain ⟨response', hresult, -⟩ := responseModifyingHandler_of_not_collects fromValue response
    hcollects module cleanupTime storeTime
  rw [hresult]

/-- A response from the cache is the entry under the key with the varying headers. -/
theorem requestHandler_answer {module : CacheModule responses varies} {r : RoutedRequest rewrite}
    {now : Nanos} {response : Response}
    (h : (requestHandler fromValue module .new r.request r.config r.encrypted now).2.2 =
      some response) :
    ∃ vary entry, varies.lookup module.varyCache r.key = some vary ∧
      responses.lookup module.cache (buildVaryKey r.key vary r.request.headers) = some entry ∧
      response.status = entry.status ∧ response.headers = entry.headers := by
  obtain ⟨entry, hentry, rfl⟩ := requestHandler_cached fromValue h
  obtain ⟨vary, hvary, hlookup⟩ := lookupCached_eq_some hentry
  exact ⟨vary, entry, hvary, hlookup, rfl, rfl⟩

/-! ## What runs keep -/

/-- A stored response answers a request: the answer has its status and what is stored of its headers,
and it was stored under the key of the request with some varying headers of the run. -/
structure Answers (P : RoutedRequest rewrite → Prop) (Q : Response → Prop) (origin : Origin rewrite)
    (answer : Answer rewrite) : Prop where
  request : P origin.request
  response : Q origin.response
  status : answer.response.status = origin.response.status
  headers : answer.response.headers = writtenHeaders origin.request origin.response.headers
  key : ∃ r response, P r ∧ Q response ∧
    origin.key = buildVaryKey answer.request.key (varyNames r response) answer.request.request.headers

/-- What every run keeps, where `P` holds of its requests and `Q` of its responses. -/
structure Inv (P : RoutedRequest rewrite → Prop) (Q : Response → Prop)
    (state : ReuseRun responses varies rewrite) : Prop where
  entries : ∀ key entry, responses.lookup state.caches.module.cache key = some entry →
    ∃ origin, state.stored key = some origin ∧ entry.status = origin.response.status ∧
      entry.headers = writtenHeaders origin.request origin.response.headers
  stored : ∀ key origin, state.stored key = some origin →
    P origin.request ∧ Q origin.response ∧ key = origin.key
  varies : ∀ key vary, varies.lookup state.caches.module.varyCache key = some vary →
    ∃ r response, P r ∧ Q response ∧ vary = varyNames r response
  inFlight : ∀ r handlers, (r, handlers) ∈ state.caches.inFlight →
    P r ∧ (handlers.cacheKey ≠ none → handlers = awaiting r)
  answers : ∀ answer ∈ state.answers, P answer.request ∧
    ∃ origin, answer.origin = some origin ∧ Answers P Q origin answer

variable {P : RoutedRequest rewrite → Prop} {Q : Response → Prop}
  {state : ReuseRun responses varies rewrite}

theorem Inv.initial {module : CacheModule responses varies}
    (hentries : ∀ key, responses.lookup module.cache key = none)
    (hvaries : ∀ key, varies.lookup module.varyCache key = none) :
    Inv P Q (ReuseRun.initial module : ReuseRun responses varies rewrite) where
  entries key entry h := by
    rw [ReuseRun.initial, CacheRun.initial, hentries] at h
    exact absurd h (by simp)
  stored _ _ h := absurd h (by simp [ReuseRun.initial])
  varies key vary h := by
    rw [ReuseRun.initial, CacheRun.initial, hvaries] at h
    exact absurd h (by simp)
  inFlight _ _ h := absurd h (by simp [ReuseRun.initial, CacheRun.initial])
  answers _ h := absurd h (by simp [ReuseRun.initial])

/-- A response from the cache is answered by the noted one. -/
theorem Inv.answer (h : Inv P Q state) {r : RoutedRequest rewrite} {now : Nanos} {response : Response}
    (hresponse : (requestHandler fromValue state.caches.module .new r.request r.config r.encrypted
      now).2.2 = some response) :
    ∃ origin, (lookedUpKey state.caches.module r).bind state.stored = some origin ∧
      Answers P Q origin ⟨r, response, some origin⟩ := by
  obtain ⟨vary, entry, hvary, hlookup, hstatus, hheaders⟩ := requestHandler_answer fromValue hresponse
  obtain ⟨origin, hstored, hentryStatus, hentryHeaders⟩ := h.entries _ _ hlookup
  obtain ⟨hrequest, horigin, hkey⟩ := h.stored _ _ hstored
  obtain ⟨other, otherResponse, hother, hotherResponse, rfl⟩ := h.varies _ _ hvary
  refine ⟨origin, ?_, hrequest, horigin, hstatus.trans hentryStatus, hheaders.trans hentryHeaders,
    other, otherResponse, hother, hotherResponse, hkey.symm⟩
  have hlooked : lookedUpKey state.caches.module r =
      some (buildVaryKey r.key (varyNames other otherResponse) r.request.headers) := by
    rw [lookedUpKey]
    exact congrArg (Option.map _) hvary
  rw [hlooked]
  exact hstored

/-- The caches after a request hold what they held. -/
theorem Inv.request (h : Inv P Q state) {r : RoutedRequest rewrite} (hr : P r) (now : Nanos) :
    Inv P Q (step fromValue state (.request r now)) := by
  have hcaches : (step fromValue state (.request r now)).caches =
      CacheIsolation.step fromValue state.caches (.request r now) := by
    unfold step
    dsimp only
    split <;> rfl
  have hstored : (step fromValue state (.request r now)).stored = state.stored := by
    unfold step
    dsimp only
    split <;> rfl
  refine ⟨?_, ?_, ?_, ?_, ?_⟩
  · intro key entry hlookup
    rw [hcaches, CacheIsolation.step] at hlookup
    rw [lookup_requestHandler] at hlookup
    rw [hstored]
    exact h.entries key entry hlookup
  · rw [hstored]
    exact h.stored
  · intro key vary hlookup
    rw [hcaches, CacheIsolation.step] at hlookup
    rw [lookup_varies_requestHandler] at hlookup
    exact h.varies key vary hlookup
  · intro r' handlers hmem
    rw [hcaches] at hmem
    rcases List.mem_append.1 hmem with hold | hnew
    · exact h.inFlight r' handlers hold
    · obtain ⟨rfl, rfl⟩ := Prod.mk.inj (List.mem_singleton.1 hnew)
      refine ⟨hr, fun hkey => ?_⟩
      obtain ⟨cacheKey, hcacheKey⟩ := Option.ne_none_iff_exists'.1 hkey
      exact requestHandler_awaiting fromValue hcacheKey
  · intro answer hmem
    unfold step at hmem
    dsimp only at hmem
    split at hmem
    · next response hresponse =>
        rcases List.mem_append.1 hmem with hold | hnew
        · exact h.answers answer hold
        · obtain ⟨origin, horigin, hanswers⟩ := h.answer fromValue hresponse
          rw [List.mem_singleton.1 hnew]
          exact ⟨hr, origin, horigin, hanswers.request, hanswers.response, hanswers.status,
            hanswers.headers, hanswers.key⟩
    · exact h.answers answer hmem

/-- A response is noted under the key under which it is stored. -/
theorem Inv.response (h : Inv P Q state) (index : Nat) {response : Response} (hresponse : Q response)
    (cleanupTime storeTime : Nanos) :
    Inv P Q (step fromValue state (.response index response cleanupTime storeTime)) := by
  unfold step
  dsimp only
  rw [CacheIsolation.step]
  cases hget : state.caches.inFlight[index]? with
  | none => exact h
  | some awaited =>
      obtain ⟨r, handlers⟩ := awaited
      obtain ⟨hr, hhandlers⟩ := h.inFlight r handlers (List.mem_of_getElem? hget)
      refine ⟨?_, ?_, ?_, ?_, h.answers⟩
      · intro key entry hlookup
        rcases CacheIsolation.lookup_responseModifyingHandler fromValue hlookup with
          ⟨hstored, hstatus, hheaders⟩ | ⟨hother, hold⟩
        · refine ⟨⟨r, response⟩, if_pos hstored, hstatus, ?_⟩
          rw [hheaders, hhandlers (storedKey_cacheKey fromValue hstored)]
          rfl
        · obtain ⟨origin, horigin, hentry⟩ := h.entries key entry hold
          exact ⟨origin, (if_neg hother).trans horigin, hentry⟩
      · intro key origin horigin
        dsimp only [note] at horigin
        split at horigin
        · next hstored =>
            rw [← Option.some.inj horigin]
            rw [hhandlers (storedKey_cacheKey fromValue hstored)] at hstored
            exact ⟨hr, hresponse, storedKey_awaiting fromValue hstored⟩
        · exact h.stored key origin horigin
      · intro key vary hlookup
        replace hlookup : varies.lookup (responseModifyingHandler fromValue state.caches.module handlers
            response cleanupTime storeTime).1.varyCache key = some vary := hlookup
        by_cases hkey : handlers.cacheKey = none
        · rw [responseModifyingHandler_of_cacheKey_none fromValue hkey] at hlookup
          exact h.varies key vary hlookup
        · rw [hhandlers hkey] at hlookup
          rcases lookup_varies_responseModifyingHandler fromValue hlookup with hnew | hold
          · exact ⟨r, response, hr, hresponse, hnew⟩
          · exact h.varies key vary hold
      · intro r' handlers' hmem
        exact h.inFlight r' handlers' (List.mem_of_mem_eraseIdx hmem)

/-- What an action brings has the properties. -/
def ActionHas (P : RoutedRequest rewrite → Prop) (Q : Response → Prop) : Action rewrite → Prop
  | .request r _ => P r
  | .response _ response _ _ => Q response

theorem Inv.step {action : Action rewrite} (haction : ActionHas P Q action) (h : Inv P Q state) :
    Inv P Q (step fromValue state action) := by
  cases action with
  | request r now => exact h.request fromValue haction now
  | response index response cleanupTime storeTime =>
      exact h.response fromValue index haction cleanupTime storeTime

/-- In every run from empty caches, the responses from the cache are those noted under their keys. -/
theorem run_answers {module : CacheModule responses varies}
    (hentries : ∀ key, responses.lookup module.cache key = none)
    (hvaries : ∀ key, varies.lookup module.varyCache key = none) {actions : List (Action rewrite)}
    (hactions : ∀ action ∈ actions, ActionHas P Q action) {answer : Answer rewrite}
    (hanswer : answer ∈ (Run.run (CacheReuse.step fromValue) (.initial module) actions).answers) :
    P answer.request ∧ ∃ origin, answer.origin = some origin ∧ Answers P Q origin answer := by
  have hinv : Inv P Q (Run.run (CacheReuse.step fromValue) (.initial module) actions) :=
    Run.run_invariant_of_mem (fun _ _ haction h => h.step fromValue haction) hactions
      (Inv.initial hentries hvaries)
  exact hinv.answers answer hanswer

/-! ## Varying headers in keys -/

/-- The values of the headers are header values. -/
def HeaderBytes (headers : HeaderMap) : Prop := ∀ header ∈ headers, header.2.all isHeaderByte = true

/-- A header name has no colon and no line break. -/
def PlainNames (names : List Str) : Prop := ∀ name ∈ names, ':' ∉ name ∧ '\n' ∉ name

theorem varyValue_newline {headers : HeaderMap} (h : HeaderBytes headers) (name : Str) :
    '\n' ∉ varyValue headers name := by
  unfold varyValue
  cases hget : headers.get (name.map Char.toLower) with
  | none => exact List.not_mem_nil
  | some value =>
      obtain ⟨header, hfind, rfl⟩ := Option.map_eq_some_iff.1 hget
      have hbytes := h header (List.mem_of_find?_eq_some hfind)
      have hfeed : 10 ∉ header.2 := by
        intro hmem
        exact absurd (List.all_eq_true.1 hbytes 10 hmem) (by decide)
      change '\n' ∉ (toStr header.2).getD (Utf8.fromUtf8Lossy header.2)
      unfold toStr
      split
      · rw [Option.getD_some, List.mem_map]
        rintro ⟨b, hb, heq⟩
        have hvalue : (Char.ofNat b.toNat).val.toNat = b.toNat :=
          Utf8.val_ofNat (Or.inl (Nat.lt_trans b.toNat_lt (by decide)))
        have h10 : b.toNat = 10 := by
          rw [← hvalue, heq]
          rfl
        exact hfeed ((UInt8.toNat_inj.1 h10 : b = 10) ▸ hb)
      · rw [Option.getD_none]
        exact Utf8.fromUtf8Lossy_newline hfeed

/-- A varying header as a labelled line of the key. -/
def varyField (headers : HeaderMap) (name : Str) : LabelledLines.Field Char :=
  (name, ' ' :: varyValue headers name)

theorem buildVaryKey_eq (baseKey : Str) (vary : List Str) (headers : HeaderMap) :
    buildVaryKey baseKey vary headers =
      baseKey ++ '\n' :: LabelledLines.text ':' '\n' (vary.map (varyField headers)) := by
  rw [buildVaryKey, LabelledLines.text, List.map_map]
  congr 3
  apply List.map_congr_left
  intro name _
  rw [List.append_assoc]
  rfl

theorem plain_varyField {headers : HeaderMap} {vary : List Str} (hheaders : HeaderBytes headers)
    (hvary : PlainNames vary) :
    ∀ field ∈ vary.map (varyField headers), LabelledLines.Plain ':' '\n' field := by
  intro field hfield
  obtain ⟨name, hname, rfl⟩ := List.mem_map.1 hfield
  obtain ⟨hcolon, hline⟩ := hvary name hname
  refine ⟨hcolon, ?_⟩
  simp only [LabelledLines.line, varyField, List.mem_append, List.mem_cons, not_or]
  exact ⟨hline, by decide, by decide, varyValue_newline hheaders name⟩

/-- A key has the varying headers and their values back. -/
theorem buildVaryKey_varyValue {r s : RoutedRequest rewrite} {vary vary' : List Str}
    (hr : HeaderBytes r.request.headers) (hs : HeaderBytes s.request.headers)
    (hvary : PlainNames vary) (hvary' : PlainNames vary')
    (h : buildVaryKey r.key vary r.request.headers = buildVaryKey s.key vary' s.request.headers) :
    r.key = s.key ∧ vary = vary' ∧
      ∀ name ∈ vary, varyValue r.request.headers name = varyValue s.request.headers name := by
  rw [buildVaryKey_eq, buildVaryKey_eq] at h
  obtain ⟨hkey, htext⟩ :=
    (CacheKey.append_cons_inj_of_notMem_left r.key_no_newline s.key_no_newline).1 h
  have hfields := LabelledLines.text_injective (plain_varyField hr hvary) (plain_varyField hs hvary')
    htext
  have hnames : vary = vary' := by
    have hlabels := congrArg (List.map Prod.fst) hfields
    rw [List.map_map, List.map_map] at hlabels
    simpa [Function.comp_def, varyField] using hlabels
  subst hnames
  refine ⟨hkey, rfl, fun name hname => ?_⟩
  have hfield := List.map_inj_left.1 hfields name hname
  exact (List.cons.inj (Prod.mk.inj hfield).2).2

/-! ## Responses that depend on the range or on conditions -/

/-- The header asks for a range or sets a condition. -/
def IsConditional (name : HeaderName) : Prop := name = "range".toList ∨ "if-".toList <+: name

/-- The statuses that depend on these headers. -/
def conditionalStatuses : List Nat := [206, 304, 412, 416]

/-- The response of an answer was stored for a request with the same values of these headers, as far as
`Named` has their names. -/
def KeptApart (Named : Origin rewrite → HeaderName → Prop) (answer : Answer rewrite) : Prop :=
  ∃ origin, answer.origin = some origin ∧
    (origin.response.status ∈ conditionalStatuses → ∀ name, IsConditional name → Named origin name →
      answer.request.request.headers.getAll name = origin.request.request.headers.getAll name)

/-- The header is a varying header of the response. -/
def Varies (origin : Origin rewrite) (name : HeaderName) : Prop :=
  ∃ listed ∈ varyNames origin.request origin.response, listed.map Char.toLower = name

/-- The responses of a run. -/
def responsesOf (actions : List (Action rewrite)) : List Response :=
  actions.filterMap fun
    | .request .. => none
    | .response _ response _ _ => some response

theorem actionHas_of_mem {actions : List (Action rewrite)} {action : Action rewrite}
    (h : action ∈ actions) :
    ActionHas (· ∈ CacheIsolation.requestsOf actions) (· ∈ responsesOf actions) action := by
  cases action with
  | request r now => exact List.mem_filterMap.2 ⟨_, h, rfl⟩
  | response index response cleanupTime storeTime => exact List.mem_filterMap.2 ⟨_, h, rfl⟩

/-- In every run from empty caches, a response from the cache with a status that depends on the range
or on conditions was stored with this status for a request of the run that has the same text in the
first value of each of these headers that is a varying header of the stored response. -/
theorem run_conditional (fromValue : Str → Option CacheControl) (module : CacheModule responses varies)
    (hentries : ∀ key, responses.lookup module.cache key = none)
    (hvaries : ∀ key, varies.lookup module.varyCache key = none) (actions : List (Action rewrite))
    (hheaders : ∀ r ∈ CacheIsolation.requestsOf actions, HeaderBytes r.request.headers)
    (hnames : ∀ r ∈ CacheIsolation.requestsOf actions, ∀ response ∈ responsesOf actions,
      PlainNames (varyNames r response))
    (answer : Answer rewrite)
    (hanswer : answer ∈ (Run.run (step fromValue) (.initial module) actions).answers) :
    ∃ origin, answer.origin = some origin ∧ origin.request ∈ CacheIsolation.requestsOf actions ∧
      origin.response ∈ responsesOf actions ∧ answer.response.status = origin.response.status ∧
      (answer.response.status ∈ conditionalStatuses →
        ∀ name ∈ varyNames origin.request origin.response, IsConditional (name.map Char.toLower) →
          varyValue answer.request.request.headers name =
            varyValue origin.request.request.headers name) := by
  obtain ⟨hrequest, origin, horigin, hanswers⟩ := run_answers fromValue hentries hvaries
    (fun _ haction => actionHas_of_mem haction) hanswer
  refine ⟨origin, horigin, hanswers.request, hanswers.response, hanswers.status, ?_⟩
  obtain ⟨r, response, hr, hresponse, hkey⟩ := hanswers.key
  obtain ⟨-, -, hvalues⟩ := buildVaryKey_varyValue (hheaders _ hanswers.request)
    (hheaders _ hrequest) (hnames _ hanswers.request _ hanswers.response) (hnames _ hr _ hresponse)
    hkey
  exact fun _ name hname _ => (hvalues name hname).symm

end Runs

/-! ## A range that comes to other requests -/

/-- The host of the requests below. -/
def siteConfig : ServerConfiguration := ⟨∅, ⟨true, some "a.test".toList, none, none, none, none⟩⟩

/-- A GET request for a file, as the core module gets it. -/
def fileRequest (headers : HeaderMap) : RemoveBase.CoreRequest :=
  ⟨.http11, none,
    ⟨Method.get, ⟨"/f".toList, none, by decide⟩, ("host".toList, asciiBytes "a.test".toList) :: headers⟩,
    none⟩

theorem key_fileRequest (headers : HeaderMap) :
    CacheKey.cacheKey false (CacheIsolation.reaching CacheIsolation.keep siteConfig
      (fileRequest headers)) = "GET http://a.test/f".toList := rfl

/-- The routed request for a file. -/
def getFile (headers : HeaderMap) : RoutedRequest CacheIsolation.keep :=
  ⟨siteConfig, false, fileRequest headers, by
    rw [key_fileRequest]
    decide⟩

/-- The header with the range of the first four bytes. -/
def rangeHeader : HeaderMap := [("range".toList, asciiBytes "bytes=0-3".toList)]

/-- A response with the status that may be stored for a minute. -/
def storable (status : Nat) (headers : HeaderMap) : Response :=
  ⟨status, ("cache-control".toList, asciiBytes "max-age=60".toList) :: headers, [.ok (.data [97])]⟩

/-- The first four bytes of a file are asked for, and then the file. -/
def runRange : List (Action CacheIsolation.keep) :=
  [.request (getFile rangeHeader) 0, .response 0 (storable 206 []) 0 0, .request (getFile []) 0]

/-- A header with a tag, on one line or on two. -/
def tagHeader (tags : List Str) : HeaderMap :=
  tags.map fun tag => ("if-none-match".toList, asciiBytes tag)

/-- A file is asked for with one tag, and then with this one and another one. The response for the first
request varies by the header. -/
def runTags : List (Action CacheIsolation.keep) :=
  [.request (getFile (tagHeader ["a".toList])) 0,
    .response 0 (storable 304 [("vary".toList, asciiBytes "if-none-match".toList)]) 0 0,
    .request (getFile (tagHeader ["a".toList, "b".toList])) 0]

/-- What is compared of an answer and its origin: the values of a header in the two requests, and the
status and the varying headers of the stored response. -/
structure Comparison where
  asked : List HeaderValue
  stored : List HeaderValue
  status : Nat
  vary : List Str
  deriving DecidableEq

/-- The comparison of an answer with its origin. -/
def compareOrigin (name : HeaderName) (answer : Answer CacheIsolation.keep) : Option Comparison :=
  answer.origin.map fun origin =>
    ⟨answer.request.request.headers.getAll name, origin.request.request.headers.getAll name,
      origin.response.status, varyNames origin.request origin.response⟩

/-- The file comes as its first four bytes. -/
theorem answers_runRange :
    (Run.run (step parseMaxAgeMinute) (.initial emptyModule) runRange).answers.map
      (compareOrigin "range".toList) = [some ⟨[], [asciiBytes "bytes=0-3".toList], 206, []⟩] := by
  decide +kernel

theorem answers_runTags :
    (Run.run (step parseMaxAgeMinute) (.initial emptyModule) runTags).answers.map
      (compareOrigin "if-none-match".toList) =
        [some ⟨[asciiBytes "a".toList, asciiBytes "b".toList], [asciiBytes "a".toList], 304,
          ["if-none-match".toList]⟩] := by
  decide +kernel

/-- The one comparison of a run is that of one of its answers. -/
theorem exists_answer {actions : List (Action CacheIsolation.keep)} {name : HeaderName}
    {comparison : Option Comparison}
    (h : (Run.run (step parseMaxAgeMinute) (.initial emptyModule) actions).answers.map
      (compareOrigin name) = [comparison]) :
    ∃ answer ∈ (Run.run (step parseMaxAgeMinute) (.initial emptyModule) actions).answers,
      compareOrigin name answer = comparison := by
  apply List.mem_map.1
  rw [h]
  exact List.mem_singleton_self _

theorem not_keptApart {Named : Origin CacheIsolation.keep → HeaderName → Prop}
    {answer : Answer CacheIsolation.keep} {name : HeaderName} {comparison : Comparison}
    (h : compareOrigin name answer = some comparison) (hname : IsConditional name)
    (hstatus : comparison.status ∈ conditionalStatuses)
    (hnamed : ∀ origin, varyNames origin.request origin.response = comparison.vary →
      Named origin name)
    (hne : comparison.asked ≠ comparison.stored) : ¬KeptApart Named answer := by
  rintro ⟨origin, horigin, hkept⟩
  rw [compareOrigin, horigin, Option.map_some] at h
  obtain rfl := Option.some.inj h
  exact hne (hkept hstatus name hname (hnamed origin rfl))

/-- A response to a range request comes to a request without a range, and of a varying header only the
first value counts. -/
theorem conditional_reused :
    (¬ ∀ (actions : List (Action CacheIsolation.keep)) (answer : Answer CacheIsolation.keep),
      answer ∈ (Run.run (step parseMaxAgeMinute) (.initial emptyModule) actions).answers →
        KeptApart (fun _ _ => True) answer) ∧
      ¬ ∀ (actions : List (Action CacheIsolation.keep)) (answer : Answer CacheIsolation.keep),
        answer ∈ (Run.run (step parseMaxAgeMinute) (.initial emptyModule) actions).answers →
          KeptApart Varies answer := by
  constructor
  · intro h
    obtain ⟨answer, hanswer, hcompare⟩ := exists_answer answers_runRange
    refine not_keptApart hcompare (Or.inl rfl) (by decide) ?_ (by decide) (h _ answer hanswer)
    exact fun _ _ => trivial
  · intro h
    obtain ⟨answer, hanswer, hcompare⟩ := exists_answer answers_runTags
    refine not_keptApart hcompare (Or.inr (by decide)) (by decide) ?_ (by decide)
      (h _ answer hanswer)
    intro origin hvary
    refine ⟨"if-none-match".toList, ?_, by decide⟩
    rw [hvary]
    exact List.mem_singleton_self _

/-- The two requests with a tag have the same first tag. -/
theorem run_conditional_tags :
    ∃ answer ∈ (Run.run (step parseMaxAgeMinute) (.initial emptyModule) runTags).answers,
      ∃ origin, answer.origin = some origin ∧
        varyValue answer.request.request.headers "if-none-match".toList =
          varyValue origin.request.request.headers "if-none-match".toList := by
  obtain ⟨answer, hanswer, hcompare⟩ := exists_answer answers_runTags
  obtain ⟨origin, horigin, -, -, hstatus, hsame⟩ :=
    run_conditional parseMaxAgeMinute emptyModule (fun _ => rfl) (fun _ => rfl) runTags
      (by unfold HeaderBytes; decide +kernel) (by unfold PlainNames; decide +kernel) answer hanswer
  rw [compareOrigin, horigin, Option.map_some] at hcompare
  obtain ⟨-, -, h304, hvary⟩ := Comparison.mk.inj (Option.some.inj hcompare)
  refine ⟨answer, hanswer, origin, horigin, hsame ?_ _ ?_ (Or.inr (by decide))⟩
  · rw [hstatus, h304]
    decide
  · rw [hvary]
    exact List.mem_singleton_self _

end Ferron.Modules.CacheReuse
