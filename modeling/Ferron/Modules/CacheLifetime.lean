import Ferron.Modules.CacheReuse

/-!
# Cache-Control and the time in the cache

Cache-Control may have several lines. None of the lines of a stored response may say `no-store`, `private`
or `no-cache`, and a response is served no longer after it was stored than its lines say: the `s-maxage` of
one of them, else the `max-age`, else the default.

The handlers read the first line only, and take its `no-cache` for no obstacle. What they decide is what all
the lines say exactly when the first line has no `no-cache` and no other line forbids to store the response
or has it served for a shorter time (`speaks_iff`). In a run in which this holds of every response that is
stored, Cache-Control is respected (`run_cacheControl_respected`).
-/

set_option autoImplicit false

namespace Ferron.Modules.CacheLifetime

open Ferron.Common Ferron.Http Ferron.Lib Ferron.Modules.Cache
open Ferron.Modules.CacheIsolation (RoutedRequest CacheRun Action storedKey lookedUpKey)
open Ferron.Modules.CacheReuse (Origin writtenHeaders awaiting responsesOf)

/-! ## What Cache-Control says -/

section Lines

variable (fromValue : Str → Option CacheControl)

/-- What the lines say. A line that is no text or that the parser does not accept says nothing. -/
def parsedLines (lines : List HeaderValue) : List CacheControl :=
  lines.filterMap fun line => (toStr line).bind fromValue

/-- The lines of Cache-Control, parsed. -/
def controls (headers : HeaderMap) : List CacheControl :=
  parsedLines fromValue (headers.getAll "cache-control".toList)

/-- The lines after the first one, parsed. -/
def laterControls (headers : HeaderMap) : List CacheControl :=
  parsedLines fromValue (headers.getAll "cache-control".toList).tail

/-- The response may not be served from a cache as it is. -/
def Forbids (control : CacheControl) : Prop :=
  control.noStore = true ∨ control.cachability = some .cachePrivate ∨
    control.cachability = some .noCache

/-- How long a response with these lines may be served: `s-maxage`, else `max-age`, else the default. -/
def lifetime (controls : List CacheControl) : Nanos :=
  (controls.findSome? CacheControl.sMaxAge <|> controls.findSome? CacheControl.maxAge).getD
    defaultMaxAge

/-- The first line does not say `no-cache`, and the other lines do not forbid what it allows. -/
structure FirstLineSpeaks (headers : HeaderMap) : Prop where
  noCache : ∀ control ∈ cacheControlOf fromValue headers, control.cachability ≠ some .noCache
  later : ∀ control ∈ laterControls fromValue headers, ¬Forbids control
  lifetime_le : lifetime (cacheControlOf fromValue headers).toList ≤
    lifetime (controls fromValue headers)

theorem maxAge_eq (entry : CacheEntry) : entry.maxAge = lifetime entry.cacheControl.toList := by
  unfold CacheEntry.maxAge lifetime
  cases entry.cacheControl with
  | none => rfl
  | some control =>
      simp only [Option.bind_some, Option.toList_some, List.findSome?_singleton]

/-- The line that the handlers read is the first one. -/
theorem controls_of_cacheControlOf {headers : HeaderMap} {control : CacheControl}
    (h : cacheControlOf fromValue headers = some control) :
    controls fromValue headers = control :: laterControls fromValue headers := by
  rw [cacheControlOf, HeaderMap.get_eq_head?] at h
  unfold controls laterControls
  cases hlines : headers.getAll "cache-control".toList with
  | nil =>
      rw [hlines] at h
      exact absurd h (by simp)
  | cons line lines =>
      rw [hlines, List.head?_cons, Option.bind_some] at h
      rw [parsedLines, List.filterMap_cons, h, List.tail_cons]
      rfl

/-- A response that is stored has a first line, which forbids nothing unless it says `no-cache`. -/
theorem shouldCacheResponse_first {control : Option CacheControl} {hasAuthorization : Bool}
    (h : shouldCacheResponse control hasAuthorization = true) :
    ∃ first, control = some first ∧ (Forbids first ↔ first.cachability = some .noCache) := by
  unfold shouldCacheResponse at h
  cases control with
  | none => exact absurd h Bool.false_ne_true
  | some first =>
      refine ⟨first, rfl, ?_⟩
      dsimp only at h
      by_cases hstore : first.noStore = true
      · rw [if_pos hstore] at h
        exact absurd h Bool.false_ne_true
      · rw [if_neg hstore] at h
        constructor
        · rintro (hforbids | hprivate | hcache)
          · exact absurd hforbids hstore
          · rw [hprivate] at h
            exact absurd h Bool.false_ne_true
          · exact hcache
        · exact fun hcache => Or.inr (Or.inr hcache)

/-- What the handlers decide on a response that they store is what all its lines say, exactly when the
first line speaks for the others. -/
theorem speaks_iff {headers : HeaderMap} {hasAuthorization : Bool}
    (h : shouldCacheResponse (cacheControlOf fromValue headers) hasAuthorization = true) :
    (∀ control ∈ controls fromValue headers, ¬Forbids control) ∧
        lifetime (cacheControlOf fromValue headers).toList ≤ lifetime (controls fromValue headers) ↔
      FirstLineSpeaks fromValue headers := by
  obtain ⟨first, hfirst, hforbids⟩ := shouldCacheResponse_first h
  have hcontrols := controls_of_cacheControlOf fromValue hfirst
  constructor
  · rintro ⟨hall, hlifetime⟩
    rw [hcontrols] at hall
    refine ⟨?_, fun control hmem => hall control (List.mem_cons_of_mem _ hmem), hlifetime⟩
    intro control hmem hcache
    rw [hfirst] at hmem
    obtain rfl := Option.some.inj hmem
    exact hall first List.mem_cons_self (hforbids.2 hcache)
  · rintro ⟨hcache, hlater, hlifetime⟩
    refine ⟨?_, hlifetime⟩
    rw [hcontrols]
    intro control hmem
    rcases List.mem_cons.1 hmem with rfl | htail
    · exact fun hcontrol => hcache control hfirst (hforbids.1 hcontrol)
    · exact hlater control htail

end Lines

/-! ## Runs with the times -/

section Runs

variable {responses : BoundedCache Str CacheEntry} {varies : BoundedCache Str (List Str)}
  {rewrite : ServerConfiguration → Request → Request}

/-- A response that was stored, the request it was for, and when it was stored. -/
structure Deposit (rewrite : ServerConfiguration → Request → Request) where
  origin : Origin rewrite
  storedAt : Nanos

/-- A response from the cache, when it was served, and what was noted under its key. -/
structure Serving (rewrite : ServerConfiguration → Request → Request) where
  request : RoutedRequest rewrite
  response : Response
  servedAt : Nanos
  deposit : Option (Deposit rewrite)

/-- A run of the cache module with the times. -/
structure LifetimeRun (responses : BoundedCache Str CacheEntry)
    (varies : BoundedCache Str (List Str)) (rewrite : ServerConfiguration → Request → Request) where
  caches : CacheRun responses varies rewrite
  /-- The response that was stored last under a key. -/
  stored : Str → Option (Deposit rewrite)
  servings : List (Serving rewrite)

/-- The run at its start. -/
def LifetimeRun.initial (module : CacheModule responses varies) :
    LifetimeRun responses varies rewrite :=
  ⟨.initial module, fun _ => none, []⟩

variable (fromValue : Str → Option CacheControl)

/-- One use of the shared caches, and what is noted of it. -/
def step (state : LifetimeRun responses varies rewrite) (action : Action rewrite) :
    LifetimeRun responses varies rewrite :=
  let caches := CacheIsolation.step fromValue state.caches action
  match action with
  | .request r now =>
      let module := state.caches.module
      match (requestHandler fromValue module .new r.request r.config r.encrypted now).2.2 with
      | some response =>
          let deposit := (lookedUpKey module r).bind state.stored
          { state with caches := caches, servings := state.servings ++ [⟨r, response, now, deposit⟩] }
      | none => { state with caches := caches }
  | .response index response _ storeTime =>
      match state.caches.inFlight[index]? with
      | some (r, handlers) =>
          let key := storedKey fromValue handlers response
          { state with
            caches := caches
            stored := fun other =>
              if key = some other then some ⟨⟨r, response⟩, storeTime⟩ else state.stored other }
      | none => { state with caches := caches }

/-- The response was stored, none of the lines of its Cache-Control forbids to serve it from the cache, and
it is served within the lifetime they give it. -/
def Respected (serving : Serving rewrite) : Prop :=
  ∃ deposit, serving.deposit = some deposit ∧
    serving.response.status = deposit.origin.response.status ∧
    serving.response.headers =
      writtenHeaders deposit.origin.request deposit.origin.response.headers ∧
    (∀ control ∈ controls fromValue deposit.origin.response.headers, ¬Forbids control) ∧
    serving.servedAt ≤
      deposit.storedAt + lifetime (controls fromValue deposit.origin.response.headers)

/-- The first line of a response that is stored speaks for the others. -/
def StoresSpeaking (state : LifetimeRun responses varies rewrite) : Action rewrite → Prop
  | .request .. => True
  | .response index response _ _ => ∀ r handlers, state.caches.inFlight[index]? = some (r, handlers) →
      storedKey fromValue handlers response ≠ none → FirstLineSpeaks fromValue response.headers

/-- An entry of the cache is what was noted, and it does not stay fresh for too long. -/
structure Holds (deposit : Deposit rewrite) (entry : CacheEntry) : Prop where
  status : entry.status = deposit.origin.response.status
  headers : entry.headers = writtenHeaders deposit.origin.request deposit.origin.response.headers
  timestamp : entry.timestamp = deposit.storedAt
  allowed : ∀ control ∈ controls fromValue deposit.origin.response.headers, ¬Forbids control
  maxAge_le : entry.maxAge ≤ lifetime (controls fromValue deposit.origin.response.headers)

/-- What every run keeps whose stored responses are so. -/
structure Inv (state : LifetimeRun responses varies rewrite) : Prop where
  entries : ∀ key entry, responses.lookup state.caches.module.cache key = some entry →
    ∃ deposit, state.stored key = some deposit ∧ Holds fromValue deposit entry
  inFlight : ∀ r handlers, (r, handlers) ∈ state.caches.inFlight →
    handlers.cacheKey ≠ none → handlers = awaiting r
  servings : ∀ serving ∈ state.servings, Respected fromValue serving

variable {fromValue} {state : LifetimeRun responses varies rewrite}

theorem Inv.initial {module : CacheModule responses varies}
    (hentries : ∀ key, responses.lookup module.cache key = none) :
    Inv fromValue (LifetimeRun.initial module : LifetimeRun responses varies rewrite) where
  entries key entry h := by
    rw [LifetimeRun.initial, CacheRun.initial, hentries] at h
    exact absurd h (by simp)
  inFlight _ _ h := absurd h (by simp [LifetimeRun.initial, CacheRun.initial])
  servings _ h := absurd h (by simp [LifetimeRun.initial])

/-- A response from the cache is an entry that is fresh, and so what was noted of it. -/
theorem Inv.serving (h : Inv fromValue state) {r : RoutedRequest rewrite} {now : Nanos}
    {response : Response}
    (hresponse : (requestHandler fromValue state.caches.module .new r.request r.config r.encrypted
      now).2.2 = some response) :
    Respected fromValue
      ⟨r, response, now, (lookedUpKey state.caches.module r).bind state.stored⟩ := by
  obtain ⟨entry, hentry, rfl⟩ := requestHandler_cached fromValue hresponse
  obtain ⟨vary, hvary, hlookup⟩ := lookupCached_eq_some hentry
  obtain ⟨deposit, hstored, hholds⟩ := h.entries _ _ hlookup
  have hlooked : lookedUpKey state.caches.module r =
      some (buildVaryKey r.key vary r.request.headers) := by
    rw [lookedUpKey]
    exact congrArg (Option.map _) hvary
  have hfresh : now - entry.timestamp ≤ entry.maxAge :=
    of_decide_eq_true (isFresh_lookupCached hentry)
  refine ⟨deposit, ?_, hholds.status, hholds.headers, hholds.allowed, ?_⟩
  · rw [hlooked]
    exact hstored
  · rw [hholds.timestamp] at hfresh
    exact Nat.sub_le_iff_le_add'.1 (Nat.le_trans hfresh hholds.maxAge_le)

theorem Inv.request (h : Inv fromValue state) (r : RoutedRequest rewrite) (now : Nanos) :
    Inv fromValue (step fromValue state (.request r now)) := by
  have hcaches : (step fromValue state (.request r now)).caches =
      CacheIsolation.step fromValue state.caches (.request r now) := by
    unfold step
    dsimp only
    split <;> rfl
  have hstored : (step fromValue state (.request r now)).stored = state.stored := by
    unfold step
    dsimp only
    split <;> rfl
  refine ⟨?_, ?_, ?_⟩
  · intro key entry hlookup
    rw [hcaches, CacheIsolation.step] at hlookup
    rw [lookup_requestHandler] at hlookup
    rw [hstored]
    exact h.entries key entry hlookup
  · intro r' handlers hmem hkey
    rw [hcaches] at hmem
    rcases List.mem_append.1 hmem with hold | hnew
    · exact h.inFlight r' handlers hold hkey
    · obtain ⟨rfl, rfl⟩ := Prod.mk.inj (List.mem_singleton.1 hnew)
      obtain ⟨cacheKey, hcacheKey⟩ := Option.ne_none_iff_exists'.1 hkey
      exact CacheReuse.requestHandler_awaiting fromValue hcacheKey
  · intro serving hmem
    unfold step at hmem
    dsimp only at hmem
    split at hmem
    · next response hresponse =>
        rcases List.mem_append.1 hmem with hold | hnew
        · exact h.servings serving hold
        · rw [List.mem_singleton.1 hnew]
          exact h.serving hresponse
    · exact h.servings serving hmem

theorem Inv.response (h : Inv fromValue state) {index : Nat} {response : Response}
    {cleanupTime storeTime : Nanos}
    (hspeaks : StoresSpeaking fromValue state (.response index response cleanupTime storeTime)) :
    Inv fromValue (step fromValue state (.response index response cleanupTime storeTime)) := by
  unfold step
  dsimp only
  rw [CacheIsolation.step]
  cases hget : state.caches.inFlight[index]? with
  | none => exact h
  | some awaited =>
      obtain ⟨r, handlers⟩ := awaited
      refine ⟨?_, ?_, h.servings⟩
      · intro key entry hlookup
        rcases CacheIsolation.entry_responseModifyingHandler fromValue hlookup with
          ⟨hstored, hcollects, body, rfl⟩ | ⟨hother, hold⟩
        · have hsome : storedKey fromValue handlers response ≠ none := by
            rw [hstored]
            exact Option.some_ne_none key
          obtain ⟨hallowed, hlifetime⟩ :=
            (speaks_iff fromValue hcollects.2.2.2).2 (hspeaks r handlers hget hsome)
          refine ⟨⟨⟨r, response⟩, storeTime⟩, if_pos hstored, rfl, ?_, rfl, hallowed, ?_⟩
          · rw [h.inFlight r handlers (List.mem_of_getElem? hget)
              (CacheReuse.storedKey_cacheKey fromValue hstored)]
            rfl
          · rw [maxAge_eq]
            exact hlifetime
        · obtain ⟨deposit, hdeposit, hholds⟩ := h.entries key entry hold
          exact ⟨deposit, (if_neg hother).trans hdeposit, hholds⟩
      · intro r' handlers' hmem
        exact h.inFlight r' handlers' (List.mem_of_mem_eraseIdx hmem)

theorem Inv.step {action : Action rewrite} (hspeaks : StoresSpeaking fromValue state action)
    (h : Inv fromValue state) : Inv fromValue (CacheLifetime.step fromValue state action) := by
  cases action with
  | request r now => exact h.request r now
  | response index response cleanupTime storeTime => exact h.response hspeaks

/-- In every run from an empty cache in which the first line of each stored response speaks for the others,
no response comes from the cache that Cache-Control forbids to serve from it, and none after its
lifetime. -/
theorem run_cacheControl_respected (fromValue : Str → Option CacheControl)
    (module : CacheModule responses varies)
    (hentries : ∀ key, responses.lookup module.cache key = none) (actions : List (Action rewrite))
    (hspeaks : Run.AllSteps (step fromValue) (StoresSpeaking fromValue) (.initial module) actions)
    (serving : Serving rewrite)
    (hserving : serving ∈ (Run.run (step fromValue) (.initial module) actions).servings) :
    Respected fromValue serving := by
  have hinv : Inv fromValue (Run.run (step fromValue) (.initial module) actions) :=
    Run.run_invariant (fun _ _ hok h => h.step hok) (Inv.initial hentries) hspeaks
  exact hinv.servings serving hserving

/-- It is enough that the first lines of all responses speak for the others. -/
theorem storesSpeaking_of_responses {module : CacheModule responses varies}
    {actions : List (Action rewrite)}
    (h : ∀ response ∈ responsesOf actions, FirstLineSpeaks fromValue response.headers) :
    Run.AllSteps (step fromValue) (StoresSpeaking fromValue) (.initial module) actions := by
  have hok : ∀ (state : LifetimeRun responses varies rewrite) (action : Action rewrite),
      action ∈ actions → True → StoresSpeaking fromValue state action := by
    intro state action haction _
    cases action with
    | request r now => trivial
    | response index response cleanupTime storeTime =>
        exact fun _ _ _ _ => h response (List.mem_filterMap.2 ⟨_, haction, rfl⟩)
  exact Run.allSteps_of_invariant hok (fun _ _ _ _ => trivial) (fun _ haction => haction) trivial

end Runs

/-! ## Responses that are served all the same -/

/-- The parser on the values used below. -/
def parseListed (value : Str) : Option CacheControl :=
  if value = "no-cache, max-age=60".toList then some ⟨some .noCache, some (fromSecs 60), none, false⟩
  else if value = "no-store".toList then some ⟨none, none, none, true⟩
  else if value = "public".toList then some ⟨some .cachePublic, none, none, false⟩
  else parseMaxAgeMinute value

/-- A file with these lines of Cache-Control is asked for twice, the second time at the given second. -/
def runLines (lines : List Str) (second : Nat) : List (Action CacheIsolation.keep) :=
  [.request (CacheReuse.getFile []) 0,
    .response 0 ⟨200, lines.map fun line => ("cache-control".toList, asciiBytes line),
      [.ok (.data [97])]⟩ 0 0,
    .request (CacheReuse.getFile []) (fromSecs second)]

/-- What is compared of a serving: what the stored response says, and the two times. -/
structure Times where
  controls : List CacheControl
  storedAt : Nanos
  servedAt : Nanos
  deriving DecidableEq

/-- The comparison of a serving. -/
def timesOf (serving : Serving CacheIsolation.keep) : Option Times :=
  serving.deposit.map fun deposit =>
    ⟨controls parseListed deposit.origin.response.headers, deposit.storedAt, serving.servedAt⟩

/-- The responses from the cache in a run from empty caches. -/
def servings (actions : List (Action CacheIsolation.keep)) : List (Serving CacheIsolation.keep) :=
  (Run.run (step parseListed) (.initial emptyModule) actions).servings

theorem times_noCache :
    (servings (runLines ["no-cache, max-age=60".toList] 1)).map timesOf =
      [some ⟨[⟨some .noCache, some (fromSecs 60), none, false⟩], 0, fromSecs 1⟩] := by
  decide +kernel

theorem times_secondLine :
    (servings (runLines ["max-age=60".toList, "no-store".toList] 1)).map timesOf =
      [some ⟨[⟨none, some (fromSecs 60), none, false⟩, ⟨none, none, none, true⟩], 0,
        fromSecs 1⟩] := by
  decide +kernel

theorem times_late :
    (servings (runLines ["public".toList, "max-age=60".toList] 120)).map timesOf =
      [some ⟨[⟨some .cachePublic, none, none, false⟩, ⟨none, some (fromSecs 60), none, false⟩], 0,
        fromSecs 120⟩] := by
  decide +kernel

/-- A serving with times that do not fit what the stored response says. -/
theorem not_respected {actions : List (Action CacheIsolation.keep)} {times : Times}
    (h : (servings actions).map timesOf = [some times])
    (hbad : (∃ control ∈ times.controls, Forbids control) ∨
      times.storedAt + lifetime times.controls < times.servedAt) :
    ¬ ∀ serving ∈ servings actions, Respected parseListed serving := by
  intro hall
  have hmem : some times ∈ (servings actions).map timesOf := by
    rw [h]
    exact List.mem_singleton_self _
  obtain ⟨serving, hserving, htimes⟩ := List.mem_map.1 hmem
  obtain ⟨deposit, hdeposit, -, -, hallowed, hserved⟩ := hall serving hserving
  rw [timesOf, hdeposit, Option.map_some] at htimes
  obtain rfl := Option.some.inj htimes
  rcases hbad with ⟨control, hcontrol, hforbids⟩ | hlate
  · exact hallowed control hcontrol hforbids
  · exact absurd hserved (Nat.not_le.2 hlate)

/-- A response with `no-cache` comes from the cache, and so does one with `no-store` on its second line. One
with `max-age` on its second line does so after this time. -/
theorem cacheControl_ignored :
    (¬ ∀ serving ∈ servings (runLines ["no-cache, max-age=60".toList] 1),
        Respected parseListed serving) ∧
      (¬ ∀ serving ∈ servings (runLines ["max-age=60".toList, "no-store".toList] 1),
        Respected parseListed serving) ∧
      ¬ ∀ serving ∈ servings (runLines ["public".toList, "max-age=60".toList] 120),
        Respected parseListed serving := by
  refine ⟨not_respected times_noCache (Or.inl ?_), not_respected times_secondLine (Or.inl ?_),
    not_respected times_late (Or.inr ?_)⟩
  · exact ⟨_, List.mem_singleton_self _, Or.inr (Or.inr rfl)⟩
  · exact ⟨_, List.mem_cons_of_mem _ (List.mem_singleton_self _), Or.inl rfl⟩
  · decide

/-- One line speaks for all. -/
theorem firstLineSpeaks_minute :
    ∀ response ∈ responsesOf (runLines ["max-age=60".toList] 60),
      FirstLineSpeaks parseListed response.headers := by
  intro response hresponse
  obtain rfl := List.mem_singleton.1 hresponse
  refine ⟨?_, ?_, ?_⟩
  · decide +kernel
  · intro control hcontrol
    exact absurd hcontrol List.not_mem_nil
  · decide +kernel

/-- After a minute the response still comes from the cache. -/
theorem run_cacheControl_respected_minute :
    ∃ serving ∈ (Run.run (step parseListed) (.initial emptyModule)
        (runLines ["max-age=60".toList] 60)).servings, Respected parseListed serving := by
  have hlength : (Run.run (step parseListed) (.initial emptyModule)
      (runLines ["max-age=60".toList] 60)).servings.length = 1 := by
    decide +kernel
  obtain ⟨serving, hserving⟩ := List.exists_mem_of_length_pos (by rw [hlength]; exact Nat.one_pos)
  exact ⟨serving, hserving, run_cacheControl_respected parseListed emptyModule (fun _ => rfl)
    (runLines ["max-age=60".toList] 60) (storesSpeaking_of_responses firstLineSpeaks_minute) serving
    hserving⟩

end Ferron.Modules.CacheLifetime
