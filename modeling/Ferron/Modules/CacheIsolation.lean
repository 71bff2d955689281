import Ferron.Config.FindConfiguration
import Ferron.Lib.Run
import Ferron.Modules.Cache
import Ferron.Modules.RemoveBase

/-!
# The response cache across configurations

The loader makes one cache module for all configurations. A request comes to it after the core module
has removed the prefix of its location and the other modules before the cache may have rewritten it, and
its key has the method, the scheme, the Host value and the rewritten target, but not the configuration.

A run notes for every key the request whose response was stored under it last, and for every response
from the cache the request that got it with the one it had been stored for. In every run these two have
one key, so responses stay within a configuration when no two configurations have a key in common
(`run_hits_share_key`). Two locations with `remove_base` have keys in common
(`hits_across_locations`).
-/

set_option autoImplicit false

namespace Ferron.Modules.CacheIsolation

open Ferron.Common Ferron.Http Ferron.Lib Ferron.Modules.Cache Ferron.Modules.RemoveBase

/-- The prefix that the core module removes for a configuration. -/
def removedPrefix (config : ServerConfiguration) : Option Str :=
  (config.getValue "UNDOCUMENTED_REMOVE_PATH_PREFIX".toList).bind ServerConfigurationValue.asStr

/-- Two configurations are for one host and one location. -/
structure SamePlace (a b : ServerConfigurationFilters) : Prop where
  hostname : a.hostname = b.hostname
  ip : a.ip = b.ip
  port : a.port = b.port
  location : a.condition.map Conditions.locationPrefix = b.condition.map Conditions.locationPrefix

section Requests

-- What the modules between the core module and the cache module do to a request.
variable (rewrite : ServerConfiguration → Request → Request)

/-- The request that comes to the cache module. -/
def reaching (config : ServerConfiguration) (request : CoreRequest) : Request :=
  rewrite config (removePathPrefix (removedPrefix config) request).request

/-- A request that has been routed to a configuration. Methods, targets and the texts of header values
have no line break, so its key has none. -/
structure RoutedRequest where
  config : ServerConfiguration
  encrypted : Bool
  received : CoreRequest
  key_no_newline : '\n' ∉ CacheKey.cacheKey encrypted (reaching rewrite config received)

namespace RoutedRequest

variable {rewrite}

/-- The request as it comes to the cache module. -/
def request (r : RoutedRequest rewrite) : Request := reaching rewrite r.config r.received

/-- Its cache key. -/
def key (r : RoutedRequest rewrite) : Str := CacheKey.cacheKey r.encrypted r.request

end RoutedRequest

end Requests

section Runs

variable (fromValue : Str → Option CacheControl) {responses : BoundedCache Str CacheEntry}
  {varies : BoundedCache Str (List Str)} {rewrite : ServerConfiguration → Request → Request}

instance (handlers : CacheModuleHandlers) (headers : HeaderMap) :
    Decidable (Collects fromValue handlers headers) :=
  inferInstanceAs (Decidable (_ ∧ _ ∧ _ ∧ _))

/-- The key under which the response-modifying handler stores a response, if it does. -/
def storedKey (handlers : CacheModuleHandlers) (response : Response) : Option Str :=
  if Collects fromValue handlers response.headers then
    handlers.cacheKey.bind fun cacheKey =>
      match (ResponseBodyHandler.new handlers.maximumCachedResponseSize).collectBody
          response.body with
      | .ok (true, _, _) =>
          let processedVary := processVary handlers.cacheVaryHeadersConfigured response.headers
          if processedVary.any (· = ['*']) then none
          else some (buildVaryKey cacheKey processedVary handlers.requestHeaders)
      | _ => none
  else none

/-- The key under which a request looks for its response. -/
def lookedUpKey (module : CacheModule responses varies) (r : RoutedRequest rewrite) : Option Str :=
  (varies.lookup module.varyCache r.key).map fun vary => buildVaryKey r.key vary r.request.headers

/-- The shared caches and the requests whose responses are awaited, with what a run notes. -/
structure CacheRun (responses : BoundedCache Str CacheEntry) (varies : BoundedCache Str (List Str))
    (rewrite : ServerConfiguration → Request → Request) where
  module : CacheModule responses varies
  inFlight : List (RoutedRequest rewrite × CacheModuleHandlers)
  /-- The request whose response was stored last under a key. -/
  origin : Str → Option (RoutedRequest rewrite)
  /-- The requests that were answered from the cache, with the origin of the response. -/
  hits : List (RoutedRequest rewrite × Option (RoutedRequest rewrite))

/-- The run at its start. -/
def CacheRun.initial (module : CacheModule responses varies) : CacheRun responses varies rewrite :=
  ⟨module, [], fun _ => none, []⟩

/-- A request comes to the cache module, or the response for a request in flight does. -/
inductive Action (rewrite : ServerConfiguration → Request → Request) where
  | request (r : RoutedRequest rewrite) (now : Nanos)
  | response (index : Nat) (response : Response) (cleanupTime storeTime : Nanos)

/-- The requests of a run. -/
def requestsOf (actions : List (Action rewrite)) : List (RoutedRequest rewrite) :=
  actions.filterMap fun
    | .request r _ => some r
    | .response .. => none

/-- A response for this request is stored under the key, if there is one. -/
def recordOrigin (origin : Str → Option (RoutedRequest rewrite)) (stored : Option Str)
    (r : RoutedRequest rewrite) : Str → Option (RoutedRequest rewrite) :=
  fun key => if stored = some key then some r else origin key

/-- One use of the shared caches. The responses may come in any order. -/
def step (state : CacheRun responses varies rewrite) :
    Action rewrite → CacheRun responses varies rewrite
  | .request r now =>
      let (module, handlers, response) :=
        requestHandler fromValue state.module .new r.request r.config r.encrypted now
      { state with
        module := module
        inFlight := state.inFlight ++ [(r, handlers)]
        hits := match response with
          | some _ => state.hits ++ [(r, (lookedUpKey state.module r).bind state.origin)]
          | none => state.hits }
  | .response index response cleanupTime storeTime =>
      match state.inFlight[index]? with
      | none => state
      | some (r, handlers) =>
          { state with
            module :=
              (responseModifyingHandler fromValue state.module handlers response cleanupTime
                storeTime).1
            inFlight := state.inFlight.eraseIdx index
            origin := recordOrigin state.origin (storedKey fromValue handlers response) r }

/-! ## What one use of the caches does -/

theorem storedKey_of_not_collects {handlers : CacheModuleHandlers} {response : Response}
    (h : ¬Collects fromValue handlers response.headers) : storedKey fromValue handlers response = none :=
  if_neg h

/-- A response is stored under the key of its request with some varying headers. -/
theorem storedKey_eq_some {handlers : CacheModuleHandlers} {response : Response} {key : Str}
    (h : storedKey fromValue handlers response = some key) :
    ∃ cacheKey vary, handlers.cacheKey = some cacheKey ∧
      key = buildVaryKey cacheKey vary handlers.requestHeaders := by
  unfold storedKey at h
  split at h
  · obtain ⟨cacheKey, hcacheKey, hkey⟩ := Option.bind_eq_some_iff.1 h
    refine ⟨cacheKey, processVary handlers.cacheVaryHeadersConfigured response.headers, hcacheKey, ?_⟩
    split at hkey
    · dsimp only at hkey
      split at hkey
      · exact absurd hkey (by simp)
      · exact (Option.some.inj hkey).symm
    · exact absurd hkey (by simp)
  · exact absurd h (by simp)

/-- A response that is stored is so under its key, with the time and its Cache-Control; any other one
leaves the caches as they are. -/
theorem responseModifyingHandler_module (module : CacheModule responses varies)
    (handlers : CacheModuleHandlers) (response : Response) (cleanupTime storeTime : Nanos) :
    storedKey fromValue handlers response = none ∧
        (responseModifyingHandler fromValue module handlers response cleanupTime storeTime).1 = module ∨
      ∃ cacheKey key body, Collects fromValue handlers response.headers ∧
        handlers.cacheKey = some cacheKey ∧ storedKey fromValue handlers response = some key ∧
        (responseModifyingHandler fromValue module handlers response cleanupTime storeTime).1 =
          { varyCache := varies.insert module.varyCache cacheKey
              (processVary handlers.cacheVaryHeadersConfigured response.headers)
            cache := responses.insert (cleanupExpiredEntries module.cache cleanupTime) key
              ⟨response.status,
                handlers.cacheIgnoreHeadersConfigured.foldl
                  (fun headers name => headers.remove (name.map Char.toLower)) response.headers,
                body, storeTime, cacheControlOf fromValue response.headers⟩ } := by
  by_cases hcollects : Collects fromValue handlers response.headers
  · obtain ⟨cacheKey, hcacheKey, hresult⟩ :=
      responseModifyingHandler_of_collects fromValue response hcollects module cleanupTime storeTime
    rw [hresult, storedKey, if_pos hcollects, hcacheKey, Option.bind_some]
    cases hcollect : (ResponseBodyHandler.new handlers.maximumCachedResponseSize).collectBody
        response.body with
    | error e => exact Or.inl ⟨rfl, rfl⟩
    | ok result =>
        obtain ⟨collected, handler, rest⟩ := result
        cases collected with
        | false => exact Or.inl ⟨rfl, rfl⟩
        | true =>
            dsimp only
            unfold store
            dsimp only
            by_cases hany : ((processVary handlers.cacheVaryHeadersConfigured response.headers).any
                fun name => decide (name = ['*'])) = true
            · rw [if_pos hany, if_pos hany]
              exact Or.inl ⟨rfl, rfl⟩
            · rw [if_neg hany, if_neg hany]
              exact Or.inr ⟨cacheKey, _, handler.buffer, hcollects, rfl, rfl, rfl⟩
  · obtain ⟨response', hresult, -⟩ := responseModifyingHandler_of_not_collects fromValue response
      hcollects module cleanupTime storeTime
    rw [hresult]
    exact Or.inl ⟨storedKey_of_not_collects fromValue hcollects, rfl⟩

/-- After a response, an entry is the one that was stored for it under its key, or it was there before
under another one. -/
theorem entry_responseModifyingHandler {module : CacheModule responses varies}
    {handlers : CacheModuleHandlers} {response : Response} {cleanupTime storeTime : Nanos} {key : Str}
    {entry : CacheEntry}
    (h : responses.lookup (responseModifyingHandler fromValue module handlers response cleanupTime
      storeTime).1.cache key = some entry) :
    (storedKey fromValue handlers response = some key ∧
        Collects fromValue handlers response.headers ∧
        ∃ body, entry = ⟨response.status,
          handlers.cacheIgnoreHeadersConfigured.foldl
            (fun headers name => headers.remove (name.map Char.toLower)) response.headers,
          body, storeTime, cacheControlOf fromValue response.headers⟩) ∨
      storedKey fromValue handlers response ≠ some key ∧
        responses.lookup module.cache key = some entry := by
  rcases responseModifyingHandler_module fromValue module handlers response cleanupTime storeTime with
    ⟨hnone, hmodule⟩ | ⟨cacheKey, storedUnder, body, hcollects, -, hstored, hmodule⟩
  · rw [hmodule] at h
    rw [hnone]
    exact Or.inr ⟨(Option.some_ne_none key).symm, h⟩
  · rw [hmodule] at h
    rcases responses.insert_le _ _ _ _ _ h with ⟨rfl, rfl⟩ | ⟨hne, hold⟩
    · exact Or.inl ⟨hstored, hcollects, body, rfl⟩
    · rw [cleanupExpiredEntries, responses.retain_eq] at hold
      refine Or.inr ⟨?_, (Option.mem_filter_iff.1 hold).1⟩
      rw [hstored, ne_eq, Option.some.injEq]
      exact fun heq => hne heq.symm

/-- After a response, an entry is that of the response under its key, or it was there before under
another one. -/
theorem lookup_responseModifyingHandler {module : CacheModule responses varies}
    {handlers : CacheModuleHandlers} {response : Response} {cleanupTime storeTime : Nanos} {key : Str}
    {entry : CacheEntry}
    (h : responses.lookup (responseModifyingHandler fromValue module handlers response cleanupTime
      storeTime).1.cache key = some entry) :
    storedKey fromValue handlers response = some key ∧ entry.status = response.status ∧
        entry.headers = handlers.cacheIgnoreHeadersConfigured.foldl
          (fun headers name => headers.remove (name.map Char.toLower)) response.headers ∨
      storedKey fromValue handlers response ≠ some key ∧
        responses.lookup module.cache key = some entry := by
  rcases entry_responseModifyingHandler fromValue h with ⟨hstored, -, body, rfl⟩ | hold
  · exact Or.inl ⟨hstored, rfl, rfl⟩
  · exact Or.inr hold

/-- The handlers that await a response have the key and the headers of their request. -/
theorem requestHandler_handlers {module : CacheModule responses varies} {request : Request}
    {config : ServerConfiguration} {encrypted : Bool} {now : Nanos} {cacheKey : Str}
    (h : (requestHandler fromValue module .new request config encrypted now).2.1.cacheKey =
      some cacheKey) :
    cacheKey = CacheKey.cacheKey encrypted request ∧
      (requestHandler fromValue module .new request config encrypted now).2.1.requestHeaders =
        request.headers := by
  have hnone : ¬(none : Option Str) = some cacheKey := by simp
  unfold requestHandler at h ⊢
  dsimp only at h ⊢
  by_cases hstore : (CacheDecision.fromRequest fromValue request).noStore = true
  · rw [if_pos hstore] at h
    exact absurd h hnone
  · rw [if_neg hstore] at h ⊢
    split at h
    · exact absurd h hnone
    · exact ⟨(Option.some.inj h).symm, rfl⟩

/-- A key with the values of varying headers has the cache key as its first line. -/
theorem buildVaryKey_inj {key₁ key₂ : Str} {vary₁ vary₂ : List Str} {headers₁ headers₂ : HeaderMap}
    (hkey₁ : '\n' ∉ key₁) (hkey₂ : '\n' ∉ key₂)
    (h : buildVaryKey key₁ vary₁ headers₁ = buildVaryKey key₂ vary₂ headers₂) : key₁ = key₂ :=
  ((CacheKey.append_cons_inj_of_notMem_left hkey₁ hkey₂).1 h).1

/-! ## What runs keep -/

/-- A request of the run whose key, with some varying headers, is this one. -/
def StoredFor (P : RoutedRequest rewrite → Prop) (key : Str) (r : RoutedRequest rewrite) : Prop :=
  P r ∧ ∃ vary, key = buildVaryKey r.key vary r.request.headers

/-- What every run keeps, where `P` holds of its requests. -/
structure Inv (P : RoutedRequest rewrite → Prop) (state : CacheRun responses varies rewrite) :
    Prop where
  entries : ∀ key entry, responses.lookup state.module.cache key = some entry →
    ∃ s, state.origin key = some s
  origin : ∀ key s, state.origin key = some s → StoredFor P key s
  inFlight : ∀ r handlers, (r, handlers) ∈ state.inFlight →
    P r ∧ ∀ cacheKey, handlers.cacheKey = some cacheKey →
      cacheKey = r.key ∧ handlers.requestHeaders = r.request.headers
  hits : ∀ r origin, (r, origin) ∈ state.hits →
    P r ∧ ∃ s, origin = some s ∧ P s ∧ s.key = r.key

variable {P : RoutedRequest rewrite → Prop} {state : CacheRun responses varies rewrite}

theorem Inv.initial {module : CacheModule responses varies}
    (hempty : ∀ key, responses.lookup module.cache key = none) :
    Inv P (CacheRun.initial module : CacheRun responses varies rewrite) where
  entries key entry h := by
    rw [CacheRun.initial, hempty] at h
    exact absurd h (by simp)
  origin _ _ h := absurd h (by simp [CacheRun.initial])
  inFlight _ _ h := absurd h (by simp [CacheRun.initial])
  hits _ _ h := absurd h (by simp [CacheRun.initial])

/-- A response from the cache was stored for a request with the same key. -/
theorem Inv.hit (h : Inv P state) {r : RoutedRequest rewrite} {now : Nanos} {response : Response}
    (hresponse : (requestHandler fromValue state.module .new r.request r.config r.encrypted now).2.2 =
      some response) :
    ∃ s, (lookedUpKey state.module r).bind state.origin = some s ∧ P s ∧ s.key = r.key := by
  obtain ⟨vary, entry, hvary, hlookup, -⟩ := requestHandler_hit fromValue hresponse
  obtain ⟨s, hs⟩ := h.entries _ _ hlookup
  obtain ⟨hP, vary', hkey⟩ := h.origin _ _ hs
  refine ⟨s, ?_, hP, buildVaryKey_inj s.key_no_newline r.key_no_newline hkey.symm⟩
  have hlooked : lookedUpKey state.module r = some (buildVaryKey r.key vary r.request.headers) := by
    rw [lookedUpKey]
    exact congrArg (Option.map _) hvary
  rw [hlooked]
  exact hs

theorem Inv.request (h : Inv P state) {r : RoutedRequest rewrite} (hr : P r) (now : Nanos) :
    Inv P (step fromValue state (.request r now)) where
  entries key entry hlookup := by
    rw [step] at hlookup
    rw [lookup_requestHandler] at hlookup
    exact h.entries key entry hlookup
  origin := h.origin
  inFlight r' handlers hmem := by
    rcases List.mem_append.1 hmem with hold | hnew
    · exact h.inFlight r' handlers hold
    · obtain ⟨rfl, rfl⟩ := Prod.mk.inj (List.mem_singleton.1 hnew)
      exact ⟨hr, fun cacheKey hkey => requestHandler_handlers fromValue hkey⟩
  hits r' origin hmem := by
    rw [step] at hmem
    dsimp only at hmem
    split at hmem
    · next response hresponse =>
        rcases List.mem_append.1 hmem with hold | hnew
        · exact h.hits r' origin hold
        · obtain ⟨rfl, rfl⟩ := Prod.mk.inj (List.mem_singleton.1 hnew)
          exact ⟨hr, h.hit fromValue hresponse⟩
    · exact h.hits r' origin hmem

theorem Inv.response (h : Inv P state) (index : Nat) (response : Response)
    (cleanupTime storeTime : Nanos) :
    Inv P (step fromValue state (.response index response cleanupTime storeTime)) := by
  rw [step]
  cases hget : state.inFlight[index]? with
  | none => exact h
  | some awaiting =>
      obtain ⟨r, handlers⟩ := awaiting
      obtain ⟨hr, hhandlers⟩ := h.inFlight r handlers (List.mem_of_getElem? hget)
      refine ⟨?_, ?_, ?_, h.hits⟩
      · intro key entry hlookup
        rcases lookup_responseModifyingHandler fromValue hlookup with ⟨hstored, -⟩ | ⟨hother, hold⟩
        · exact ⟨r, if_pos hstored⟩
        · obtain ⟨s, hs⟩ := h.entries key entry hold
          exact ⟨s, (if_neg hother).trans hs⟩
      · intro key s hs
        dsimp only [recordOrigin] at hs
        split at hs
        · next hstored =>
            obtain ⟨cacheKey, vary, hcacheKey, hkey⟩ := storedKey_eq_some fromValue hstored
            obtain ⟨rfl, hheaders⟩ := hhandlers cacheKey hcacheKey
            obtain rfl := Option.some.inj hs
            exact ⟨hr, vary, by rw [hkey, hheaders]⟩
        · exact h.origin key s hs
      · intro r' handlers' hmem
        exact h.inFlight r' handlers' (List.mem_of_mem_eraseIdx hmem)

/-- Whether the request of an action, if there is one, has the property. -/
def RequestHas (P : RoutedRequest rewrite → Prop) : Action rewrite → Prop
  | .request r _ => P r
  | .response .. => True

theorem Inv.step {action : Action rewrite} (haction : RequestHas P action) (h : Inv P state) :
    Inv P (step fromValue state action) := by
  cases action with
  | request r now => exact h.request fromValue haction now
  | response index response cleanupTime storeTime =>
      exact h.response fromValue index response cleanupTime storeTime

/-- Every request of a run is among its requests. -/
theorem requestHas_of_mem {actions : List (Action rewrite)} {action : Action rewrite}
    (h : action ∈ actions) : RequestHas (· ∈ requestsOf actions) action := by
  cases action with
  | request r now => exact List.mem_filterMap.2 ⟨_, h, rfl⟩
  | response index response cleanupTime storeTime => trivial

/-- In every run from an empty cache, a response from the cache was stored for a request of the run with
the same key. When requests of the run that are for different hosts or locations have different keys, it
was stored for a request for the same host and location. -/
theorem run_hits_share_key (fromValue : Str → Option CacheControl)
    (module : CacheModule responses varies)
    (hempty : ∀ key, responses.lookup module.cache key = none) (actions : List (Action rewrite))
    (r : RoutedRequest rewrite) (origin : Option (RoutedRequest rewrite))
    (hhit : (r, origin) ∈ (Run.run (step fromValue) (.initial module) actions).hits) :
    ∃ s, origin = some s ∧ s ∈ requestsOf actions ∧ r ∈ requestsOf actions ∧ s.key = r.key ∧
      ((∀ a ∈ requestsOf actions, ∀ b ∈ requestsOf actions, a.key = b.key →
          SamePlace a.config.filters b.config.filters) →
        SamePlace s.config.filters r.config.filters) := by
  have hinv : Inv (· ∈ requestsOf actions) (Run.run (step fromValue) (.initial module) actions) :=
    Run.run_invariant_of_mem (fun _ _ haction h => h.step fromValue haction)
      (fun _ haction => requestHas_of_mem haction) (Inv.initial hempty)
  obtain ⟨hr, s, horigin, hs, hkey⟩ := hinv.hits r origin hhit
  exact ⟨s, horigin, hs, hr, hkey, fun hplaces => hplaces s hs r hr hkey⟩

end Runs

/-! ## Two locations of one host -/

/-- `location prefix remove_base=#true` of one host. -/
def cachedLocation (location : Str) : ServerConfiguration :=
  ⟨(∅ : HashMap Str ServerConfigurationEntries).insert "UNDOCUMENTED_REMOVE_PATH_PREFIX".toList
      ⟨[⟨[.string location], ∅⟩]⟩,
    ⟨true, some "a.test".toList, none, none, some ⟨location, []⟩, none⟩⟩

/-- No module before the cache module changes the request. -/
def keep (_ : ServerConfiguration) (request : Request) : Request := request

/-- A GET request for a path of the host. -/
def hostGet (path : Str) (hpath : '?' ∉ path) : CoreRequest :=
  ⟨.http11, none, CacheKey.plainGet "a.test".toList path hpath, none⟩

/-- A request for `/a/x`, routed to the location `/a`. -/
def requestA : RoutedRequest keep :=
  ⟨cachedLocation "/a".toList, false, hostGet "/a/x".toList (by decide), by decide +kernel⟩

/-- A request for `/b/x`, routed to the location `/b`. -/
def requestB : RoutedRequest keep :=
  ⟨cachedLocation "/b".toList, false, hostGet "/b/x".toList (by decide), by decide +kernel⟩

/-- The response for `/a/x` may be stored for a minute; `/b/x` is asked for after it. -/
def runAcross : List (Action keep) :=
  [.request requestA 0,
    .response 0 ⟨200, [("cache-control".toList, asciiBytes "max-age=60".toList)],
      [.ok (.data [97])]⟩ 0 0,
    .request requestB 0]

/-- The location of a request. -/
def locationOf (r : RoutedRequest keep) : Option Str :=
  r.config.filters.condition.map Conditions.locationPrefix

/-- The request for `/b/x` gets the response for `/a/x`. -/
theorem hits_runAcross :
    (Run.run (step parseMaxAgeMinute) (.initial emptyModule) runAcross).hits.map
      (fun hit => (locationOf hit.1, hit.2.map locationOf)) =
        [(some "/b".toList, some (some "/a".toList))] := by
  decide +kernel

theorem exists_hit_runAcross :
    ∃ r s, (r, some s) ∈ (Run.run (step parseMaxAgeMinute) (.initial emptyModule) runAcross).hits ∧
      locationOf r = some "/b".toList ∧ locationOf s = some "/a".toList := by
  have hmem : (some "/b".toList, some (some "/a".toList)) ∈
      (Run.run (step parseMaxAgeMinute) (.initial emptyModule) runAcross).hits.map
        (fun hit => (locationOf hit.1, hit.2.map locationOf)) := by
    rw [hits_runAcross]
    exact List.mem_singleton_self _
  obtain ⟨⟨r, origin⟩, hhit, heq⟩ := List.mem_map.1 hmem
  obtain ⟨hr, horigin⟩ := Prod.mk.inj heq
  obtain ⟨s, rfl, hs⟩ := Option.map_eq_some_iff.1 horigin
  exact ⟨r, s, hhit, hr, hs⟩

/-- The location to which a request for a path is routed. -/
def routedTo (path : Str) : Option Str :=
  match Config.findConfiguration Config.noCondition id
      (.new [cachedLocation "/a".toList, cachedLocation "/b".toList]) path (some "a.test".toList)
      ⟨.v4 1, 80⟩ with
  | .ok (some config) => config.filters.condition.map Conditions.locationPrefix
  | _ => none

/-- The second request is routed to another location than the request whose response it gets. -/
theorem hits_across_locations :
    routedTo "/a/x".toList = some "/a".toList ∧ routedTo "/b/x".toList = some "/b".toList ∧
      ¬ ∀ (actions : List (Action keep)) (r : RoutedRequest keep)
        (origin : Option (RoutedRequest keep)),
        (r, origin) ∈ (Run.run (step parseMaxAgeMinute) (.initial emptyModule) actions).hits →
        ∃ s, origin = some s ∧ SamePlace s.config.filters r.config.filters := by
  refine ⟨by decide +kernel, by decide +kernel, ?_⟩
  intro h
  obtain ⟨r, s, hmem, hr, hs⟩ := exists_hit_runAcross
  obtain ⟨s', hs', hplace⟩ := h runAcross r (some s) hmem
  obtain rfl := Option.some.inj hs'
  have hlocation : locationOf s = locationOf r := hplace.location
  rw [hr, hs] at hlocation
  exact absurd hlocation (by decide)

/-- The two requests have one key. -/
theorem run_hits_share_key_across :
    ∃ r s, (r, some s) ∈ (Run.run (step parseMaxAgeMinute) (.initial emptyModule) runAcross).hits ∧
      s ∈ requestsOf runAcross ∧ s.key = r.key := by
  obtain ⟨r, s, hmem, -, -⟩ := exists_hit_runAcross
  obtain ⟨s', hs', horigin, -, hkey, -⟩ :=
    run_hits_share_key parseMaxAgeMinute emptyModule (fun _ => rfl) runAcross r (some s) hmem
  obtain rfl := Option.some.inj hs'
  exact ⟨r, s, hmem, horigin, hkey⟩

end Ferron.Modules.CacheIsolation
