import Ferron.Common.Config
import Ferron.Http.Body
import Ferron.Lib.BoundedCache
import Ferron.Modules.CacheKey
import Ferron.Rust.Utf8

/-!
# The response cache

The request handler answers from the cache when it holds a fresh response under the key of the
request; otherwise the response-modifying handler collects the body of a cacheable response up to
the configured limit, stores it and sends the collected bytes. The frame that crosses the limit is
consumed but neither collected nor left in the body, and trailers are consumed while collecting, so
the client gets the response that came in exactly when it is not collected, or has a body within the
limit and no trailers (`responseModifyingHandler_faithful_iff`). A stored body is always the
complete body (`responseModifyingHandler_stored`).

The parser of Cache-Control values and the two shared caches are parameters. The counters for
metrics are left out.
-/

set_option autoImplicit false

namespace Ferron.Modules.Cache

open Ferron.Common Ferron.Http Ferron.Lib

/-- A duration or a point in time, in nanoseconds. -/
abbrev Nanos := Nat

/-- `Duration::from_secs`. -/
def fromSecs (seconds : Nat) : Nanos := seconds * 1000000000

/-- Whether a response may be stored, and by whom. -/
inductive Cachability where
  | cachePublic
  | cachePrivate
  | noCache
  | onlyIfCached
  deriving DecidableEq, Repr

/-- A parsed Cache-Control value: the directives that the module reads. -/
structure CacheControl where
  cachability : Option Cachability
  maxAge : Option Nanos
  sMaxAge : Option Nanos
  noStore : Bool
  deriving DecidableEq, Repr

/-- A response. -/
structure Response where
  status : Nat
  headers : HeaderMap
  /-- The results of awaiting the frames of the body up to its end. -/
  body : List (Except IoError Frame)

/-- An entry of the response cache. -/
structure CacheEntry where
  status : Nat
  headers : HeaderMap
  body : Bytes
  timestamp : Nanos
  cacheControl : Option CacheControl
  deriving DecidableEq

def defaultMaxCacheResponseSize : Nat := 2097152

def defaultMaxAge : Nanos := fromSecs 300

def cacheHeaderName : HeaderName := "x-ferron-cache".toList

/-! ## Decisions -/

section Decisions

variable (fromValue : Str → Option CacheControl)

/-- The Cache-Control header of a message, parsed. -/
def cacheControlOf (headers : HeaderMap) : Option CacheControl :=
  ((headers.get "cache-control".toList).bind toStr).bind fromValue

/-- The decision on a request. -/
structure CacheDecision where
  noStore : Bool
  noCache : Bool
  deriving DecidableEq

/-- `CacheDecision::from_request`. -/
def CacheDecision.fromRequest (request : Request) : CacheDecision :=
  if request.method = Method.get ∨ request.method = Method.head then
    if request.headers.containsKey "upgrade".toList then ⟨true, false⟩
    else
      match cacheControlOf fromValue request.headers with
      | some control => ⟨control.noStore, control.cachability = some .noCache⟩
      | none => ⟨false, false⟩
  else ⟨true, false⟩

/-- `should_cache_response`. -/
def shouldCacheResponse (control : Option CacheControl) (hasAuthorization : Bool) : Bool :=
  match control with
  | none => false
  | some control =>
      if control.noStore then false
      else
        match control.cachability with
        | some .cachePrivate => false
        | some .cachePublic => true
        | _ => !hasAuthorization && (control.maxAge.isSome || control.sMaxAge.isSome)

end Decisions

/-- How long an entry stays fresh. -/
def CacheEntry.maxAge (entry : CacheEntry) : Nanos :=
  (entry.cacheControl.bind fun control => control.sMaxAge <|> control.maxAge).getD defaultMaxAge

/-- An entry that is still fresh. -/
def CacheEntry.isFresh (now : Nanos) (entry : CacheEntry) : Bool :=
  now - entry.timestamp ≤ entry.maxAge

/-! ## Collecting a body -/

/-- The response body handler. -/
structure ResponseBodyHandler where
  maxSize : Option Nat
  buffer : Bytes
  totalSize : Nat

namespace ResponseBodyHandler

/-- `new`. -/
def new (maxSize : Option Nat) : ResponseBodyHandler := ⟨maxSize, [], 0⟩

/-- The size limit is exceeded by a chunk of this size. -/
def exceeds (handler : ResponseBodyHandler) (chunkSize : Nat) : Bool :=
  handler.maxSize.any fun maxSize => maxSize < handler.totalSize + chunkSize

/-- Takes a chunk into the buffer. -/
def push (handler : ResponseBodyHandler) (bytes : Bytes) : ResponseBodyHandler :=
  { handler with
    buffer := handler.buffer ++ bytes
    totalSize := handler.totalSize + bytes.length }

/-- `collect_body`: whether the body was collected, the handler and what is left of the body. -/
def collectBody (handler : ResponseBodyHandler) :
    List (Except IoError Frame) →
      Except IoError (Bool × ResponseBodyHandler × List (Except IoError Frame))
  | [] => .ok (true, handler, [])
  | .error e :: _ => .error e
  | .ok (.data bytes) :: body =>
      -- the frame is gone from the body when its size is checked
      if handler.exceeds bytes.length then .ok (false, handler, body)
      else collectBody (handler.push bytes) body
  | .ok (.trailers _) :: body => collectBody handler body

end ResponseBodyHandler

/-- `into_data_stream`, wrapped into frames again: the data frames and the errors of a body. -/
def dataStream (body : List (Except IoError Frame)) : List (Except IoError Frame) :=
  body.filter fun
    | .ok (.trailers _) => false
    | _ => true

/-! ## Varying requests -/

/-- The value that a request gives to a varying header. -/
def varyValue (requestHeaders : HeaderMap) (headerName : Str) : Str :=
  match requestHeaders.get (headerName.map Char.toLower) with
  | some value => (toStr value).getD (Utf8.fromUtf8Lossy value)
  | none => []

/-- `VaryKeyBuilder::build`. -/
def buildVaryKey (baseKey : Str) (varyHeaders : List Str) (requestHeaders : HeaderMap) : Str :=
  baseKey ++ '\n' :: List.intercalate ['\n']
    (varyHeaders.map fun name => name ++ ": ".toList ++ varyValue requestHeaders name)

/-- The names of the varying headers: the configured ones and those of the response, sorted and
without duplicates. -/
def processVary (configured : List Str) (headers : HeaderMap) : List Str :=
  let listed := (headers.getAll "vary".toList).flatMap fun value =>
    match toStr value with
    | some s => (s.splitOn ',').map trim
    | none => []
  ((configured ++ listed).mergeSort fun a b => (compare a b).isLE).destutter (· ≠ ·)

/-! ## The handlers -/

/-- The handlers of the module for one request. -/
structure CacheModuleHandlers where
  cacheVaryHeadersConfigured : List Str
  cacheIgnoreHeadersConfigured : List Str
  maximumCachedResponseSize : Option Nat
  cacheKey : Option Str
  requestHeaders : HeaderMap
  hasAuthorization : Bool
  cached : Bool
  noStore : Bool

namespace CacheModuleHandlers

/-- The handlers as `get_module_handlers` makes them. -/
def new : CacheModuleHandlers := ⟨[], [], none, none, [], false, false, false⟩

/-- `extract_cache_config`. -/
def extractCacheConfig (handlers : CacheModuleHandlers) (config : ServerConfiguration) :
    CacheModuleHandlers :=
  { handlers with
    cacheVaryHeadersConfigured :=
      (config.getValues "cache_vary".toList).filterMap ServerConfigurationValue.asStr
    cacheIgnoreHeadersConfigured :=
      (config.getValues "cache_ignore".toList).filterMap ServerConfigurationValue.asStr
    maximumCachedResponseSize :=
      (config.getValue "cache_max_response_size".toList).bind fun v =>
        if v.isNull then none
        else some ((v.asI128.map fun f => (f % 2 ^ 64).toNat).getD defaultMaxCacheResponseSize) }

end CacheModuleHandlers

section Handlers

variable (fromValue : Str → Option CacheControl) (responses : BoundedCache Str CacheEntry)
  (varies : BoundedCache Str (List Str))

/-- The caches that the handlers of all requests share. -/
structure CacheModule where
  cache : responses.State
  varyCache : varies.State

variable {responses varies}

/-- The fresh entry for a request, if there is one. -/
def lookupCached (module : CacheModule responses varies) (cacheKey : Str) (headers : HeaderMap)
    (now : Nanos) : CacheModule responses varies × Option CacheEntry :=
  let (vary, varyCache) := varies.get module.varyCache cacheKey
  match vary with
  | none => ({ module with varyCache := varyCache }, none)
  | some processedVary =>
      let (entry, cache) := responses.get module.cache (buildVaryKey cacheKey processedVary headers)
      (⟨cache, varyCache⟩, entry.filter (CacheEntry.isFresh now))

/-- `request_handler`: the caches, the handlers for the response and a response from the cache. -/
def requestHandler (module : CacheModule responses varies) (handlers : CacheModuleHandlers)
    (request : Request) (config : ServerConfiguration) (encrypted : Bool) (now : Nanos) :
    CacheModule responses varies × CacheModuleHandlers × Option Response :=
  let handlers := handlers.extractCacheConfig config
  let decision := CacheDecision.fromRequest fromValue request
  if decision.noStore then (module, { handlers with noStore := true }, none)
  else
    let cacheKey := CacheKey.cacheKey encrypted request
    let (module, entry) :=
      if decision.noCache then (module, none) else lookupCached module cacheKey request.headers now
    match entry with
    | some entry =>
        (module, { handlers with cached := true },
          some ⟨entry.status, entry.headers, [.ok (.data entry.body)]⟩)
    | none =>
        (module,
          { handlers with
            requestHeaders := request.headers
            cacheKey := some cacheKey
            hasAuthorization := request.headers.containsKey "authorization".toList },
          none)

/-- `cleanup_expired_entries`. -/
def cleanupExpiredEntries (cache : responses.State) (now : Nanos) : responses.State :=
  responses.retain cache fun _ entry => entry.isFresh now

/-- Stores a collected body, unless the response varies by everything. -/
def store (module : CacheModule responses varies) (handlers : CacheModuleHandlers) (cacheKey : Str)
    (response : Response) (body : Bytes) (cleanupTime storeTime : Nanos) :
    CacheModule responses varies :=
  let processedVary := processVary handlers.cacheVaryHeadersConfigured response.headers
  if processedVary.any (· = ['*']) then module
  else
    let writtenHeaders := handlers.cacheIgnoreHeadersConfigured.foldl
      (fun headers name => headers.remove (name.map Char.toLower)) response.headers
    { varyCache := varies.insert module.varyCache cacheKey processedVary
      cache := responses.insert (cleanupExpiredEntries module.cache cleanupTime)
        (buildVaryKey cacheKey processedVary handlers.requestHeaders)
        ⟨response.status, writtenHeaders, body, storeTime,
          cacheControlOf fromValue response.headers⟩ }

/-- The response with the header that tells what the cache did. -/
def Response.tag (response : Response) (value : Str) : Response :=
  { response with headers := response.headers.insert cacheHeaderName (asciiBytes value) }

/-- `response_modifying_handler`: the caches and the response that goes on to the client. -/
def responseModifyingHandler (module : CacheModule responses varies)
    (handlers : CacheModuleHandlers) (response : Response) (cleanupTime storeTime : Nanos) :
    CacheModule responses varies × Except IoError Response :=
  if handlers.noStore then (module, .ok (response.tag "BYPASS".toList))
  else if handlers.cached then (module, .ok (response.tag "HIT".toList))
  else
    match handlers.cacheKey with
    | none => (module, .ok response)
    | some cacheKey =>
        let control := cacheControlOf fromValue response.headers
        if shouldCacheResponse control handlers.hasAuthorization then
          let handler := ResponseBodyHandler.new handlers.maximumCachedResponseSize
          match handler.collectBody response.body with
          | .error e => (module, .error e)
          | .ok (false, handler, rest) =>
              -- the size is exceeded: what was collected, then the rest of the stream
              let body := .ok (.data handler.buffer) :: dataStream rest
              (module, .ok ({ response with body := body }.tag "MISS".toList))
          | .ok (true, handler, _) =>
              let body := [.ok (.data handler.buffer)]
              (store fromValue module handlers cacheKey response handler.buffer cleanupTime
                storeTime, .ok ({ response with body := body }.tag "MISS".toList))
        else (module, .ok (response.tag "MISS".toList))

/-! ## What collecting does to a body -/

/-- A limit that is absent or not below a size. -/
def WithinLimit (maxSize : Option Nat) (size : Nat) : Prop := ∀ limit ∈ maxSize, size ≤ limit

namespace ResponseBodyHandler

theorem exceeds_eq_false_iff (handler : ResponseBodyHandler) (chunkSize : Nat) :
    handler.exceeds chunkSize = false ↔
      WithinLimit handler.maxSize (handler.totalSize + chunkSize) := by
  unfold exceeds WithinLimit
  cases handler.maxSize <;> simp

/-- A collected body had no error, and the buffer has all its data. -/
theorem collectBody_true {handler handler' : ResponseBodyHandler}
    {body rest : List (Except IoError Frame)}
    (h : handler.collectBody body = .ok (true, handler', rest)) :
    ∃ frames, body = frames.map .ok ∧ handler'.buffer = handler.buffer ++ dataOf frames := by
  induction body generalizing handler with
  | nil =>
      simp only [collectBody, Except.ok.injEq, Prod.mk.injEq, true_and] at h
      exact ⟨[], rfl, by rw [← h.1, dataOf_nil, List.append_nil]⟩
  | cons result body ih =>
      match result with
      | .error e => simp [collectBody] at h
      | .ok (.trailers headers) =>
          rw [collectBody] at h
          obtain ⟨frames, hbody, hbuffer⟩ := ih h
          exact ⟨.trailers headers :: frames, by rw [hbody]; rfl, by
            rw [hbuffer, dataOf_cons]; rfl⟩
      | .ok (.data bytes) =>
          rw [collectBody] at h
          split at h
          · simp at h
          · obtain ⟨frames, hbody, hbuffer⟩ := ih h
            refine ⟨.data bytes :: frames, by rw [hbody]; rfl, ?_⟩
            rw [hbuffer, dataOf_cons, push, Frame.dataBytes, List.append_assoc]

/-- A body within the limit is collected. -/
theorem collectBody_of_within {frames : List Frame} (handler : ResponseBodyHandler)
    (h : WithinLimit handler.maxSize (handler.totalSize + (dataOf frames).length)) :
    ∃ handler', handler.collectBody (frames.map .ok) = .ok (true, handler', []) := by
  induction frames generalizing handler with
  | nil => exact ⟨handler, rfl⟩
  | cons frame frames ih =>
      cases frame with
      | trailers headers => exact ih handler h
      | data bytes =>
          rw [dataOf_cons, Frame.dataBytes, List.length_append, ← Nat.add_assoc] at h
          have hchunk : handler.exceeds bytes.length = false :=
            (handler.exceeds_eq_false_iff _).2 fun limit hlimit =>
              le_trans (Nat.le_add_right _ _) (h limit hlimit)
          rw [List.map_cons, collectBody, hchunk]
          exact ih (handler.push bytes) h

/-- A body over the limit is not collected, and the frame that crosses the limit is lost. -/
theorem collectBody_of_not_within {frames : List Frame} (handler : ResponseBodyHandler)
    (hstart : WithinLimit handler.maxSize handler.totalSize)
    (h : ¬ WithinLimit handler.maxSize (handler.totalSize + (dataOf frames).length)) :
    ∃ handler' rest, handler.collectBody (frames.map .ok) = .ok (false, handler', rest.map .ok) ∧
      handler'.buffer.length + (dataOf rest).length <
        handler.buffer.length + (dataOf frames).length := by
  induction frames generalizing handler with
  | nil => exact absurd hstart h
  | cons frame frames ih =>
      cases frame with
      | trailers headers => exact ih handler hstart h
      | data bytes =>
          rw [List.map_cons, collectBody]
          cases hchunk : handler.exceeds bytes.length with
          | true =>
              refine ⟨handler, frames, rfl, ?_⟩
              have hbytes : bytes ≠ [] := by
                rintro rfl
                rw [← Bool.not_eq_false, exceeds_eq_false_iff] at hchunk
                exact hchunk hstart
              have hpos := List.length_pos_iff.2 hbytes
              rw [dataOf_cons, Frame.dataBytes, List.length_append]
              omega
          | false =>
              rw [dataOf_cons, Frame.dataBytes, List.length_append, ← Nat.add_assoc] at h
              obtain ⟨handler', rest, hcollect, hlt⟩ :=
                ih (handler.push bytes) ((handler.exceeds_eq_false_iff _).1 hchunk) h
              refine ⟨handler', rest, hcollect, ?_⟩
              rw [push, List.length_append] at hlt
              rw [dataOf_cons, Frame.dataBytes, List.length_append]
              omega

end ResponseBodyHandler

/-- The data of the data stream of a body. -/
theorem dataStream_map_ok (frames : List Frame) :
    ∃ kept, dataStream (frames.map .ok) = kept.map .ok ∧ dataOf kept = dataOf frames ∧
      trailersOf kept = [] := by
  induction frames with
  | nil => exact ⟨[], rfl, rfl, rfl⟩
  | cons frame frames ih =>
      obtain ⟨kept, hstream, hdata, htrailers⟩ := ih
      cases frame with
      | trailers headers => exact ⟨kept, hstream, hdata, htrailers⟩
      | data bytes =>
          refine ⟨.data bytes :: kept, ?_, by rw [dataOf_cons, dataOf_cons, hdata], htrailers⟩
          rw [List.map_cons, List.map_cons, ← hstream]
          rfl

/-! ## What the client gets and what is stored -/

/-- A body that yields the data and the trailers of these frames, without an error. -/
def Delivers (body : List (Except IoError Frame)) (frames : List Frame) : Prop :=
  ∃ delivered, body = delivered.map .ok ∧ dataOf delivered = dataOf frames ∧
    trailersOf delivered = trailersOf frames

theorem map_ok_injective :
    Function.Injective (List.map (Except.ok : Frame → Except IoError Frame)) :=
  List.map_injective_iff.2 fun _ _ h => Except.ok.inj h

theorem delivers_map_ok_iff (delivered frames : List Frame) :
    Delivers (delivered.map .ok) frames ↔
      dataOf delivered = dataOf frames ∧ trailersOf delivered = trailersOf frames := by
  constructor
  · rintro ⟨delivered', hbody, hdata, htrailers⟩
    rw [map_ok_injective hbody]
    exact ⟨hdata, htrailers⟩
  · rintro ⟨hdata, htrailers⟩
    exact ⟨delivered, rfl, hdata, htrailers⟩

/-- The response-modifying handler collects the body of this response. -/
def Collects (handlers : CacheModuleHandlers) (headers : HeaderMap) : Prop :=
  handlers.noStore = false ∧ handlers.cached = false ∧ handlers.cacheKey.isSome = true ∧
    shouldCacheResponse (cacheControlOf fromValue headers) handlers.hasAuthorization = true

/-- The client gets the body that came in, and every new entry of the cache has the whole body. -/
def PassesWholeBody (module : CacheModule responses varies)
    (result : CacheModule responses varies × Except IoError Response) (frames : List Frame) : Prop :=
  (∃ response, result.2 = .ok response ∧ Delivers response.body frames) ∧
    ∀ key entry, responses.lookup result.1.cache key = some entry →
      responses.lookup module.cache key = some entry ∨ entry.body = dataOf frames

@[simp] theorem Response.tag_body (response : Response) (value : Str) :
    (response.tag value).body = response.body := rfl

/-- A response that is not collected keeps its body, and the caches stay as they are. -/
theorem responseModifyingHandler_of_not_collects {handlers : CacheModuleHandlers}
    (response : Response) (h : ¬ Collects fromValue handlers response.headers)
    (module : CacheModule responses varies) (cleanupTime storeTime : Nanos) :
    ∃ response', responseModifyingHandler fromValue module handlers response cleanupTime storeTime =
      (module, .ok response') ∧ response'.body = response.body := by
  unfold responseModifyingHandler
  cases hnoStore : handlers.noStore with
  | true => exact ⟨_, rfl, rfl⟩
  | false =>
      cases hcached : handlers.cached with
      | true => exact ⟨_, rfl, rfl⟩
      | false =>
          cases hkey : handlers.cacheKey with
          | none => exact ⟨_, rfl, rfl⟩
          | some cacheKey =>
              have hshould : shouldCacheResponse (cacheControlOf fromValue response.headers)
                  handlers.hasAuthorization = false := by
                by_contra hshould
                exact h ⟨hnoStore, hcached, by rw [hkey]; rfl, Bool.of_not_eq_false hshould⟩
              simp only [hshould]
              exact ⟨_, rfl, rfl⟩

/-- A response that is collected: the three outcomes of collecting. -/
theorem responseModifyingHandler_of_collects {handlers : CacheModuleHandlers}
    (response : Response) (h : Collects fromValue handlers response.headers)
    (module : CacheModule responses varies) (cleanupTime storeTime : Nanos) :
    ∃ cacheKey, handlers.cacheKey = some cacheKey ∧
      responseModifyingHandler fromValue module handlers response cleanupTime storeTime =
        match (ResponseBodyHandler.new handlers.maximumCachedResponseSize).collectBody
            response.body with
        | .error e => (module, .error e)
        | .ok (false, handler, rest) =>
            (module, .ok ({ response with
              body := .ok (.data handler.buffer) :: dataStream rest }.tag "MISS".toList))
        | .ok (true, handler, _) =>
            (store fromValue module handlers cacheKey response handler.buffer cleanupTime storeTime,
              .ok ({ response with body := [.ok (.data handler.buffer)] }.tag "MISS".toList)) := by
  obtain ⟨hnoStore, hcached, hkey, hshould⟩ := h
  obtain ⟨cacheKey, hkey⟩ := Option.isSome_iff_exists.1 hkey
  refine ⟨cacheKey, hkey, ?_⟩
  unfold responseModifyingHandler
  simp only [hnoStore, hcached, hkey, hshould, Bool.false_eq_true, if_false, if_true]

/-- Storing adds at most one entry, and it has the body that is stored. -/
theorem lookup_store {module : CacheModule responses varies} {handlers : CacheModuleHandlers}
    {cacheKey key : Str} {response : Response} {body : Bytes} {cleanupTime storeTime : Nanos}
    {entry : CacheEntry}
    (h : responses.lookup (store fromValue module handlers cacheKey response body cleanupTime
      storeTime).cache key = some entry) :
    responses.lookup module.cache key = some entry ∨ entry.body = body := by
  unfold store at h
  simp only at h
  split at h
  · exact Or.inl h
  · rcases responses.insert_le _ _ _ _ _ h with ⟨-, rfl⟩ | ⟨-, hold⟩
    · exact Or.inr rfl
    · rw [cleanupExpiredEntries, responses.retain_eq] at hold
      exact Or.inl (Option.mem_filter_iff.1 hold).1

/-- A new entry of the cache has the whole body of the response, which came without an error. -/
theorem responseModifyingHandler_stored {module : CacheModule responses varies}
    {handlers : CacheModuleHandlers} {response : Response} {cleanupTime storeTime : Nanos}
    {key : Str} {entry : CacheEntry}
    (h : responses.lookup (responseModifyingHandler fromValue module handlers response cleanupTime
      storeTime).1.cache key = some entry) :
    responses.lookup module.cache key = some entry ∨
      ∃ frames, response.body = frames.map .ok ∧ entry.body = dataOf frames := by
  by_cases hcollects : Collects fromValue handlers response.headers
  · obtain ⟨cacheKey, -, hresult⟩ :=
      responseModifyingHandler_of_collects fromValue response hcollects module cleanupTime storeTime
    rw [hresult] at h
    split at h
    · exact Or.inl h
    · exact Or.inl h
    · rename_i handler rest hcollect
      obtain ⟨frames, hbody, hbuffer⟩ := ResponseBodyHandler.collectBody_true hcollect
      rcases lookup_store fromValue h with hold | hnew
      · exact Or.inl hold
      · exact Or.inr ⟨frames, hbody, hnew.trans (hbuffer.trans (List.nil_append _))⟩
  · obtain ⟨response', hresult, -⟩ :=
      responseModifyingHandler_of_not_collects fromValue response hcollects module cleanupTime storeTime
    rw [hresult] at h
    exact Or.inl h

/-- What reaches the client of a collected response: all its data and no trailers when it is within
the limit, and less data than came in otherwise. -/
theorem responseModifyingHandler_delivers_iff (module : CacheModule responses varies)
    (handlers : CacheModuleHandlers) (status : Nat) (headers : HeaderMap) (frames : List Frame)
    (cleanupTime storeTime : Nanos) (hcollects : Collects fromValue handlers headers) :
    (∃ response, (responseModifyingHandler fromValue module handlers
        ⟨status, headers, frames.map .ok⟩ cleanupTime storeTime).2 = .ok response ∧
        Delivers response.body frames) ↔
      WithinLimit handlers.maximumCachedResponseSize (dataOf frames).length ∧
        trailersOf frames = [] := by
  obtain ⟨cacheKey, -, hresult⟩ := responseModifyingHandler_of_collects fromValue
    ⟨status, headers, frames.map .ok⟩ hcollects module cleanupTime storeTime
  rw [hresult]
  by_cases hwithin : WithinLimit handlers.maximumCachedResponseSize (dataOf frames).length
  · obtain ⟨handler, hcollect⟩ := ResponseBodyHandler.collectBody_of_within
      (ResponseBodyHandler.new handlers.maximumCachedResponseSize)
      (by simpa [ResponseBodyHandler.new] using hwithin)
    have hbuffer : handler.buffer = dataOf frames := by
      obtain ⟨frames', hbody, hbuffer⟩ := ResponseBodyHandler.collectBody_true hcollect
      rw [map_ok_injective hbody, hbuffer]
      rfl
    simp only [hcollect, Except.ok.injEq, exists_eq_left', Response.tag_body, hwithin, true_and]
    rw [show [.ok (.data handler.buffer)] = [Frame.data handler.buffer].map
      (Except.ok : Frame → Except IoError Frame) from rfl, delivers_map_ok_iff, hbuffer]
    exact ⟨fun h => h.2.symm, fun h => ⟨List.append_nil _, h.symm⟩⟩
  · obtain ⟨handler, rest, hcollect, hlt⟩ := ResponseBodyHandler.collectBody_of_not_within
      (ResponseBodyHandler.new handlers.maximumCachedResponseSize)
      (fun limit _ => Nat.zero_le limit) (by simpa [ResponseBodyHandler.new] using hwithin)
    obtain ⟨kept, hstream, hdata, -⟩ := dataStream_map_ok rest
    simp only [hcollect, Except.ok.injEq, exists_eq_left', Response.tag_body, hwithin, false_and,
      iff_false]
    rw [hstream, ← List.map_cons, delivers_map_ok_iff]
    rintro ⟨hall, -⟩
    rw [dataOf_cons, Frame.dataBytes, hdata] at hall
    have hlength := congrArg List.length hall
    rw [List.length_append] at hlength
    rw [ResponseBodyHandler.new, List.length_nil] at hlt
    omega

/-- A response passes with its whole body, and nothing else is stored, exactly when it is not
collected, or has a body within the limit and no trailers. -/
theorem responseModifyingHandler_faithful_iff (module : CacheModule responses varies)
    (handlers : CacheModuleHandlers) (status : Nat) (headers : HeaderMap) (frames : List Frame)
    (cleanupTime storeTime : Nanos) :
    PassesWholeBody module (responseModifyingHandler fromValue module handlers
        ⟨status, headers, frames.map .ok⟩ cleanupTime storeTime) frames ↔
      (Collects fromValue handlers headers →
        WithinLimit handlers.maximumCachedResponseSize (dataOf frames).length ∧
          trailersOf frames = []) := by
  have hstored : ∀ key entry, responses.lookup (responseModifyingHandler fromValue module handlers
      ⟨status, headers, frames.map .ok⟩ cleanupTime storeTime).1.cache key = some entry →
      responses.lookup module.cache key = some entry ∨ entry.body = dataOf frames := by
    intro key entry h
    rcases responseModifyingHandler_stored fromValue h with hold | ⟨frames', hbody, hnew⟩
    · exact Or.inl hold
    · rw [map_ok_injective hbody]
      exact Or.inr hnew
  unfold PassesWholeBody
  rw [and_iff_left hstored]
  by_cases hcollects : Collects fromValue handlers headers
  · rw [responseModifyingHandler_delivers_iff fromValue module handlers status headers frames
      cleanupTime storeTime hcollects]
    exact ⟨fun h _ => h, fun h => h hcollects⟩
  · obtain ⟨response, hresult, hbody⟩ := responseModifyingHandler_of_not_collects fromValue
      ⟨status, headers, frames.map .ok⟩ hcollects module cleanupTime storeTime
    rw [hresult]
    refine ⟨fun _ h => absurd h hcollects, fun _ => ⟨response, rfl, ?_⟩⟩
    rw [hbody, delivers_map_ok_iff]
    exact ⟨rfl, rfl⟩

/-! ## Responses from the cache -/

theorem lookup_lookupCached (module : CacheModule responses varies) (cacheKey key : Str)
    (headers : HeaderMap) (now : Nanos) :
    responses.lookup (lookupCached module cacheKey headers now).1.cache key =
      responses.lookup module.cache key := by
  unfold lookupCached
  dsimp only
  split
  · rfl
  · exact responses.get_snd _ _ _

/-- A request changes nothing that can be looked up. -/
theorem lookup_requestHandler (module : CacheModule responses varies)
    (handlers : CacheModuleHandlers) (request : Request) (config : ServerConfiguration)
    (encrypted : Bool) (now : Nanos) (key : Str) :
    responses.lookup (requestHandler fromValue module handlers request config encrypted now).1.cache
      key = responses.lookup module.cache key := by
  unfold requestHandler
  dsimp only
  split
  · rfl
  · split <;> split <;> first
      | rfl
      | exact lookup_lookupCached _ _ _ _ _

/-- A fresh entry that is found is an entry under the key with the varying headers. -/
theorem lookupCached_eq_some {module : CacheModule responses varies} {cacheKey : Str}
    {headers : HeaderMap} {now : Nanos} {entry : CacheEntry}
    (h : (lookupCached module cacheKey headers now).2 = some entry) :
    ∃ vary, varies.lookup module.varyCache cacheKey = some vary ∧
      responses.lookup module.cache (buildVaryKey cacheKey vary headers) = some entry := by
  unfold lookupCached at h
  dsimp only at h
  rw [varies.get_fst] at h
  split at h
  · exact absurd h (by simp)
  · next vary hvary =>
      rw [responses.get_fst] at h
      exact ⟨vary, hvary, (Option.mem_filter_iff.1 h).1⟩

/-- An entry that is found is fresh. -/
theorem isFresh_lookupCached {module : CacheModule responses varies} {cacheKey : Str}
    {headers : HeaderMap} {now : Nanos} {entry : CacheEntry}
    (h : (lookupCached module cacheKey headers now).2 = some entry) : entry.isFresh now = true := by
  unfold lookupCached at h
  dsimp only at h
  split at h
  · exact absurd h (by simp)
  · exact (Option.mem_filter_iff.1 h).2

/-- A response from the cache is an entry that is looked up. -/
theorem requestHandler_cached {module : CacheModule responses varies}
    {handlers : CacheModuleHandlers} {request : Request} {config : ServerConfiguration}
    {encrypted : Bool} {now : Nanos} {response : Response}
    (h : (requestHandler fromValue module handlers request config encrypted now).2.2 =
      some response) :
    ∃ entry, (lookupCached module (CacheKey.cacheKey encrypted request) request.headers now).2 =
        some entry ∧
      response = ⟨entry.status, entry.headers, [.ok (.data entry.body)]⟩ := by
  unfold requestHandler at h
  dsimp only at h
  split at h
  · exact absurd h (by simp)
  · split at h
    · rename_i entry hentry
      split at hentry
      · exact absurd hentry (by simp)
      · exact ⟨entry, hentry, (Option.some.inj h).symm⟩
    · exact absurd h (by simp)

/-- A response from the cache has the body of the entry under the key of the request. -/
theorem requestHandler_hit {module : CacheModule responses varies} {handlers : CacheModuleHandlers}
    {request : Request} {config : ServerConfiguration} {encrypted : Bool} {now : Nanos}
    {response : Response}
    (h : (requestHandler fromValue module handlers request config encrypted now).2.2 =
      some response) :
    ∃ vary entry, varies.lookup module.varyCache (CacheKey.cacheKey encrypted request) = some vary ∧
      responses.lookup module.cache (buildVaryKey (CacheKey.cacheKey encrypted request) vary
        request.headers) = some entry ∧
      response.body = [.ok (.data entry.body)] := by
  obtain ⟨entry, hentry, rfl⟩ := requestHandler_cached fromValue h
  obtain ⟨vary, hvary, hlookup⟩ := lookupCached_eq_some hentry
  exact ⟨vary, entry, hvary, hlookup, rfl⟩

end Handlers

/-! ## A body over the limit -/

/-- The parser on the one value used below. -/
def parseMaxAgeMinute (value : Str) : Option CacheControl :=
  if value = "max-age=60".toList then some ⟨none, some (fromSecs 60), none, false⟩ else none

/-- Caches that drop nothing, without an entry. -/
def emptyModule :
    CacheModule (BoundedCache.unbounded Str CacheEntry) (BoundedCache.unbounded Str (List Str)) :=
  ⟨fun _ => none, fun _ => none⟩

/-- The handlers after a request for `/` with a size limit of three bytes. -/
def handlersWithLimitThree : CacheModuleHandlers :=
  { CacheModuleHandlers.new with
    maximumCachedResponseSize := some 3
    cacheKey := some "GET http://a.test/".toList }

/-- With a limit of three bytes, the second of three frames of two bytes gets lost. -/
theorem responseModifyingHandler_drops_frame :
    ¬ PassesWholeBody emptyModule
      (responseModifyingHandler parseMaxAgeMinute emptyModule handlersWithLimitThree
        ⟨200, [("cache-control".toList, asciiBytes "max-age=60".toList)],
          [Frame.data [97, 98], Frame.data [99, 100], Frame.data [101, 102]].map .ok⟩ 0 0)
      [Frame.data [97, 98], Frame.data [99, 100], Frame.data [101, 102]] := by
  rintro ⟨⟨response, hresponse, hdelivers⟩, -⟩
  have hbody : response.body = [Frame.data [97, 98], Frame.data [101, 102]].map .ok := by
    have hcomputed : (Except.toOption (responseModifyingHandler parseMaxAgeMinute emptyModule
        handlersWithLimitThree
        ⟨200, [("cache-control".toList, asciiBytes "max-age=60".toList)],
          [Frame.data [97, 98], Frame.data [99, 100], Frame.data [101, 102]].map .ok⟩
        0 0).2).map Response.body =
          some ([Frame.data [97, 98], Frame.data [101, 102]].map .ok) := by
      decide +kernel
    rw [hresponse] at hcomputed
    exact Option.some.inj hcomputed
  rw [hbody, delivers_map_ok_iff] at hdelivers
  exact absurd hdelivers.1 (by decide)

end Ferron.Modules.Cache
