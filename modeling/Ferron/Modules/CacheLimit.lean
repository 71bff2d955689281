import Ferron.Config.Validation
import Ferron.Modules.CacheIsolation
import Mathlib.Data.List.Destutter

/-!
# The size limit of the response cache

The directive `cache_max_response_size` has three cases: an integer is the limit, null is no limit, and
without the directive the documented limit of 2097152 bytes is in force. The handlers read it into one
optional number, where no number is no limit. The first two cases come out as they should. Without the
directive there is no number either, and any body is stored unless the configuration lets nothing be
stored (`limitKept_iff`).
-/

set_option autoImplicit false

namespace Ferron.Modules.CacheLimit

open Ferron.Common Ferron.Config Ferron.Http Ferron.Lib Ferron.Modules.Cache

/-- The name of the directive. -/
def maxResponseSizeName : Str := "cache_max_response_size".toList

/-- `validate_configuration`: one directive with the limit. -/
def checkMaxResponseSize (entry : ServerConfigurationEntry) : Except Str Unit :=
  match entry.values with
  | [value] =>
      if (!isInteger value && !value.isNull) || value.asI128.any (· < 0) then
        .error "Invalid maximum cache response size configuration".toList
      else .ok ()
  | _ =>
      .error
        "The `cache_max_response_size` configuration property must have exactly one value".toList

/-- The limit that is in force by the documentation, unless there is none. -/
def limitInForce (config : ServerConfiguration) : Option Nat :=
  match config.getValue maxResponseSizeName with
  | none => some defaultMaxCacheResponseSize
  | some (.integer number) => some number.toNat
  | some _ => none

/-- The limit that the handlers of a request have. -/
def extractedLimit (config : ServerConfiguration) : Option Nat :=
  (CacheModuleHandlers.new.extractCacheConfig config).maximumCachedResponseSize

/-- The configuration varies every response by everything, so none is stored. -/
def VariesByAll (config : ServerConfiguration) : Prop :=
  ['*'] ∈ (config.getValues "cache_vary".toList).filterMap ServerConfigurationValue.asStr

instance (config : ServerConfiguration) : Decidable (VariesByAll config) :=
  inferInstanceAs (Decidable (_ ∈ _))

/-! ## The directive -/

section Directive

variable {config : ServerConfiguration}

/-- A directive that is accepted is null or a number that is not negative. -/
theorem checkMaxResponseSize_eq_ok {entry : ServerConfigurationEntry}
    (h : checkMaxResponseSize entry = .ok ()) :
    ∃ value, entry.values = [value] ∧ (value = .null ∨ ∃ number : Nat, value = .integer number) := by
  unfold checkMaxResponseSize at h
  split at h
  · next value hvalues =>
      refine ⟨value, hvalues, ?_⟩
      obtain ⟨hpassed, -⟩ := ite_error_eq_ok_iff.1 h
      cases value with
      | null => exact Or.inl rfl
      | integer number =>
          have hnonneg : 0 ≤ number := by
            simpa [isInteger, ServerConfigurationValue.asI128] using hpassed
          exact Or.inr ⟨number.toNat, by rw [Int.toNat_of_nonneg hnonneg]⟩
      | string text => exact absurd rfl hpassed
      | float bits => exact absurd rfl hpassed
      | bool flag => exact absurd rfl hpassed
  · exact absurd h (by simp)

/-- The value of the directive in a configuration that is accepted. -/
theorem getValue_of_checkEntries
    (hvalid : checkEntries checkMaxResponseSize config maxResponseSizeName = .ok ())
    {value : ServerConfigurationValue} (hvalue : config.getValue maxResponseSizeName = some value) :
    value = .null ∨ ∃ number : Nat, value = .integer number := by
  obtain ⟨entries, hentries, hlast⟩ := Option.bind_eq_some_iff.1 hvalue
  obtain ⟨entry, hentry, hhead⟩ := Option.bind_eq_some_iff.1 hlast
  rw [checkEntries, hentries] at hvalid
  obtain ⟨only, hvalues, hkind⟩ := checkMaxResponseSize_eq_ok
    (forM_eq_ok_iff.1 hvalid entry (List.mem_of_getLast? hentry))
  rw [hvalues, List.head?_cons, Option.some.injEq] at hhead
  rwa [← hhead]

/-- Where the directive is given, the handlers have no weaker limit than it says. -/
theorem withinLimit_of_extracted
    (hvalid : checkEntries checkMaxResponseSize config maxResponseSizeName = .ok ())
    (hgiven : (config.getValue maxResponseSizeName).isSome = true) {size : Nat}
    (h : WithinLimit (extractedLimit config) size) : WithinLimit (limitInForce config) size := by
  obtain ⟨value, hvalue⟩ := Option.isSome_iff_exists.1 hgiven
  have hextracted : extractedLimit config = if value.isNull then none else
      some ((value.asI128.map fun f => (f % 2 ^ 64).toNat).getD defaultMaxCacheResponseSize) := by
    rw [extractedLimit, CacheModuleHandlers.extractCacheConfig]
    exact congrArg (Option.bind · _) hvalue
  rcases getValue_of_checkEntries hvalid hvalue with rfl | ⟨number, rfl⟩
  · rw [limitInForce, hvalue]
    exact fun limit hlimit => absurd hlimit (Option.not_mem_none limit)
  · rw [limitInForce, hvalue]
    rintro limit ⟨⟩
    have hsize : size ≤ (((number : Int) % 2 ^ 64)).toNat := h _ (by rw [hextracted]; rfl)
    -- a number that does not fit loses its upper digits
    have hwrapped : ((number : Int) % 2 ^ 64).toNat ≤ number := by omega
    exact hsize.trans hwrapped

/-- Without the directive the handlers have no limit. -/
theorem extractedLimit_of_absent (hnone : config.getValue maxResponseSizeName = none) :
    extractedLimit config = none := by
  rw [extractedLimit, CacheModuleHandlers.extractCacheConfig]
  exact congrArg (Option.bind · _) hnone

end Directive

/-! ## What is stored -/

/-- A body that was collected is within the limit. -/
theorem collectBody_within {handler handler' : ResponseBodyHandler}
    {body rest : List (Except IoError Frame)}
    (hstart : WithinLimit handler.maxSize handler.totalSize)
    (hsize : handler.totalSize = handler.buffer.length)
    (h : handler.collectBody body = .ok (true, handler', rest)) :
    WithinLimit handler.maxSize handler'.buffer.length := by
  induction body generalizing handler with
  | nil =>
      simp only [ResponseBodyHandler.collectBody, Except.ok.injEq, Prod.mk.injEq, true_and] at h
      rw [← h.1, ← hsize]
      exact hstart
  | cons result body ih =>
      rcases result with e | frame
      · simp [ResponseBodyHandler.collectBody] at h
      · cases frame with
        | trailers headers => exact ih hstart hsize h
        | data bytes =>
            rw [ResponseBodyHandler.collectBody] at h
            split at h
            · simp at h
            · next hwithin =>
                have hpush : WithinLimit (handler.push bytes).maxSize (handler.push bytes).totalSize :=
                  (handler.exceeds_eq_false_iff _).1 (Bool.not_eq_true _ ▸ hwithin)
                have hlength : (handler.push bytes).totalSize = (handler.push bytes).buffer.length := by
                  rw [ResponseBodyHandler.push, List.length_append, hsize]
                exact @ih (handler.push bytes) hpush hlength h

/-- Leaving out repetitions keeps the members. -/
theorem mem_destutter_iff {α : Type} [DecidableEq α] {x : α} {items : List α} :
    x ∈ items.destutter (· ≠ ·) ↔ x ∈ items := by
  have hmem : ∀ (items : List α) (first : α),
      x ∈ items.destutter' (· ≠ ·) first ↔ x ∈ first :: items := by
    intro items
    induction items with
    | nil => exact fun _ => Iff.rfl
    | cons item items ih =>
        intro first
        by_cases heq : first = item
        · subst heq
          rw [List.destutter'_cons_neg _ (fun hne => hne rfl), ih]
          simp
        · rw [List.destutter'_cons_pos _ heq, List.mem_cons, ih, List.mem_cons, List.mem_cons,
            List.mem_cons]
  cases items with
  | nil => exact Iff.rfl
  | cons first items => exact hmem items first

/-- The configured names are among those that a response varies by. -/
theorem mem_processVary {configured : List Str} {headers : HeaderMap} {name : Str}
    (h : name ∈ configured) : name ∈ processVary configured headers := by
  unfold processVary
  rw [mem_destutter_iff, List.mem_mergeSort]
  exact List.mem_append_left _ h

/-- A response without a Vary header varies by the configured names only. -/
theorem mem_processVary_iff {configured : List Str} {headers : HeaderMap} {name : Str}
    (hheaders : headers.getAll "vary".toList = []) :
    name ∈ processVary configured headers ↔ name ∈ configured := by
  unfold processVary
  rw [mem_destutter_iff, List.mem_mergeSort, hheaders, List.flatMap_nil, List.append_nil]

section Handlers

variable {responses : BoundedCache Str CacheEntry} {varies : BoundedCache Str (List Str)}
  (fromValue : Str → Option CacheControl)

/-- The handlers that await a response have the limit of their configuration. -/
theorem requestHandler_limit (module : CacheModule responses varies) (request : Request)
    (config : ServerConfiguration) (encrypted : Bool) (now : Nanos) :
    (requestHandler fromValue module .new request config encrypted now).2.1.maximumCachedResponseSize =
      extractedLimit config := by
  unfold requestHandler extractedLimit
  dsimp only
  split
  · rfl
  · split <;> rfl

theorem requestHandler_vary (module : CacheModule responses varies) (request : Request)
    (config : ServerConfiguration) (encrypted : Bool) (now : Nanos) :
    (requestHandler fromValue module .new request config encrypted
        now).2.1.cacheVaryHeadersConfigured =
      (config.getValues "cache_vary".toList).filterMap ServerConfigurationValue.asStr := by
  unfold requestHandler
  dsimp only
  split
  · rfl
  · split <;> rfl

/-- After a response, the entry under the key of the response is within the limit of the handlers. -/
theorem stored_within {module : CacheModule responses varies} {handlers : CacheModuleHandlers}
    {response : Response} {cleanupTime storeTime : Nanos} {key : Str} {entry : CacheEntry}
    (hstored : CacheIsolation.storedKey fromValue handlers response = some key)
    (h : responses.lookup (responseModifyingHandler fromValue module handlers response cleanupTime
      storeTime).1.cache key = some entry) :
    WithinLimit handlers.maximumCachedResponseSize entry.body.length := by
  have hcollects : Collects fromValue handlers response.headers := by
    by_contra hnot
    rw [CacheIsolation.storedKey_of_not_collects fromValue hnot] at hstored
    exact absurd hstored (by simp)
  obtain ⟨cacheKey, hcacheKey, hresult⟩ :=
    responseModifyingHandler_of_collects fromValue response hcollects module cleanupTime storeTime
  rw [CacheIsolation.storedKey, if_pos hcollects, hcacheKey, Option.bind_some] at hstored
  rw [hresult] at h
  cases hcollect : (ResponseBodyHandler.new handlers.maximumCachedResponseSize).collectBody
      response.body with
  | error e =>
      rw [hcollect] at hstored
      exact absurd hstored (by simp)
  | ok result =>
      obtain ⟨collected, handler, rest⟩ := result
      rw [hcollect] at hstored h
      cases collected with
      | false => exact absurd hstored (by simp)
      | true =>
          have hbuffer : WithinLimit handlers.maximumCachedResponseSize handler.buffer.length :=
            collectBody_within (fun limit _ => Nat.zero_le limit) rfl hcollect
          dsimp only at hstored h
          split at hstored
          · exact absurd hstored (by simp)
          · next hvary =>
              rw [store] at h
              dsimp only at h
              rw [if_neg hvary] at h
              rcases responses.insert_le _ _ _ _ _ h with ⟨-, rfl⟩ | ⟨hne, -⟩
              · exact hbuffer
              · exact absurd (Option.some.inj hstored).symm hne

/-- What varies by everything is not stored. -/
theorem storedKey_of_variesByAll {handlers : CacheModuleHandlers} (response : Response)
    (h : ['*'] ∈ handlers.cacheVaryHeadersConfigured) :
    CacheIsolation.storedKey fromValue handlers response = none := by
  rw [Option.eq_none_iff_forall_ne_some]
  intro key hkey
  unfold CacheIsolation.storedKey at hkey
  split at hkey
  · obtain ⟨cacheKey, -, hcollected⟩ := Option.bind_eq_some_iff.1 hkey
    have hany : (processVary handlers.cacheVaryHeadersConfigured response.headers).any
        (fun name => decide (name = ['*'])) = true :=
      List.any_eq_true.2 ⟨['*'], mem_processVary h, decide_eq_true rfl⟩
    split at hcollected
    · dsimp only at hcollected
      rw [if_pos hany] at hcollected
      exact absurd hcollected (by simp)
    · exact absurd hcollected (by simp)
  · exact absurd hkey (by simp)

end Handlers

/-! ## The limit in force -/

section Limit

variable (fromValue : Str → Option CacheControl)

/-- For every request with the configuration and every response to it, whatever the shared caches hold
when either of them comes, a body that is stored is within the limit in force. -/
def LimitKept (config : ServerConfiguration) : Prop :=
  ∀ (responses : BoundedCache Str CacheEntry) (varies : BoundedCache Str (List Str))
    (atRequest atResponse : CacheModule responses varies) (request : Request) (encrypted : Bool)
    (now : Nanos) (response : Response) (cleanupTime storeTime : Nanos) (key : Str)
    (entry : CacheEntry),
    CacheIsolation.storedKey fromValue
        (requestHandler fromValue atRequest .new request config encrypted now).2.1 response =
      some key →
    responses.lookup (responseModifyingHandler fromValue atResponse
        (requestHandler fromValue atRequest .new request config encrypted now).2.1 response cleanupTime
        storeTime).1.cache key = some entry →
    WithinLimit (limitInForce config) entry.body.length

theorem limitKept_of_given {config : ServerConfiguration}
    (hvalid : checkEntries checkMaxResponseSize config maxResponseSizeName = .ok ())
    (hgiven : (config.getValue maxResponseSizeName).isSome = true) : LimitKept fromValue config := by
  intro responses varies atRequest atResponse request encrypted now response cleanupTime storeTime key
    entry hstored hlookup
  have hwithin := stored_within fromValue hstored hlookup
  rw [requestHandler_limit] at hwithin
  exact withinLimit_of_extracted hvalid hgiven hwithin

theorem limitKept_of_variesByAll {config : ServerConfiguration} (hvaries : VariesByAll config) :
    LimitKept fromValue config := by
  intro responses varies atRequest atResponse request encrypted now response cleanupTime storeTime key
    entry hstored
  rw [storedKey_of_variesByAll fromValue response (by rw [requestHandler_vary]; exact hvaries)] at hstored
  exact absurd hstored (by simp)

/-- A GET request for the root. -/
def getRoot : Request := CacheKey.plainGet "a.test".toList "/".toList rootPath_no_question

/-- A response that may be stored for a minute, with a body of one frame. -/
def minuteResponse (body : Bytes) : Response :=
  ⟨200, [("cache-control".toList, asciiBytes "max-age=60".toList)], [.ok (.data body)]⟩

/-- What the parser of Cache-Control values does with `max-age=60`. -/
def ReadsMaxAge (fromValue : Str → Option CacheControl) : Prop :=
  fromValue "max-age=60".toList = some ⟨none, some (fromSecs 60), none, false⟩

variable {fromValue}

/-- The handlers that await the response to the request for the root. -/
def rootHandlers (config : ServerConfiguration) : CacheModuleHandlers :=
  { CacheModuleHandlers.new.extractCacheConfig config with
    requestHeaders := getRoot.headers
    cacheKey := some (CacheKey.cacheKey false getRoot) }

theorem requestHandler_getRoot (config : ServerConfiguration) :
    (requestHandler fromValue emptyModule .new getRoot config false 0).2.1 = rootHandlers config := rfl

theorem collects_minuteResponse (hparse : ReadsMaxAge fromValue) (config : ServerConfiguration)
    (body : Bytes) : Collects fromValue (rootHandlers config) (minuteResponse body).headers := by
  have hcontrol : cacheControlOf fromValue (minuteResponse body).headers =
      some ⟨none, some (fromSecs 60), none, false⟩ := by
    rw [← hparse]
    rfl
  refine ⟨rfl, rfl, rfl, ?_⟩
  rw [hcontrol]
  rfl

/-- Without a limit and unless everything varies, the body of the response is stored. -/
theorem lookup_minuteResponse (hparse : ReadsMaxAge fromValue) {config : ServerConfiguration}
    (hnone : config.getValue maxResponseSizeName = none) (hvaries : ¬VariesByAll config)
    (body : Bytes) :
    ∃ key entry, CacheIsolation.storedKey fromValue (rootHandlers config) (minuteResponse body) =
        some key ∧
      (responseModifyingHandler fromValue emptyModule (rootHandlers config) (minuteResponse body) 0
        0).1.cache key = some entry ∧ entry.body = body := by
  have hcollects := collects_minuteResponse hparse config body
  have hcollect : (ResponseBodyHandler.new (rootHandlers config).maximumCachedResponseSize).collectBody
      (minuteResponse body).body = .ok (true, ⟨none, body, 0 + body.length⟩, []) := by
    have hlimit : (rootHandlers config).maximumCachedResponseSize = none :=
      extractedLimit_of_absent hnone
    rw [hlimit]
    rfl
  have hany : ¬((processVary (rootHandlers config).cacheVaryHeadersConfigured
      (minuteResponse body).headers).any fun name => decide (name = ['*'])) = true := by
    rw [List.any_eq_true]
    rintro ⟨name, hname, hstar⟩
    obtain rfl := of_decide_eq_true hstar
    exact hvaries ((mem_processVary_iff rfl).1 hname)
  obtain ⟨cacheKey, hcacheKey, hresult⟩ :=
    responseModifyingHandler_of_collects fromValue (minuteResponse body) hcollects emptyModule 0 0
  rw [hcollect] at hresult
  dsimp only at hresult
  rw [store] at hresult
  dsimp only at hresult
  rw [if_neg hany] at hresult
  have hstored : CacheIsolation.storedKey fromValue (rootHandlers config) (minuteResponse body) =
      some (buildVaryKey cacheKey (processVary (rootHandlers config).cacheVaryHeadersConfigured
        (minuteResponse body).headers) (rootHandlers config).requestHeaders) := by
    rw [CacheIsolation.storedKey, if_pos hcollects, hcacheKey, Option.bind_some, hcollect]
    exact if_neg hany
  rw [hresult]
  exact ⟨_, _, hstored, Function.update_self _ _ _, rfl⟩

/-- The limit in force is kept exactly when the directive is given, or nothing is stored because every
response varies by everything. -/
theorem limitKept_iff (hparse : ReadsMaxAge fromValue) (config : ServerConfiguration)
    (hvalid : checkEntries checkMaxResponseSize config maxResponseSizeName = .ok ()) :
    LimitKept fromValue config ↔
      (config.getValue maxResponseSizeName).isSome = true ∨ VariesByAll config := by
  constructor
  · intro hkept
    by_contra hnot
    obtain ⟨hnone, hvaries⟩ := not_or.1 hnot
    rw [Option.not_isSome_iff_eq_none] at hnone
    -- a body that is one byte longer than the documented default
    obtain ⟨key, entry, hstored, hlookup, hbody⟩ :=
      lookup_minuteResponse hparse hnone hvaries (List.replicate (defaultMaxCacheResponseSize + 1) 0)
    have hwithin := hkept _ _ emptyModule emptyModule getRoot false 0 _ 0 0 key entry
      (by rw [requestHandler_getRoot]; exact hstored) (by rw [requestHandler_getRoot]; exact hlookup)
    rw [limitInForce, hnone, hbody, List.length_replicate] at hwithin
    exact absurd (hwithin _ rfl) (Nat.not_succ_le_self _)
  · rintro (hgiven | hvaries)
    · exact limitKept_of_given fromValue hvalid hgiven
    · exact limitKept_of_variesByAll fromValue hvaries

end Limit

/-! ## Without the directive -/

theorem readsMaxAge_parseMaxAgeMinute : ReadsMaxAge parseMaxAgeMinute := rfl

/-- A configuration without any directive. -/
def plainConfig : ServerConfiguration := ⟨∅, ⟨true, none, none, none, none, none⟩⟩

/-- A body that is one byte longer than the documented default is stored. -/
theorem not_limitKept_plainConfig :
    checkEntries checkMaxResponseSize plainConfig maxResponseSizeName = .ok () ∧
      limitInForce plainConfig = some 2097152 ∧ ¬LimitKept parseMaxAgeMinute plainConfig := by
  refine ⟨rfl, rfl, fun hkept => ?_⟩
  have hvaries : ¬VariesByAll plainConfig := by decide
  obtain ⟨key, entry, hstored, hlookup, hbody⟩ :=
    lookup_minuteResponse readsMaxAge_parseMaxAgeMinute rfl hvaries (List.replicate 2097153 0)
  have hwithin := hkept _ _ emptyModule emptyModule getRoot false 0 _ 0 0 key entry
    (by rw [requestHandler_getRoot]; exact hstored) (by rw [requestHandler_getRoot]; exact hlookup)
  rw [hbody, List.length_replicate] at hwithin
  exact absurd (hwithin 2097152 rfl) (by decide)

/-- A configuration with a limit of three bytes. -/
def configWithLimitThree : ServerConfiguration :=
  ⟨(∅ : HashMap Str ServerConfigurationEntries).insert maxResponseSizeName ⟨[⟨[.integer 3], ∅⟩]⟩,
    ⟨true, none, none, none, none, none⟩⟩

theorem limitKept_configWithLimitThree :
    LimitKept parseMaxAgeMinute configWithLimitThree ∧ ¬LimitKept parseMaxAgeMinute plainConfig :=
  ⟨(limitKept_iff readsMaxAge_parseMaxAgeMinute configWithLimitThree rfl).2 (Or.inl rfl),
    fun h => ((limitKept_iff readsMaxAge_parseMaxAgeMinute plainConfig rfl).1 h).elim (by decide)
      (by decide)⟩

end Ferron.Modules.CacheLimit
