import Ferron.Modules.CacheReuse

/-!
# The values of the varying headers

A key takes the text of the first value of every varying header, and no text when there is none. Two
requests have the same values when they have the same texts, as long as the headers are missing or have
one value that is not empty and is UTF-8 (`getAll_of_varyValue`). In a run in which all keys are made from
such headers, the responses from the cache go to requests with the values of the requests they were stored
for (`run_vary_respected`). Repeated headers, empty values and values that are not UTF-8 are confused
(`values_confused`).
-/

set_option autoImplicit false

namespace Ferron.Modules.CacheVary

open Ferron.Common Ferron.Http Ferron.Lib Ferron.Modules.Cache Ferron.Modules.CacheReuse
open Ferron.Modules.CacheIsolation (RoutedRequest CacheRun Action storedKey requestsOf)

/-! ## What a key tells of a header -/

/-- A key tells the header from others: it is missing, or it has one value, the UTF-8 bytes of a text that
is not empty. -/
def ToldApart (headers : HeaderMap) (name : HeaderName) : Prop :=
  headers.getAll name = [] ∨
    ∃ text : Str, text ≠ [] ∧ headers.getAll name = [text.flatMap String.utf8EncodeChar]

/-- A key with these varying headers has their values: it tells each of them apart, and their names have
no character that ends a name or a line of the key. -/
structure KeySeparates (headers : HeaderMap) (vary : List Str) : Prop where
  names : PlainNames vary
  values : ∀ name ∈ vary, ToldApart headers (name.map Char.toLower)

theorem toStr_eq_fromUtf8Lossy {value : HeaderValue} {text : Str} (h : toStr value = some text) :
    Utf8.fromUtf8Lossy value = text := by
  rw [toStr] at h
  split at h
  · next hall =>
      rw [← Option.some.inj h]
      apply Utf8.fromUtf8Lossy_ascii
      intro b hb
      have hvisible := List.all_eq_true.1 hall b hb
      simp only [isVisibleAscii, Bool.or_eq_true, Bool.and_eq_true, decide_eq_true_eq,
        beq_iff_eq] at hvisible
      rcases hvisible with ⟨-, hlt⟩ | rfl
      · exact Nat.lt_trans (UInt8.lt_iff_toNat_lt.1 hlt) (by decide)
      · decide
  · exact absurd h (by simp)

/-- The text of a value in a key is that of its bytes. -/
theorem varyValue_eq (headers : HeaderMap) (name : Str) :
    varyValue headers name =
      ((headers.getAll (name.map Char.toLower)).head?.map Utf8.fromUtf8Lossy).getD [] := by
  rw [varyValue, HeaderMap.get_eq_head?]
  cases (headers.getAll (name.map Char.toLower)).head? with
  | none => rfl
  | some value =>
      rw [Option.map_some, Option.getD_some]
      dsimp only
      cases htext : toStr value with
      | none => rfl
      | some text => exact (toStr_eq_fromUtf8Lossy htext).symm

/-- Headers that a key tells apart have the same values when they have the same text in it. -/
theorem getAll_of_varyValue {headers headers' : HeaderMap} {name : Str}
    (h : ToldApart headers (name.map Char.toLower)) (h' : ToldApart headers' (name.map Char.toLower))
    (htext : varyValue headers name = varyValue headers' name) :
    headers.getAll (name.map Char.toLower) = headers'.getAll (name.map Char.toLower) := by
  rw [varyValue_eq, varyValue_eq] at htext
  rcases h with hnone | ⟨text, hne, hvalue⟩
  · rcases h' with hnone' | ⟨text', hne', hvalue'⟩
    · rw [hnone, hnone']
    · rw [hnone, hvalue'] at htext
      simp only [List.head?_cons, Option.map_some, Option.getD_some,
        Utf8.fromUtf8Lossy_encode] at htext
      exact absurd htext.symm hne'
  · rcases h' with hnone' | ⟨text', hne', hvalue'⟩
    · rw [hvalue, hnone'] at htext
      simp only [List.head?_cons, Option.map_some, Option.getD_some,
        Utf8.fromUtf8Lossy_encode] at htext
      exact absurd htext hne
    · rw [hvalue, hvalue'] at htext ⊢
      simp only [List.head?_cons, Option.map_some, Option.getD_some,
        Utf8.fromUtf8Lossy_encode] at htext
      rw [htext]

section Runs

variable {responses : BoundedCache Str CacheEntry} {varies : BoundedCache Str (List Str)}
  {rewrite : ServerConfiguration → Request → Request}

/-- The response of an answer was stored for a request with the same values of each varying header of the
response. -/
def VaryRespected (answer : Answer rewrite) : Prop :=
  ∃ origin, answer.origin = some origin ∧ answer.response.status = origin.response.status ∧
    answer.response.headers = writtenHeaders origin.request origin.response.headers ∧
    ∀ name, Varies origin name →
      answer.request.request.headers.getAll name = origin.request.request.headers.getAll name

variable (fromValue : Str → Option CacheControl)

/-- The key that a step makes has the values of the headers it is made from: that of a request with the
varying headers in the cache, and that of a response which is stored. -/
def KeysSeparate (state : ReuseRun responses varies rewrite) : Action rewrite → Prop
  | .request r _ => ∀ vary, varies.lookup state.caches.module.varyCache r.key = some vary →
      ∀ name ∈ vary, ToldApart r.request.headers (name.map Char.toLower)
  | .response index response _ _ => ∀ r handlers, state.caches.inFlight[index]? = some (r, handlers) →
      storedKey fromValue handlers response ≠ none →
      KeySeparates r.request.headers (varyNames r response)

/-- What every run keeps whose keys are so. -/
structure Inv (state : ReuseRun responses varies rewrite) : Prop where
  reuse : CacheReuse.Inv (fun r => HeaderBytes r.request.headers) (fun _ => True) state
  varies : ∀ key vary, varies.lookup state.caches.module.varyCache key = some vary → PlainNames vary
  stored : ∀ key origin, state.stored key = some origin →
    KeySeparates origin.request.request.headers (varyNames origin.request origin.response)
  answers : ∀ answer ∈ state.answers, VaryRespected answer

variable {state : ReuseRun responses varies rewrite}

theorem Inv.initial {module : CacheModule responses varies}
    (hentries : ∀ key, responses.lookup module.cache key = none)
    (hvaries : ∀ key, varies.lookup module.varyCache key = none) :
    Inv (ReuseRun.initial module : ReuseRun responses varies rewrite) where
  reuse := CacheReuse.Inv.initial hentries hvaries
  varies key vary h := by
    rw [ReuseRun.initial, CacheRun.initial, hvaries] at h
    exact absurd h (by simp)
  stored _ _ h := absurd h (by simp [ReuseRun.initial])
  answers _ h := absurd h (by simp [ReuseRun.initial])

/-- A request whose key has its values gets a response for these values. -/
theorem Inv.answer (h : Inv state) {r : RoutedRequest rewrite} (hr : HeaderBytes r.request.headers)
    {now : Nanos} {response : Response} (hkey : KeysSeparate fromValue state (.request r now))
    (hresponse : (requestHandler fromValue state.caches.module .new r.request r.config r.encrypted
      now).2.2 = some response) :
    VaryRespected
      ⟨r, response, (CacheIsolation.lookedUpKey state.caches.module r).bind state.stored⟩ := by
  obtain ⟨vary, entry, hvary, hlookup, hstatus, hheaders⟩ := requestHandler_answer fromValue hresponse
  obtain ⟨origin, hstored, hentryStatus, hentryHeaders⟩ := h.reuse.entries _ _ hlookup
  obtain ⟨horigin, -, hsame⟩ := h.reuse.stored _ _ hstored
  obtain ⟨hnames, hvalues⟩ := h.stored _ _ hstored
  -- the two keys are made from the same varying headers, with the same texts
  obtain ⟨-, hlists, htexts⟩ :=
    buildVaryKey_varyValue hr horigin (h.varies _ _ hvary) hnames hsame
  refine ⟨origin, ?_, hstatus.trans hentryStatus, hheaders.trans hentryHeaders, ?_⟩
  · have hlooked : CacheIsolation.lookedUpKey state.caches.module r =
        some (buildVaryKey r.key vary r.request.headers) := by
      rw [CacheIsolation.lookedUpKey]
      exact congrArg (Option.map _) hvary
    rw [hlooked]
    exact hstored
  · rintro name ⟨listed, hlisted, rfl⟩
    have hmem : listed ∈ vary := by
      rw [hlists]
      exact hlisted
    exact getAll_of_varyValue (hkey vary hvary listed hmem) (hvalues listed hlisted)
      (htexts listed hmem)

theorem Inv.request (h : Inv state) {r : RoutedRequest rewrite} (hr : HeaderBytes r.request.headers)
    {now : Nanos} (hkey : KeysSeparate fromValue state (.request r now)) :
    Inv (CacheReuse.step fromValue state (.request r now)) := by
  have hreuse := h.reuse.request fromValue hr now
  have hcaches : (CacheReuse.step fromValue state (.request r now)).caches =
      CacheIsolation.step fromValue state.caches (.request r now) := by
    unfold CacheReuse.step
    dsimp only
    split <;> rfl
  have hstored : (CacheReuse.step fromValue state (.request r now)).stored = state.stored := by
    unfold CacheReuse.step
    dsimp only
    split <;> rfl
  refine ⟨hreuse, ?_, ?_, ?_⟩
  · intro key vary hlookup
    rw [hcaches, CacheIsolation.step, lookup_varies_requestHandler] at hlookup
    exact h.varies key vary hlookup
  · rw [hstored]
    exact h.stored
  · intro answer hmem
    unfold CacheReuse.step at hmem
    dsimp only at hmem
    split at hmem
    · next response hresponse =>
        rcases List.mem_append.1 hmem with hold | hnew
        · exact h.answers answer hold
        · rw [List.mem_singleton.1 hnew]
          exact h.answer fromValue hr hkey hresponse
    · exact h.answers answer hmem

theorem Inv.response (h : Inv state) {index : Nat} {response : Response}
    {cleanupTime storeTime : Nanos}
    (hkey : KeysSeparate fromValue state (.response index response cleanupTime storeTime)) :
    Inv (CacheReuse.step fromValue state (.response index response cleanupTime storeTime)) := by
  have hreuse : CacheReuse.Inv (fun r => HeaderBytes r.request.headers) (fun _ => True)
      (CacheReuse.step fromValue state (.response index response cleanupTime storeTime)) :=
    h.reuse.response fromValue index trivial cleanupTime storeTime
  unfold CacheReuse.step at hreuse ⊢
  dsimp only at hreuse ⊢
  rw [CacheIsolation.step] at hreuse ⊢
  cases hget : state.caches.inFlight[index]? with
  | none => exact h
  | some awaited =>
      obtain ⟨r, handlers⟩ := awaited
      rw [hget] at hreuse
      obtain ⟨-, hhandlers⟩ := h.reuse.inFlight r handlers (List.mem_of_getElem? hget)
      refine ⟨hreuse, ?_, ?_, h.answers⟩
      · intro key vary hlookup
        replace hlookup : varies.lookup (responseModifyingHandler fromValue state.caches.module handlers
            response cleanupTime storeTime).1.varyCache key = some vary := hlookup
        rcases CacheIsolation.responseModifyingHandler_module fromValue state.caches.module handlers
            response cleanupTime storeTime with
          ⟨-, hmodule⟩ | ⟨cacheKey, under, body, -, hcacheKey, hstored, hmodule⟩
        · rw [hmodule] at hlookup
          exact h.varies key vary hlookup
        · rw [hmodule] at hlookup
          rcases varies.insert_le _ _ _ _ _ hlookup with ⟨-, rfl⟩ | ⟨-, hold⟩
          · have hsome : storedKey fromValue handlers response ≠ none := by
              rw [hstored]
              exact Option.some_ne_none under
            rw [hhandlers (storedKey_cacheKey fromValue hstored)]
            exact (hkey r handlers hget hsome).names
          · exact h.varies key vary hold
      · intro key origin horigin
        dsimp only [note] at horigin
        split at horigin
        · next hstored =>
            rw [← Option.some.inj horigin]
            apply hkey r handlers hget
            rw [hstored]
            exact Option.some_ne_none key
        · exact h.stored key origin horigin

theorem Inv.step {action : Action rewrite} (hkey : KeysSeparate fromValue state action)
    (haction : ActionHas (fun r => HeaderBytes r.request.headers) (fun _ => True) action)
    (h : Inv state) : Inv (CacheReuse.step fromValue state action) := by
  cases action with
  | request r now => exact h.request fromValue haction hkey
  | response index response cleanupTime storeTime => exact h.response fromValue hkey

/-- In every run from empty caches in which the keys have the values they are made from, a response from
the cache was stored for a request with the same values of each of its varying headers. -/
theorem run_vary_respected (fromValue : Str → Option CacheControl)
    (module : CacheModule responses varies)
    (hentries : ∀ key, responses.lookup module.cache key = none)
    (hvaries : ∀ key, varies.lookup module.varyCache key = none) (actions : List (Action rewrite))
    (hheaders : ∀ r ∈ requestsOf actions, HeaderBytes r.request.headers)
    (hkeys : Run.AllSteps (CacheReuse.step fromValue) (KeysSeparate fromValue) (.initial module) actions)
    (answer : Answer rewrite)
    (hanswer : answer ∈ (Run.run (CacheReuse.step fromValue) (.initial module) actions).answers) :
    VaryRespected answer := by
  have hactions : ∀ action ∈ actions,
      ActionHas (fun r => HeaderBytes r.request.headers) (fun _ => True) action := by
    intro action haction
    cases action with
    | request r now => exact hheaders r (List.mem_filterMap.2 ⟨_, haction, rfl⟩)
    | response index response cleanupTime storeTime => trivial
  have hinv : Inv (Run.run (CacheReuse.step fromValue) (.initial module) actions) :=
    Run.run_invariant (fun _ _ hok h => h.step fromValue hok.1 hok.2) (Inv.initial hentries hvaries)
      (Run.allSteps_and_of_mem hkeys hactions)
  exact hinv.answers answer hanswer

/-- The keys have their values when each request of the run is told apart by the varying headers of all
its responses. -/
theorem keysSeparate_of_requests {module : CacheModule responses varies}
    (hentries : ∀ key, responses.lookup module.cache key = none)
    (hvaries : ∀ key, varies.lookup module.varyCache key = none) {actions : List (Action rewrite)}
    (h : ∀ r ∈ requestsOf actions, ∀ s ∈ requestsOf actions, ∀ response ∈ responsesOf actions,
      KeySeparates r.request.headers (varyNames s response)) :
    Run.AllSteps (CacheReuse.step fromValue) (KeysSeparate fromValue) (.initial module) actions := by
  have hok : ∀ (state : ReuseRun responses varies rewrite) (action : Action rewrite),
      ActionHas (· ∈ requestsOf actions) (· ∈ responsesOf actions) action →
      CacheReuse.Inv (· ∈ requestsOf actions) (· ∈ responsesOf actions) state →
      KeysSeparate fromValue state action := by
    intro state action haction hinv
    cases action with
    | request r now =>
        intro vary hvary
        obtain ⟨s, response, hs, hresponse, rfl⟩ := hinv.varies _ _ hvary
        exact (h r haction s hs response hresponse).values
    | response index response cleanupTime storeTime =>
        intro r handlers hget _
        have hr := (hinv.inFlight r handlers (List.mem_of_getElem? hget)).1
        exact h r hr r hr response haction
  exact Run.allSteps_of_invariant hok (fun _ _ haction hinv => hinv.step fromValue haction)
    (fun _ haction => actionHas_of_mem haction) (CacheReuse.Inv.initial hentries hvaries)

end Runs

/-! ## Values that a key confuses -/

/-- The headers with these values of `accept-language`. -/
def languages (values : List HeaderValue) : HeaderMap :=
  values.map fun value => ("accept-language".toList, value)

/-- A file is asked for twice, with these values of `accept-language` and those. The response for the first
request varies by the header. -/
def runLanguages (values values' : List HeaderValue) : List (Action CacheIsolation.keep) :=
  [.request (getFile (languages values)) 0,
    .response 0 (storable 200 [("vary".toList, asciiBytes "accept-language".toList)]) 0 0,
    .request (getFile (languages values')) 0]

/-- The answer to the second request. -/
theorem answers_runLanguages_twice :
    (Run.run (CacheReuse.step parseMaxAgeMinute) (.initial emptyModule)
        (runLanguages [asciiBytes "de".toList] [asciiBytes "de".toList, asciiBytes "fr".toList])).answers.map
      (compareOrigin "accept-language".toList) =
        [some ⟨[asciiBytes "de".toList, asciiBytes "fr".toList], [asciiBytes "de".toList], 200,
          ["accept-language".toList]⟩] := by
  decide +kernel

theorem answers_runLanguages_empty :
    (Run.run (CacheReuse.step parseMaxAgeMinute) (.initial emptyModule)
        (runLanguages [] [[]])).answers.map (compareOrigin "accept-language".toList) =
        [some ⟨[[]], [], 200, ["accept-language".toList]⟩] := by
  decide +kernel

theorem answers_runLanguages_lossy :
    (Run.run (CacheReuse.step parseMaxAgeMinute) (.initial emptyModule)
        (runLanguages [[0xff]] [[0xfe]])).answers.map (compareOrigin "accept-language".toList) =
        [some ⟨[[0xfe]], [[0xff]], 200, ["accept-language".toList]⟩] := by
  decide +kernel

/-- An answer whose comparison has other values is not the response for its values. -/
theorem not_varyRespected {answer : Answer CacheIsolation.keep} {name : HeaderName}
    {comparison : Comparison} (h : compareOrigin name answer = some comparison)
    (hname : ∃ listed ∈ comparison.vary, listed.map Char.toLower = name)
    (hne : comparison.asked ≠ comparison.stored) : ¬VaryRespected answer := by
  rintro ⟨origin, horigin, -, -, hsame⟩
  rw [compareOrigin, horigin, Option.map_some] at h
  obtain rfl := Option.some.inj h
  exact hne (hsame name hname)

/-- A second value of the header, an empty one and one that is not UTF-8 make no difference. -/
theorem values_confused :
    (¬ ∀ answer ∈ (Run.run (CacheReuse.step parseMaxAgeMinute) (.initial emptyModule)
        (runLanguages [asciiBytes "de".toList]
          [asciiBytes "de".toList, asciiBytes "fr".toList])).answers, VaryRespected answer) ∧
      (¬ ∀ answer ∈ (Run.run (CacheReuse.step parseMaxAgeMinute) (.initial emptyModule)
        (runLanguages [] [[]])).answers, VaryRespected answer) ∧
      ¬ ∀ answer ∈ (Run.run (CacheReuse.step parseMaxAgeMinute) (.initial emptyModule)
        (runLanguages [[0xff]] [[0xfe]])).answers, VaryRespected answer := by
  refine ⟨?_, ?_, ?_⟩
  · intro h
    obtain ⟨answer, hanswer, hcompare⟩ := exists_answer answers_runLanguages_twice
    exact not_varyRespected hcompare ⟨_, List.mem_singleton_self _, by decide⟩ (by decide)
      (h answer hanswer)
  · intro h
    obtain ⟨answer, hanswer, hcompare⟩ := exists_answer answers_runLanguages_empty
    exact not_varyRespected hcompare ⟨_, List.mem_singleton_self _, by decide⟩ (by decide)
      (h answer hanswer)
  · intro h
    obtain ⟨answer, hanswer, hcompare⟩ := exists_answer answers_runLanguages_lossy
    exact not_varyRespected hcompare ⟨_, List.mem_singleton_self _, by decide⟩ (by decide)
      (h answer hanswer)

/-- One language, the same in both requests. -/
def runGerman : List (Action CacheIsolation.keep) :=
  runLanguages [asciiBytes "de".toList] [asciiBytes "de".toList]

theorem keySeparates_german :
    ∀ r ∈ requestsOf runGerman, ∀ s ∈ requestsOf runGerman, ∀ response ∈ responsesOf runGerman,
      KeySeparates r.request.headers (varyNames s response) := by
  have hvary : ∀ s ∈ requestsOf runGerman, ∀ response ∈ responsesOf runGerman,
      varyNames s response = ["accept-language".toList] := by
    decide +kernel
  have hvalue : ∀ r ∈ requestsOf runGerman, r.request.headers.getAll "accept-language".toList =
      [("de".toList : Str).flatMap String.utf8EncodeChar] := by
    decide +kernel
  intro r hr s hs response hresponse
  rw [hvary s hs response hresponse]
  refine ⟨by unfold PlainNames; decide, ?_⟩
  intro name hname
  rw [List.mem_singleton.1 hname]
  exact Or.inr ⟨"de".toList, by decide, hvalue r hr⟩

/-- The second request for the German file gets the response for the first one. -/
theorem run_vary_respected_german :
    ∃ answer ∈ (Run.run (CacheReuse.step parseMaxAgeMinute) (.initial emptyModule) runGerman).answers,
      VaryRespected answer := by
  have hanswers : (Run.run (CacheReuse.step parseMaxAgeMinute) (.initial emptyModule)
      runGerman).answers.length = 1 := by
    decide +kernel
  obtain ⟨answer, hanswer⟩ := List.exists_mem_of_length_pos (by rw [hanswers]; exact Nat.one_pos)
  refine ⟨answer, hanswer, ?_⟩
  exact run_vary_respected parseMaxAgeMinute emptyModule (fun _ => rfl) (fun _ => rfl) runGerman
    (by unfold HeaderBytes; decide +kernel)
    (keysSeparate_of_requests parseMaxAgeMinute (fun _ => rfl) (fun _ => rfl) keySeparates_german)
    answer hanswer

end Ferron.Modules.CacheVary
