import Ferron.Config.ErrorConfiguration
import Ferron.Config.MatchCondition
import Ferron.RequestHandler
import Ferron.ResponseHeaders

/-!
# The headers behind an error configuration

The request handler makes the headers to add, to replace and to remove once, for the configuration of the
request. A module may give a status code without a response, and the modules of an error configuration take
over. The log formats, the loggers and the modules are then those of the error configuration, but the headers
stay what they were: `appliedInForce_iff` says when the response has the directives of the configuration that
it comes from.
-/

set_option autoImplicit false

namespace Ferron.HeadersInForce

open Ferron.Common Ferron.Config Ferron.Http Ferron.ResponseHeaders
open Ferron.RequestHandler (CallResult)

/-! ## The request handler -/

/-- What is the same for every request: the configurations, with the modules and the log channels that were
loaded for each, the headers of an error response, and the port of HTTP/3. -/
structure Server (H L : Type) where
  configurations : ServerConfigurations
  modules : ServerConfiguration → List H
  logChannels : ServerConfiguration → List L
  /-- `generate_error_response`. -/
  errorResponse : ServerConfiguration → UInt16 → Option HeaderMap → HeaderMap
  http3AltPort : Option UInt16

/-- `ResponseData`: whether there is a request, the headers of the response if there is one, the status code
and the headers for its response. -/
structure ResponseData where
  request : Bool
  response : Option HeaderMap
  responseStatus : Option UInt16
  responseHeaders : Option HeaderMap

/-- The local variables behind the headers. -/
structure Locals (H L : Type) where
  configuration : ServerConfiguration
  /-- `headers_to_add`, `headers_to_replace` and `headers_to_remove`. -/
  added : Additions
  /-- A note: the configuration that they were made of. -/
  addedFrom : ServerConfiguration
  logDateFormat : Option Str
  logFormat : Option Str
  errorLogger : List L
  handlersIter : List H
  isErrorHandler : Bool
  requestPartsCloned : Bool

/-- A response with what it is made of and how it is logged. -/
structure Final (L : Type) where
  configuration : ServerConfiguration
  addedFrom : ServerConfiguration
  headers : HeaderMap
  logDateFormat : Option Str
  logFormat : Option Str
  logChannels : List L

/-- How the request handler ends. It waits when a handler has not answered, and it hangs when placeholders
are replaced forever. -/
inductive Outcome (L : Type) where
  | response (final : Final L)
  | failed
  | waits
  | hangs

/-- What the request comes to before the modules: the server responds itself, or it does not. It does when
the URL cannot be sanitized, for `*` and for an ACME challenge. -/
inductive Preparation where
  | responds (headers : HeaderMap)
  | passes

/-- `get_value!` and `as_str`. -/
def textOf (configuration : ServerConfiguration) (property : Str) : Option Str :=
  (configuration.getValue property).bind ServerConfigurationValue.asStr

/-- Whether the request parts are cloned: there may be an error configuration. -/
def clonesRequestParts (configurations : ServerConfigurations) (filters : ServerConfigurationFilters) :
    Bool :=
  configurations.inner.reverse.any fun c =>
    c.filters.isHost && c.filters.hostname == filters.hostname && c.filters.ip == filters.ip &&
      c.filters.port == filters.port &&
      (c.filters.condition.isNone || c.filters.condition == filters.condition) &&
      c.filters.errorHandlerStatus.isSome

section Model

variable {H L : Type} (server : Server H L)

/-- The local variables for the configuration of a request. -/
def begin (configuration : ServerConfiguration) (added : Additions) : Locals H L where
  configuration := configuration
  added := added
  addedFrom := configuration
  logDateFormat := textOf configuration "log_date_format".toList
  logFormat := textOf configuration "log_format".toList
  errorLogger := server.logChannels configuration
  handlersIter := server.modules configuration
  isErrorHandler := false
  requestPartsCloned := clonesRequestParts server.configurations configuration.filters

/-- An error configuration takes over. -/
def Locals.enter (locals : Locals H L) (configuration : ServerConfiguration) : Locals H L :=
  { locals with
    configuration := configuration
    handlersIter := server.modules configuration
    isErrorHandler := true
    logDateFormat := textOf configuration "log_date_format".toList
    logFormat := textOf configuration "log_format".toList
    errorLogger := server.logChannels configuration }

/-- A response gets the headers and is logged. -/
def Locals.finish (locals : Locals H L) (headers : HeaderMap) : Outcome L :=
  .response {
    configuration := locals.configuration
    addedFrom := locals.addedFrom
    headers := finalizeResponse locals.added headers
    logDateFormat := locals.logDateFormat
    logFormat := locals.logFormat
    logChannels := server.logChannels locals.configuration }

/-- The error configuration for a status code, when there is a request for it. -/
def Locals.errorConfiguration (locals : Locals H L) (request : Bool) (status : UInt16) :
    Option ServerConfiguration :=
  if locals.isErrorHandler then none
  else
    match findErrorConfiguration server.configurations locals.configuration.filters status with
    | none => none
    | some configuration => if request || locals.requestPartsCloned then some configuration else none

/-- The loop body behind the call of a handler: the request handler ends, or the loop goes on. -/
def afterHandler (locals : Locals H L) (handlersIter : List H) :
    CallResult ResponseData → Outcome L ⊕ Locals H L
  | .timedOut => .inl .failed
  | .err => .inl (locals.finish server (server.errorResponse locals.configuration 500 none))
  | .ok data =>
      match data.response with
      | some headers => .inl (locals.finish server headers)
      | none =>
          match data.responseStatus with
          | some status =>
              match locals.errorConfiguration server data.request status with
              | some configuration => .inr (locals.enter server configuration)
              | none =>
                  .inl (locals.finish server
                    (server.errorResponse locals.configuration status data.responseHeaders))
          | none =>
              if data.request then .inr { locals with handlersIter := handlersIter }
              else .inl (locals.finish server (server.errorResponse locals.configuration 404 none))

/-- The loop over the module handlers, with what they give. -/
def run (locals : Locals H L) : List (CallResult ResponseData) → Outcome L
  | [] =>
      match locals.handlersIter with
      | [] => locals.finish server (server.errorResponse locals.configuration 404 none)
      | _ :: _ => .waits
  | answer :: answers =>
      match locals.handlersIter with
      | [] => locals.finish server (server.errorResponse locals.configuration 404 none)
      | _ :: handlersIter =>
          match afterHandler server locals handlersIter answer with
          | .inl outcome => outcome
          | .inr locals => run locals answers

/-- The request handler behind the search for the configuration of the request. -/
def requestHandler (configuration : ServerConfiguration) (requestParts : Parts) (preparation : Preparation)
    (answers : List (CallResult ResponseData)) : Outcome L :=
  match additions configuration requestParts server.http3AltPort with
  | none => .hangs
  | some added =>
      match preparation with
      | .responds headers => (begin server configuration added).finish server headers
      | .passes => run server (begin server configuration added) answers

end Model

/-! ## The directives in force -/

/-- The header directives of a configuration. -/
structure Directives where
  header : List (Str × Str)
  headerReplace : List (Str × Str)
  headerRemove : List HeaderName

/-- The directives that the loops go through. -/
def directives (configuration : ServerConfiguration) : Directives where
  header := customHeaders configuration "header".toList
  headerReplace := customHeaders configuration "header_replace".toList
  headerRemove := headersToRemove configuration

/-- The response has the directives of the configuration that it comes from. -/
def AppliedInForce {L : Type} (final : Final L) : Prop :=
  directives final.addedFrom = directives final.configuration

/-- The handler hands the request on. -/
def HandsOn (answer : CallResult ResponseData) : Prop :=
  ∃ data, answer = .ok data ∧ data.response = none ∧ data.responseStatus = none ∧ data.request = true

/-- The handler gives a status code without a response, and this is the error configuration for it. -/
def LeadsTo {H L : Type} (server : Server H L) (configuration : ServerConfiguration)
    (answer : CallResult ResponseData) (selected : ServerConfiguration) : Prop :=
  ∃ data status, answer = .ok data ∧ data.response = none ∧ data.responseStatus = some status ∧
    findErrorConfiguration server.configurations configuration.filters status = some selected

/-- The handlers of a configuration hand the request on until one of them leads to the error
configuration. -/
def Selects {H L : Type} (server : Server H L) (configuration selected : ServerConfiguration) :
    List H → List (CallResult ResponseData) → Prop
  | _ :: handlers, answer :: answers =>
      LeadsTo server configuration answer selected ∨
        HandsOn answer ∧ Selects server configuration selected handlers answers
  | _, _ => False

section Proofs

variable {H L : Type} {server : Server H L}

/-- Where an error configuration is found the request parts were cloned. -/
theorem clonesRequestParts_of_find {configurations : ServerConfigurations}
    {filters : ServerConfigurationFilters} {status : UInt16} {selected : ServerConfiguration}
    (h : findErrorConfiguration configurations filters status = some selected) :
    clonesRequestParts configurations filters = true := by
  unfold findErrorConfiguration at h
  have hmem := List.mem_of_find?_eq_some h
  have hanswers :=
    List.find?_some (p := fun c : ServerConfiguration => answersError filters status c.filters) h
  refine List.any_eq_true.2 ⟨selected, hmem, ?_⟩
  unfold answersError at hanswers
  rw [Bool.and_eq_true] at hanswers ⊢
  refine ⟨hanswers.1, ?_⟩
  cases hstatus : selected.filters.errorHandlerStatus with
  | none =>
      rw [hstatus] at hanswers
      exact absurd hanswers.2 Bool.false_ne_true
  | some _ => rfl

/-- The error configuration of the first configuration is the one that is found. -/
theorem errorConfiguration_eq {locals : Locals H L} (herror : locals.isErrorHandler = false)
    (hcloned : locals.requestPartsCloned =
      clonesRequestParts server.configurations locals.configuration.filters) (request : Bool)
    (status : UInt16) : locals.errorConfiguration server request status =
      findErrorConfiguration server.configurations locals.configuration.filters status := by
  unfold Locals.errorConfiguration
  rw [herror, if_neg Bool.false_ne_true]
  cases hfound : findErrorConfiguration server.configurations locals.configuration.filters status with
  | none => rfl
  | some configuration =>
      dsimp only
      rw [hcloned, clonesRequestParts_of_find hfound, Bool.or_true, if_pos rfl]

/-- What one pass of the loop does. -/
theorem afterHandler_cases (server : Server H L) (locals : Locals H L) (handlersIter : List H)
    (answer : CallResult ResponseData) :
    (HandsOn answer ∧
      afterHandler server locals handlersIter answer = .inr { locals with handlersIter := handlersIter }) ∨
    (∃ data status selected, answer = .ok data ∧ data.response = none ∧ data.responseStatus = some status ∧
      locals.errorConfiguration server data.request status = some selected ∧
      afterHandler server locals handlersIter answer = .inr (locals.enter server selected)) ∨
    (¬HandsOn answer ∧
      (∀ data status, answer = .ok data → data.response = none → data.responseStatus = some status →
        locals.errorConfiguration server data.request status = none) ∧
      (afterHandler server locals handlersIter answer = .inl .failed ∨
        ∃ headers,
          afterHandler server locals handlersIter answer = .inl (locals.finish server headers))) := by
  unfold afterHandler HandsOn
  cases answer with
  | timedOut => exact .inr (.inr ⟨fun ⟨_, h, _⟩ => (by cases h), fun _ _ h => (by cases h), .inl rfl⟩)
  | err => exact .inr (.inr ⟨fun ⟨_, h, _⟩ => (by cases h), fun _ _ h => (by cases h), .inr ⟨_, rfl⟩⟩)
  | ok data =>
      dsimp only
      cases hresponse : data.response with
      | some headers =>
          refine .inr (.inr ⟨?_, ?_, .inr ⟨headers, rfl⟩⟩)
          · rintro ⟨_, ⟨⟩, hnone, -⟩
            cases hresponse.symm.trans hnone
          · rintro _ _ ⟨⟩ hnone
            cases hresponse.symm.trans hnone
      | none =>
          cases hstatus : data.responseStatus with
          | some status =>
              cases hfound : locals.errorConfiguration server data.request status with
              | some selected =>
                  refine .inr (.inl ⟨data, status, selected, rfl, hresponse, hstatus, hfound, ?_⟩)
                  dsimp only
                  rw [hfound]
              | none =>
                  refine .inr (.inr ⟨?_, ?_,
                    .inr ⟨server.errorResponse locals.configuration status data.responseHeaders, ?_⟩⟩)
                  · rintro ⟨_, ⟨⟩, -, hnone, -⟩
                    cases hstatus.symm.trans hnone
                  · rintro _ other ⟨⟩ - hother
                    obtain rfl := Option.some.inj (hstatus.symm.trans hother)
                    exact hfound
                  · dsimp only
                    rw [hfound]
          | none =>
              dsimp only
              cases hrequest : data.request with
              | true => exact .inl ⟨⟨data, rfl, hresponse, hstatus, hrequest⟩, rfl⟩
              | false =>
                  refine .inr (.inr ⟨?_, ?_, .inr ⟨_, rfl⟩⟩)
                  · rintro ⟨_, ⟨⟩, -, -, htrue⟩
                    cases hrequest.symm.trans htrue
                  · rintro _ _ ⟨⟩ - hother
                    cases hstatus.symm.trans hother

theorem finish_eq {locals : Locals H L} {headers : HeaderMap} {final : Final L}
    (h : locals.finish server headers = .response final) :
    final.configuration = locals.configuration ∧ final.addedFrom = locals.addedFrom ∧
      final.headers = finalizeResponse locals.added headers := by
  obtain rfl := Outcome.response.inj h
  exact ⟨rfl, rfl, rfl⟩

/-- What a run that has ended is made of: the local variables that it starts from or ends with. -/
theorem run_cons {locals : Locals H L} {handlers : H} {handlersIter : List H}
    (hiter : locals.handlersIter = handlers :: handlersIter) (answer : CallResult ResponseData)
    (answers : List (CallResult ResponseData)) :
    run server locals (answer :: answers) =
      match afterHandler server locals handlersIter answer with
      | .inl outcome => outcome
      | .inr locals => run server locals answers := by
  rw [run, hiter]

/-- A response is finished by local variables that have what each pass of the loop keeps. -/
theorem exists_finish_of_run (P : Locals H L → Prop)
    (hhands : ∀ locals handlersIter, P locals → P { locals with handlersIter := handlersIter })
    (henter : ∀ locals request status selected, P locals →
      locals.errorConfiguration server request status = some selected → P (locals.enter server selected))
    {answers : List (CallResult ResponseData)} {locals : Locals H L} (hstart : P locals) {final : Final L}
    (h : run server locals answers = .response final) :
    ∃ last headers, P last ∧ last.finish server headers = .response final := by
  induction answers generalizing locals with
  | nil =>
      unfold run at h
      split at h
      · exact ⟨locals, _, hstart, h⟩
      · cases h
  | cons answer answers ih =>
      cases hiter : locals.handlersIter with
      | nil =>
          rw [run, hiter] at h
          exact ⟨locals, _, hstart, h⟩
      | cons handlers handlersIter =>
          rw [run_cons hiter] at h
          rcases afterHandler_cases server locals handlersIter answer with
            ⟨-, hafter⟩ | ⟨data, status, selected, -, -, -, hfound, hafter⟩ |
              ⟨-, -, hafter | ⟨headers, hafter⟩⟩
          · rw [hafter] at h
            exact ih (hhands locals handlersIter hstart) h
          · rw [hafter] at h
            exact ih (henter locals _ _ selected hstart hfound) h
          · rw [hafter] at h
            cases h
          · rw [hafter] at h
            exact ⟨locals, headers, hstart, h⟩

/-- A response gets the additions that were made at the start, with the note about them. -/
theorem headers_of_run {answers : List (CallResult ResponseData)} {locals : Locals H L} {final : Final L}
    (h : run server locals answers = .response final) :
    final.addedFrom = locals.addedFrom ∧
      ∃ headers, final.headers = finalizeResponse locals.added headers := by
  obtain ⟨last, headers, ⟨haddedFrom, hadded⟩, hfinish⟩ := exists_finish_of_run
    (fun last : Locals H L => last.addedFrom = locals.addedFrom ∧ last.added = locals.added)
    (fun _ _ hkept => hkept) (fun _ _ _ _ hkept _ => hkept) ⟨rfl, rfl⟩ h
  obtain ⟨-, hfrom, hheaders⟩ := finish_eq hfinish
  exact ⟨hfrom.trans haddedFrom, headers, hadded ▸ hheaders⟩

/-- The modules of an error configuration do not lead to another one. -/
theorem run_of_isErrorHandler {answers : List (CallResult ResponseData)} {locals : Locals H L}
    (herror : locals.isErrorHandler = true) {final : Final L}
    (h : run server locals answers = .response final) :
    final.configuration = locals.configuration := by
  have hnone : ∀ last : Locals H L, last.isErrorHandler = true → ∀ request status,
      last.errorConfiguration server request status = none := fun _ hlast _ _ => if_pos hlast
  obtain ⟨last, headers, hkept, hfinish⟩ := exists_finish_of_run
    (fun last : Locals H L => last.isErrorHandler = true ∧ last.configuration = locals.configuration)
    (fun _ _ hkept => hkept)
    (fun last _ _ _ hkept hfound => by cases (hnone last hkept.1 _ _).symm.trans hfound) ⟨herror, rfl⟩ h
  exact (finish_eq hfinish).1.trans hkept.2

/-- What a response says about the error configuration that is selected. -/
structure Traced (server : Server H L) (locals : Locals H L) (answers : List (CallResult ResponseData))
    (final : Final L) : Prop where
  unique : ∀ selected, Selects server locals.configuration selected locals.handlersIter answers →
    final.configuration = selected
  configuration : final.configuration = locals.configuration ∨
    Selects server locals.configuration final.configuration locals.handlersIter answers

theorem traced_of_finish {locals : Locals H L} {answers : List (CallResult ResponseData)}
    (hnot : ∀ selected, ¬Selects server locals.configuration selected locals.handlersIter answers)
    {headers : HeaderMap} {final : Final L} (h : locals.finish server headers = .response final) :
    Traced server locals answers final :=
  ⟨fun selected hselects => absurd hselects (hnot selected), .inl (finish_eq h).1⟩

theorem not_selects_nil {configuration selected : ServerConfiguration} {locals : Locals H L}
    (hiter : locals.handlersIter = []) (answers : List (CallResult ResponseData)) :
    ¬Selects server configuration selected locals.handlersIter answers := by
  rw [hiter]
  cases answers <;> exact id

/-- The configuration of a response is the error configuration that is selected, if there is one. -/
theorem run_traced {answers : List (CallResult ResponseData)} {locals : Locals H L}
    (herror : locals.isErrorHandler = false)
    (hcloned : locals.requestPartsCloned =
      clonesRequestParts server.configurations locals.configuration.filters) {final : Final L}
    (h : run server locals answers = .response final) : Traced server locals answers final := by
  induction answers generalizing locals with
  | nil =>
      cases hiter : locals.handlersIter with
      | nil =>
          rw [run, hiter] at h
          exact traced_of_finish (fun _ => not_selects_nil hiter _) h
      | cons handlers handlersIter =>
          rw [run, hiter] at h
          cases h
  | cons answer answers ih =>
      cases hiter : locals.handlersIter with
      | nil =>
          rw [run, hiter] at h
          exact traced_of_finish (fun _ => not_selects_nil hiter _) h
      | cons handlers handlersIter =>
          rw [run_cons hiter] at h
          have hselects : ∀ selected,
              Selects server locals.configuration selected locals.handlersIter (answer :: answers) ↔
                LeadsTo server locals.configuration answer selected ∨ HandsOn answer ∧
                  Selects server locals.configuration selected handlersIter answers := by
            intro selected
            rw [hiter, Selects]
          rcases afterHandler_cases server locals handlersIter answer with
            ⟨hhands, hafter⟩ | ⟨data, status, selected, rfl, hresponse, hstatus, hfound, hafter⟩ |
              ⟨hhands, hnone, hafter⟩
          · -- the handler leads nowhere
            have hleads : ∀ selected, ¬LeadsTo server locals.configuration answer selected := by
              rintro selected ⟨data, status, hdata, -, hstatus, -⟩
              obtain ⟨other, hother, -, hnone, -⟩ := hhands
              obtain rfl := CallResult.ok.inj (hdata.symm.trans hother)
              cases hstatus.symm.trans hnone
            rw [hafter] at h
            have hrest := @ih { locals with handlersIter := handlersIter } herror hcloned h
            refine ⟨fun selected hselected => hrest.unique selected ?_,
              hrest.configuration.imp_right fun hselected => ?_⟩
            · exact (((hselects selected).1 hselected).resolve_left (hleads selected)).2
            · exact (hselects _).2 (.inr ⟨hhands, hselected⟩)
          · rw [errorConfiguration_eq herror hcloned] at hfound
            rw [hafter] at h
            have hconfiguration := run_of_isErrorHandler rfl h
            refine ⟨fun other hother => ?_, .inr ?_⟩
            · rcases (hselects other).1 hother with ⟨_, otherStatus, ⟨⟩, -, hother, hfoundOther⟩ | ⟨hhands, -⟩
              · obtain rfl := Option.some.inj (hstatus.symm.trans hother)
                exact hconfiguration.trans (Option.some.inj (hfound.symm.trans hfoundOther))
              · obtain ⟨_, ⟨⟩, -, hnone, -⟩ := hhands
                cases hstatus.symm.trans hnone
            · rw [hselects, hconfiguration]
              exact .inl ⟨data, status, rfl, hresponse, hstatus, hfound⟩
          · have hnot : ∀ selected,
                ¬Selects server locals.configuration selected locals.handlersIter (answer :: answers) := by
              intro selected hselected
              rcases (hselects selected).1 hselected with
                ⟨data, status, hdata, hresponse, hstatus, hfound⟩ | ⟨hother, -⟩
              · have hnothing := hnone data status hdata hresponse hstatus
                rw [errorConfiguration_eq herror hcloned] at hnothing
                cases hnothing.symm.trans hfound
              · exact hhands hother
            rcases hafter with hafter | ⟨headers, hafter⟩
            · rw [hafter] at h
              cases h
            · rw [hafter] at h
              exact traced_of_finish hnot h

/-- **The response has the header directives of the configuration that it comes from** if and only if no
error configuration takes over, or only one with the same directives. What the note says is what the headers have:
they are finalized with the additions of the configuration in the note. -/
theorem appliedInForce_iff (server : Server H L) (configuration : ServerConfiguration) (requestParts : Parts)
    (preparation : Preparation) (answers : List (CallResult ResponseData)) (final : Final L)
    (h : requestHandler server configuration requestParts preparation answers = .response final) :
    (∃ added headers, additions final.addedFrom requestParts server.http3AltPort = some added ∧
        final.headers = finalizeResponse added headers) ∧
      (AppliedInForce final ↔ (preparation = .passes → ∀ selected,
        Selects server configuration selected (server.modules configuration) answers →
          directives selected = directives configuration)) := by
  unfold requestHandler at h
  cases hadded : additions configuration requestParts server.http3AltPort with
  | none =>
      rw [hadded] at h
      cases h
  | some added =>
      rw [hadded] at h
      cases preparation with
      | responds headers =>
          obtain ⟨hconfiguration, haddedFrom, hheaders⟩ := finish_eq h
          refine ⟨⟨added, headers, by rw [haddedFrom]; exact hadded, hheaders⟩,
            iff_of_true ?_ fun hpasses => by cases hpasses⟩
          rw [AppliedInForce, hconfiguration, haddedFrom]
          rfl
      | passes =>
          have htraced : Traced server (begin server configuration added) answers final :=
            run_traced rfl rfl h
          obtain ⟨haddedFrom, headers, hheaders⟩ := headers_of_run h
          have hfrom : final.addedFrom = configuration := haddedFrom
          refine ⟨⟨added, headers, by rw [hfrom]; exact hadded, hheaders⟩, ?_⟩
          rw [AppliedInForce, hfrom, forall_prop_of_true rfl]
          constructor
          · intro hsame selected hselected
            rw [← htraced.unique selected hselected]
            exact hsame.symm
          · intro hall
            rcases htraced.configuration with hconfiguration | hselected
            · exact congrArg directives hconfiguration.symm
            · exact (hall _ hselected).symm

end Proofs

/-! ## An error configuration with its own directives -/

/-- A block of a host that removes a header. -/
def removing (header : String) (errorHandlerStatus : Option ErrorHandlerStatus) : ServerConfiguration where
  entries := AList.singleton "header_remove".toList ⟨[⟨[.string header.toList], ∅⟩]⟩
  filters := { hostFilters with errorHandlerStatus := errorHandlerStatus }

/-- The host removes one header, its error configuration for 404 another one. The host has one module. -/
def twoBlocks : Server Unit Unit where
  configurations := .new [removing "x-page" none, removing "x-error" (some (.status 404))]
  modules := fun configuration => if configuration.filters.errorHandlerStatus = none then [()] else []
  logChannels := fun _ => []
  errorResponse := fun _ _ _ => []
  http3AltPort := none

/-- The module gives this status code. -/
def givesStatus (status : UInt16) : CallResult ResponseData := .ok ⟨true, none, some status, none⟩

/-- The page of the host for another status code. -/
def hostPage : Final Unit where
  configuration := removing "x-page" none
  addedFrom := removing "x-page" none
  headers := [("server".toList, asciiBytes "Ferron".toList)]
  logDateFormat := none
  logFormat := none
  logChannels := []

/-- The page for 500, which has no error configuration, has the directives of the host. -/
theorem hostPage_applied : AppliedInForce hostPage := by
  refine (appliedInForce_iff twoBlocks (removing "x-page" none) adminRequest .passes [givesStatus 500]
    hostPage rfl).2.2 fun _ selected hselected => ?_
  rcases hselected with ⟨data, status, hdata, -, hstatus, hfound⟩ | ⟨⟨data, hdata, -, hstatus, -⟩, -⟩
  · obtain rfl := CallResult.ok.inj hdata
    obtain rfl := Option.some.inj hstatus
    have hnone : findErrorConfiguration twoBlocks.configurations (removing "x-page" none).filters 500 =
        none := rfl
    cases hnone.symm.trans hfound
  · obtain rfl := CallResult.ok.inj hdata
    cases hstatus

/-- The page of the error configuration for 404, which has no modules. -/
def notFoundPage : Final Unit :=
  { hostPage with configuration := removing "x-error" (some (.status 404)) }

/-- The error page has the directives of the host, not those of the error configuration. -/
theorem notFoundPage_not_applied :
    requestHandler twoBlocks (removing "x-page" none) adminRequest .passes [givesStatus 404] =
        .response notFoundPage ∧ ¬AppliedInForce notFoundPage := by
  refine ⟨rfl, fun h => ?_⟩
  have hnames : ["x-page".toList] = ["x-error".toList] := congrArg Directives.headerRemove h
  exact absurd hnames (by decide)

end Ferron.HeadersInForce
