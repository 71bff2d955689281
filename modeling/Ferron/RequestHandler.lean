import Ferron.Lib.Run
import Mathlib.Tactic

/-!
# The run of the module handlers

The request handler goes through the modules of a configuration. It calls the request handler of each
module until one of them gives a response, fails or is out of time, and then the response-modifying
handlers of the modules it has gone through, the last one first. A status code may lead to the modules
of an error configuration once.

With metrics enabled, every module gets a call before its request handler and one after its
response-modifying handler. `metricData_balanced_iff` says when every call before has one call after: a
response-modifying handler that fails or is out of time is dropped without it.
-/

set_option autoImplicit false

namespace Ferron.RequestHandler

open Ferron.Lib.Run

/-! ## The loops -/

/-- The handlers of a module for a request; the index tells apart what different calls of
`get_module_handlers` give. The core module counts the active requests. -/
structure ModuleHandlers where
  index : Nat
  isCore : Bool
  deriving DecidableEq

/-- A module. -/
structure Module where
  isCore : Bool

/-- What the loops use of a configuration. -/
structure Configuration where
  modules : List Module
  metricsEnabled : Bool

/-- A call for the metrics of a module. -/
inductive Event where
  | metricDataBefore (handlers : ModuleHandlers)
  | metricDataAfter (handlers : ModuleHandlers)
  deriving DecidableEq

/-- What a handler gives, or that its time is over, be it before or during the call. -/
inductive CallResult (α : Type) where
  | ok (value : α)
  | err
  | timedOut

/-- What the loop uses of `ResponseData`: whether there are a request and a response, and the status
code. -/
structure ResponseData where
  request : Bool
  response : Bool
  responseStatus : Option UInt16

/-- Where the request handler is: it has called a request handler, with the iterator behind it, or a
response-modifying handler, or it has returned a response or an error. -/
inductive Phase where
  | requestHandler (handlers : ModuleHandlers) (handlersIter : List ModuleHandlers)
  | responseModifyingHandler (handlers : ModuleHandlers)
  | returned
  | failed

/-- What is the same during a run: the error configuration for a status code, and whether the request
parts were cloned. -/
structure Server where
  findErrorConfiguration : Configuration → UInt16 → Option Configuration
  requestPartsCloned : Bool

/-- The local variables. The executed handlers have their top first. -/
structure State where
  configuration : Configuration
  isErrorHandler : Bool
  executedHandlers : List ModuleHandlers
  phase : Phase
  created : Nat
  events : List Event

/-- `get_module_handlers` of each module. -/
def moduleHandlers (created : Nat) (modules : List Module) : List ModuleHandlers :=
  modules.mapIdx fun i module => ⟨created + i, module.isCore⟩

/-- The events that are sent when metrics are enabled. -/
def metrics (state : State) (events : List Event) : List Event :=
  if state.configuration.metricsEnabled then events else []

/-- The loop that pops every handler that is left. -/
def popAll (state : State) : State :=
  { state with
    executedHandlers := []
    events := state.events ++ metrics state (state.executedHandlers.map .metricDataAfter) }

/-- The head of the loop in `execute_response_modifying_handlers`. -/
def executeResponseModifyingHandlers (state : State) : State :=
  match state.executedHandlers with
  | [] => { state with phase := .returned }
  | handlers :: executedHandlers =>
      { state with
        executedHandlers := executedHandlers
        phase := .responseModifyingHandler handlers }

/-- The head of the loop in `request_handler`. Behind the last module the response is 404. -/
def nextHandlers (handlersIter : List ModuleHandlers) (state : State) : State :=
  match handlersIter with
  | [] => executeResponseModifyingHandlers state
  | handlers :: handlersIter =>
      { state with
        phase := .requestHandler handlers handlersIter
        events := state.events ++ metrics state [.metricDataBefore handlers] }

/-- The modules of a configuration are gone through from the first one. -/
def startConfiguration (configuration : Configuration) (state : State) : State :=
  nextHandlers (moduleHandlers state.created configuration.modules)
    { state with
      configuration := configuration
      executedHandlers := []
      created := state.created + configuration.modules.length }

/-- The error configuration that a status code leads to. -/
def errorConfiguration (server : Server) (state : State) (request : Bool) (status : UInt16) :
    Option Configuration :=
  if state.isErrorHandler then none
  else
    (server.findErrorConfiguration state.configuration status).filter fun _ =>
      request || server.requestPartsCloned

/-- The loop body behind the call of a request handler. -/
def afterRequestHandler (server : Server) (handlersIter : List ModuleHandlers) (state : State) :
    CallResult ResponseData → State
  | .timedOut => { popAll state with phase := .failed }
  | .err => executeResponseModifyingHandlers state
  | .ok data =>
      if data.response then executeResponseModifyingHandlers state
      else
        match data.responseStatus with
        | some status =>
            match errorConfiguration server state data.request status with
            | some configuration =>
                startConfiguration configuration { popAll state with isErrorHandler := true }
            | none => executeResponseModifyingHandlers state
        | none =>
            if data.request then nextHandlers handlersIter state
            else executeResponseModifyingHandlers state

/-- The loop body behind the call of a response-modifying handler. -/
def afterResponseModifyingHandler (handlers : ModuleHandlers) (state : State) :
    CallResult Unit → State
  | .timedOut => { popAll state with phase := .failed }
  | .err => { popAll state with phase := .returned }
  | .ok () =>
      executeResponseModifyingHandlers
        { state with events := state.events ++ metrics state [.metricDataAfter handlers] }

/-- What the handler that has been called gives. -/
inductive Answer where
  | request (result : CallResult ResponseData)
  | response (result : CallResult Unit)

/-- One step. -/
def step (server : Server) (state : State) (answer : Answer) : State :=
  match state.phase, answer with
  | .requestHandler handlers handlersIter, .request result =>
      afterRequestHandler server handlersIter
        { state with executedHandlers := handlers :: state.executedHandlers } result
  | .responseModifyingHandler handlers, .response result =>
      afterResponseModifyingHandler handlers state result
  | _, _ => state

/-- The start of a request under a configuration. -/
def start (configuration : Configuration) : State :=
  startConfiguration configuration
    { configuration := configuration, isErrorHandler := false, executedHandlers := [],
      phase := .returned, created := 0, events := [] }

/-- The request handler has returned. -/
def State.isFinished (state : State) : Bool :=
  match state.phase with
  | .returned => true
  | .failed => true
  | _ => false

/-! ## Balanced metrics -/

/-- Every module with a call before has exactly one call after. -/
def Balanced (events : List Event) : Prop :=
  ∀ handlers, .metricDataBefore handlers ∈ events → events.count (.metricDataAfter handlers) = 1

/-- What a call adds to `http.server.active_requests`. -/
def Event.activeRequests : Event → Int
  | metricDataBefore handlers => if handlers.isCore then 1 else 0
  | metricDataAfter handlers => if handlers.isCore then -1 else 0

/-- What a run adds to `http.server.active_requests`. -/
def activeRequests (events : List Event) : Int := (events.map Event.activeRequests).sum

/-- The step does not drop a response-modifying handler that fails or is out of time while metrics are
enabled. -/
def KeepsHandlers (state : State) (answer : Answer) : Prop :=
  match state.phase, answer with
  | .responseModifyingHandler _, .response .err => state.configuration.metricsEnabled = false
  | .responseModifyingHandler _, .response .timedOut => state.configuration.metricsEnabled = false
  | _, _ => True

/-! ## The invariant -/

/-- The handlers that still have to get their call after. -/
def opened (state : State) : List ModuleHandlers :=
  match state.phase with
  | .requestHandler handlers _ => handlers :: state.executedHandlers
  | .responseModifyingHandler handlers => handlers :: state.executedHandlers
  | .returned => []
  | .failed => []

/-- The handlers that have not been called yet. -/
def waiting (state : State) : List ModuleHandlers :=
  match state.phase with
  | .requestHandler _ handlersIter => handlersIter
  | _ => []

/-- The events of the handlers so far: no module has two calls before, and the modules with one that
have no call after are the opened ones, as long as metrics are enabled. -/
structure Tracks (events : List Event) (metricsEnabled : Bool)
    (opened waiting : List ModuleHandlers) (created : Nat) : Prop where
  count : ∀ handlers, events.count (Event.metricDataBefore handlers) =
    events.count (Event.metricDataAfter handlers) + if metricsEnabled then opened.count handlers else 0
  once : ∀ handlers, events.count (Event.metricDataBefore handlers) ≤ 1
  nodup : (opened ++ waiting).Nodup
  unseen : ∀ handlers ∈ waiting, Event.metricDataBefore handlers ∉ events
  taken : ∀ handlers ∈ waiting, handlers.index < created
  used : ∀ handlers, Event.metricDataBefore handlers ∈ events → handlers.index < created

/-- The events belong to the handlers of the state. -/
def Inv (state : State) : Prop :=
  Tracks state.events state.configuration.metricsEnabled (opened state) (waiting state)
    state.created

@[simp] theorem count_before_before (events : List Event) (handlers handlers' : ModuleHandlers) :
    (events ++ [Event.metricDataBefore handlers]).count (Event.metricDataBefore handlers') =
      events.count (Event.metricDataBefore handlers') + if handlers = handlers' then 1 else 0 := by
  simp [List.count_append, List.count_cons]

@[simp] theorem count_after_before (events : List Event) (handlers handlers' : ModuleHandlers) :
    (events ++ [Event.metricDataBefore handlers]).count (Event.metricDataAfter handlers') =
      events.count (Event.metricDataAfter handlers') := by
  simp [List.count_append]

@[simp] theorem count_after_map (events : List Event) (popped : List ModuleHandlers)
    (handlers : ModuleHandlers) :
    (events ++ popped.map Event.metricDataAfter).count (Event.metricDataAfter handlers) =
      events.count (Event.metricDataAfter handlers) + popped.count handlers := by
  rw [List.count_append, List.count_map_of_injective]
  intro a b h
  exact Event.metricDataAfter.inj h

@[simp] theorem count_before_map (events : List Event) (popped : List ModuleHandlers)
    (handlers : ModuleHandlers) :
    (events ++ popped.map Event.metricDataAfter).count (Event.metricDataBefore handlers) =
      events.count (Event.metricDataBefore handlers) := by
  have hnone : (popped.map Event.metricDataAfter).count (Event.metricDataBefore handlers) = 0 :=
    List.count_eq_zero.2 (by simp)
  rw [List.count_append, hnone, Nat.add_zero]

namespace Tracks

variable {events : List Event} {metricsEnabled : Bool} {opened waiting : List ModuleHandlers}
  {handlers : ModuleHandlers} {created : Nat}

/-- The handlers that wait may be given up. -/
theorem dropWaiting (h : Tracks events metricsEnabled opened waiting created) :
    Tracks events metricsEnabled opened [] created where
  count := h.count
  once := h.once
  nodup := by
    rw [List.append_nil]
    exact h.nodup.of_append_left
  unseen _ hmem := absurd hmem List.not_mem_nil
  taken _ hmem := absurd hmem List.not_mem_nil
  used := h.used

/-- A handler that waits gets its call before. -/
theorem before (h : Tracks events metricsEnabled opened (handlers :: waiting) created) :
    Tracks (events ++ if metricsEnabled then [Event.metricDataBefore handlers] else []) metricsEnabled
      (handlers :: opened) waiting created := by
  have hnodup : (handlers :: (opened ++ waiting)).Nodup := List.nodup_middle.1 h.nodup
  have hunseen := List.count_eq_zero.2 (h.unseen handlers List.mem_cons_self)
  have hindex := h.taken handlers List.mem_cons_self
  cases metricsEnabled with
  | false =>
      rw [if_neg (by simp), List.append_nil]
      refine ⟨h.count, h.once, hnodup, ?_, ?_, h.used⟩
      · intro other hmem
        exact h.unseen other (List.mem_cons_of_mem _ hmem)
      · intro other hmem
        exact h.taken other (List.mem_cons_of_mem _ hmem)
  | true =>
      rw [if_pos rfl]
      refine ⟨?_, ?_, hnodup, ?_, ?_, ?_⟩
      · intro other
        have hcount := h.count other
        simp only [if_true, count_before_before, count_after_before, List.count_cons, beq_iff_eq]
          at hcount ⊢
        omega
      · intro other
        have honce := h.once other
        rw [count_before_before]
        split
        · rename_i heq
          rw [← heq, hunseen]
        · exact honce
      · intro other hmem hin
        rcases List.mem_append.1 hin with hold | hnew
        · exact h.unseen other (List.mem_cons_of_mem _ hmem) hold
        · obtain rfl := Event.metricDataBefore.inj (List.mem_singleton.1 hnew)
          exact (List.nodup_cons.1 hnodup).1 (List.mem_append_right _ hmem)
      · intro other hmem
        exact h.taken other (List.mem_cons_of_mem _ hmem)
      · intro other hin
        rcases List.mem_append.1 hin with hold | hnew
        · exact h.used other hold
        · obtain rfl := Event.metricDataBefore.inj (List.mem_singleton.1 hnew)
          exact hindex

/-- Some of the opened handlers get their calls after. -/
theorem after (popped : List ModuleHandlers)
    (h : Tracks events metricsEnabled (popped ++ opened) waiting created) :
    Tracks (events ++ if metricsEnabled then popped.map Event.metricDataAfter else []) metricsEnabled
      opened waiting created := by
  have hnodup : (opened ++ waiting).Nodup := by
    have hall := h.nodup
    rw [List.append_assoc] at hall
    exact hall.of_append_right
  cases metricsEnabled with
  | false =>
      rw [if_neg (by simp), List.append_nil]
      exact ⟨h.count, h.once, hnodup, h.unseen, h.taken, h.used⟩
  | true =>
      rw [if_pos rfl]
      have hbefore : ∀ other, Event.metricDataBefore other ∈ events ++ popped.map Event.metricDataAfter →
          Event.metricDataBefore other ∈ events := by
        intro other hin
        simpa using hin
      refine ⟨?_, ?_, hnodup, ?_, h.taken, ?_⟩
      · intro other
        have hcount := h.count other
        simp only [if_true, List.count_append] at hcount
        rw [count_before_map, count_after_map, if_pos rfl]
        omega
      · intro other
        rw [count_before_map]
        exact h.once other
      · intro other hmem hin
        exact h.unseen other hmem (hbefore other hin)
      · intro other hin
        exact h.used other (hbefore other hin)

/-- Without opened handlers it does not matter whether metrics are enabled. -/
theorem switch (h : Tracks events metricsEnabled [] [] created) (enabled : Bool) :
    Tracks events enabled [] [] created where
  count handlers := by
    have hcount := h.count handlers
    simpa using hcount
  once := h.once
  nodup := h.nodup
  unseen := h.unseen
  taken := h.taken
  used := h.used

/-- New handlers wait. -/
theorem wait (h : Tracks events metricsEnabled [] [] created) (modules : List Module) :
    Tracks events metricsEnabled [] (moduleHandlers created modules) (created + modules.length) := by
  have hindex : ∀ handlers ∈ moduleHandlers created modules,
      created ≤ handlers.index ∧ handlers.index < created + modules.length := by
    intro handlers hmem
    obtain ⟨i, hi, rfl⟩ := List.mem_mapIdx.1 hmem
    dsimp only
    omega
  refine ⟨h.count, h.once, ?_, ?_, ?_, ?_⟩
  · rw [List.nil_append, moduleHandlers, List.Nodup, List.pairwise_iff_getElem]
    intro i j hi hj hlt
    rw [List.getElem_mapIdx, List.getElem_mapIdx]
    intro heq
    have hsame := congrArg ModuleHandlers.index heq
    dsimp only at hsame
    omega
  · intro handlers hmem hin
    have hused := h.used handlers hin
    have hnew := (hindex handlers hmem).1
    omega
  · intro handlers hmem
    exact (hindex handlers hmem).2
  · intro handlers hin
    have hused := h.used handlers hin
    omega

end Tracks

/-! ## Steps -/

variable {state : State} {server : Server}

/-- The response-modifying handlers of the executed handlers come next. -/
theorem inv_executeResponseModifyingHandlers
    (h : Tracks state.events state.configuration.metricsEnabled state.executedHandlers []
      state.created) : Inv (executeResponseModifyingHandlers state) := by
  rw [executeResponseModifyingHandlers]
  split
  · rename_i hnil
    rw [hnil] at h
    exact h
  · rename_i handlers executedHandlers hcons
    rw [hcons] at h
    exact h

/-- The request handler of the next module comes next. -/
theorem inv_nextHandlers {handlersIter : List ModuleHandlers}
    (h : Tracks state.events state.configuration.metricsEnabled state.executedHandlers handlersIter
      state.created) : Inv (nextHandlers handlersIter state) := by
  cases handlersIter with
  | nil => exact inv_executeResponseModifyingHandlers h
  | cons handlers handlersIter => exact h.before

/-- Popping all handlers leaves none opened. -/
theorem tracks_popAll {waiting : List ModuleHandlers}
    (h : Tracks state.events state.configuration.metricsEnabled state.executedHandlers waiting
      state.created) :
    Tracks (popAll state).events state.configuration.metricsEnabled [] [] state.created := by
  rw [← List.append_nil state.executedHandlers] at h
  exact (h.after state.executedHandlers).dropWaiting

theorem inv_startConfiguration {configuration : Configuration} {metricsEnabled : Bool}
    (h : Tracks state.events metricsEnabled [] [] state.created) :
    Inv (startConfiguration configuration state) :=
  inv_nextHandlers ((h.switch configuration.metricsEnabled).wait configuration.modules)

/-- What comes behind the call of a request handler. -/
theorem inv_afterRequestHandler {handlersIter : List ModuleHandlers}
    (h : Tracks state.events state.configuration.metricsEnabled state.executedHandlers handlersIter
      state.created) (result : CallResult ResponseData) :
    Inv (afterRequestHandler server handlersIter state result) := by
  cases result with
  | timedOut => exact tracks_popAll h
  | err => exact inv_executeResponseModifyingHandlers h.dropWaiting
  | ok data =>
      rw [afterRequestHandler]
      split
      · exact inv_executeResponseModifyingHandlers h.dropWaiting
      · split
        · split
          · exact inv_startConfiguration (tracks_popAll h)
          · exact inv_executeResponseModifyingHandlers h.dropWaiting
        · split
          · exact inv_nextHandlers h
          · exact inv_executeResponseModifyingHandlers h.dropWaiting

theorem tracks_of_inv {handlers : ModuleHandlers} (h : Inv state)
    (hphase : state.phase = .responseModifyingHandler handlers) :
    Tracks state.events state.configuration.metricsEnabled (handlers :: state.executedHandlers) []
      state.created := by
  unfold Inv opened waiting at h
  rw [hphase] at h
  exact h

/-- Without metrics no handler misses a call. -/
theorem tracks_popAll_disabled {handlers : ModuleHandlers}
    (h : Tracks state.events state.configuration.metricsEnabled
      (handlers :: state.executedHandlers) [] state.created)
    (hdisabled : state.configuration.metricsEnabled = false) :
    Tracks (popAll state).events state.configuration.metricsEnabled [] [] state.created := by
  have hrest : Tracks state.events state.configuration.metricsEnabled state.executedHandlers []
      state.created := by
    rw [hdisabled] at h ⊢
    exact ⟨h.count, h.once, h.nodup.of_cons, h.unseen, h.taken, h.used⟩
  exact tracks_popAll hrest

/-- Every step that drops no handler keeps the invariant. -/
theorem Inv.step (server : Server) {answer : Answer} (hkeeps : KeepsHandlers state answer) (h : Inv state) :
    Inv (step server state answer) := by
  unfold RequestHandler.step
  unfold KeepsHandlers at hkeeps
  split
  · rename_i handlers handlersIter result hphase
    unfold Inv opened waiting at h
    rw [hphase] at h
    exact inv_afterRequestHandler h result
  · rename_i handlers result hphase
    have hopened := tracks_of_inv h hphase
    rw [hphase] at hkeeps
    cases result with
    | ok value => exact inv_executeResponseModifyingHandlers (hopened.after [handlers])
    | err => exact tracks_popAll_disabled hopened hkeeps
    | timedOut => exact tracks_popAll_disabled hopened hkeeps
  · exact h

theorem inv_start (configuration : Configuration) : Inv (start configuration) := by
  have hnone : Tracks [] false [] [] 0 := by
    refine ⟨?_, ?_, List.nodup_nil, ?_, ?_, ?_⟩ <;> simp
  exact inv_startConfiguration hnone

/-! ## Runs -/

/-- In a finished state no handler is opened. -/
theorem Inv.finished (h : Inv state) (hfinished : state.isFinished = true) :
    Tracks state.events state.configuration.metricsEnabled [] [] state.created := by
  unfold State.isFinished at hfinished
  unfold Inv opened waiting at h
  split at hfinished
  · rename_i hphase
    rw [hphase] at h
    exact h
  · rename_i hphase
    rw [hphase] at h
    exact h
  · exact absurd hfinished (by simp)

/-- Without opened handlers the calls are balanced. -/
theorem Tracks.balanced {events : List Event} {metricsEnabled : Bool} {created : Nat}
    (h : Tracks events metricsEnabled [] [] created) : Balanced events := by
  intro handlers hmem
  have hcount := h.count handlers
  have honce := h.once handlers
  have hpos := List.count_pos_iff.2 hmem
  simp only [List.count_nil, ite_self] at hcount
  omega

/-- The handlers with a call before. -/
def started : List Event → List ModuleHandlers
  | [] => []
  | .metricDataBefore handlers :: events => handlers :: started events
  | .metricDataAfter _ :: events => started events

/-- The handlers with a call after. -/
def ended : List Event → List ModuleHandlers
  | [] => []
  | .metricDataBefore _ :: events => ended events
  | .metricDataAfter handlers :: events => handlers :: ended events

theorem count_started (events : List Event) (handlers : ModuleHandlers) :
    (started events).count handlers = events.count (Event.metricDataBefore handlers) := by
  induction events with
  | nil => rfl
  | cons event events ih => cases event <;> simp [started, List.count_cons, ih]

theorem count_ended (events : List Event) (handlers : ModuleHandlers) :
    (ended events).count handlers = events.count (Event.metricDataAfter handlers) := by
  induction events with
  | nil => rfl
  | cons event events ih => cases event <;> simp [ended, List.count_cons, ih]

theorem activeRequests_eq (events : List Event) :
    activeRequests events =
      (started events).countP ModuleHandlers.isCore - (ended events).countP ModuleHandlers.isCore := by
  induction events with
  | nil => rfl
  | cons event events ih =>
      rw [activeRequests, List.map_cons, List.sum_cons, ← activeRequests, ih]
      cases event with
      | metricDataBefore handlers =>
          rw [started, ended, List.countP_cons, Event.activeRequests]
          cases handlers.isCore
          · simp
          · simp
            omega
      | metricDataAfter handlers =>
          rw [started, ended, List.countP_cons, Event.activeRequests]
          cases handlers.isCore
          · simp
          · simp
            omega

/-- Without opened handlers the number of active requests is what it was. -/
theorem Tracks.activeRequests_eq_zero {events : List Event} {metricsEnabled : Bool} {created : Nat}
    (h : Tracks events metricsEnabled [] [] created) : activeRequests events = 0 := by
  have hperm : (started events).Perm (ended events) := by
    rw [List.perm_iff_count]
    intro handlers
    have hcount := h.count handlers
    rw [count_started, count_ended, hcount]
    simp
  rw [activeRequests_eq, hperm.countP_eq, sub_self]

/-- A finished state stays. -/
theorem step_finished (hfinished : state.isFinished = true) (answer : Answer) :
    step server state answer = state := by
  unfold State.isFinished at hfinished
  unfold step
  split at hfinished
  · rename_i hphase
    rw [hphase]
  · rename_i hphase
    rw [hphase]
  · exact absurd hfinished (by simp)

theorem run_finished (hfinished : state.isFinished = true) (answers : List Answer) :
    run (step server) state answers = state := by
  induction answers with
  | nil => rfl
  | cons answer answers ih => rw [run_cons, step_finished hfinished, ih]

/-- A handler that is popped and dropped has a call before and none after. -/
theorem unbalanced_popAll {handlers : ModuleHandlers}
    (h : Tracks state.events state.configuration.metricsEnabled
      (handlers :: state.executedHandlers) [] state.created)
    (henabled : state.configuration.metricsEnabled = true) :
    ¬Balanced (popAll state).events := by
  have hnot : handlers ∉ state.executedHandlers := by
    have hnodup := h.nodup
    rw [List.append_nil] at hnodup
    exact (List.nodup_cons.1 hnodup).1
  have hcount := h.count handlers
  have honce := h.once handlers
  rw [henabled, if_pos rfl, List.count_cons_self, List.count_eq_zero.2 hnot] at hcount
  intro hbalanced
  rw [popAll, metrics, henabled, if_pos rfl] at hbalanced
  have hmem : Event.metricDataBefore handlers ∈ state.events := List.count_pos_iff.1 (by omega)
  have hafter := hbalanced handlers (List.mem_append_left _ hmem)
  rw [count_after_map, List.count_eq_zero.2 hnot] at hafter
  omega

/-- A step that drops a handler ends the run, and the handler has no call after. -/
theorem Inv.unbalanced (server : Server) (h : Inv state) {answer : Answer}
    (hdrops : ¬KeepsHandlers state answer) :
    (RequestHandler.step server state answer).isFinished = true ∧
      ¬Balanced (RequestHandler.step server state answer).events := by
  unfold KeepsHandlers at hdrops
  unfold RequestHandler.step
  split at hdrops
  · rename_i handlers hphase
    rw [hphase]
    exact ⟨rfl, unbalanced_popAll (tracks_of_inv h hphase) (by simpa using hdrops)⟩
  · rename_i handlers hphase
    rw [hphase]
    exact ⟨rfl, unbalanced_popAll (tracks_of_inv h hphase) (by simpa using hdrops)⟩
  · exact absurd trivial hdrops

/-- When the request handler has returned, every module with a call before has one call after, and the
number of active requests is what it was, exactly when no step has dropped a response-modifying handler
that failed or was out of time while metrics were enabled. -/
theorem metricData_balanced_iff (server : Server) (configuration : Configuration)
    (answers : List Answer)
    (hfinished : (run (step server) (start configuration) answers).isFinished = true) :
    (Balanced (run (step server) (start configuration) answers).events ∧
        activeRequests (run (step server) (start configuration) answers).events = 0) ↔
      AllSteps (step server) KeepsHandlers (start configuration) answers := by
  constructor
  · rintro ⟨hbalanced, -⟩
    by_contra hnot
    obtain ⟨before, bad, after, rfl, hbefore, hdrops⟩ := exists_first_of_not_allSteps hnot
    have hinv := run_invariant (fun _ _ => Inv.step server) (inv_start configuration)
      hbefore
    obtain ⟨hend, hunbalanced⟩ := hinv.unbalanced server hdrops
    rw [run_append, run_cons, run_finished hend] at hbalanced
    exact hunbalanced hbalanced
  · intro hall
    have hinv := run_invariant (fun _ _ => Inv.step server) (inv_start configuration)
      hall
    exact ⟨(hinv.finished hfinished).balanced, (hinv.finished hfinished).activeRequests_eq_zero⟩

/-- A core module whose response-modifying handler is out of time stays counted as active. -/
theorem metricData_unbalanced_on_timeout :
    let server : Server := ⟨fun _ _ => none, false⟩
    let configuration : Configuration := ⟨[⟨true⟩], true⟩
    let answers : List Answer := [.request (.ok ⟨false, true, none⟩), .response .timedOut]
    let final := run (step server) (start configuration) answers
    final.isFinished = true ∧ final.events = [.metricDataBefore ⟨0, true⟩] ∧
      activeRequests final.events = 1 := by
  decide

/-- A core module and another one, in a run with a response. -/
theorem metricData_balanced_two_modules :
    let server : Server := ⟨fun _ _ => none, false⟩
    let configuration : Configuration := ⟨[⟨true⟩, ⟨false⟩], true⟩
    let answers : List Answer := [.request (.ok ⟨true, false, none⟩),
      .request (.ok ⟨false, true, none⟩), .response (.ok ()), .response (.ok ())]
    Balanced (run (step server) (start configuration) answers).events ∧
      activeRequests (run (step server) (start configuration) answers).events = 0 := by
  exact (metricData_balanced_iff _ _ _ (by decide)).2 ⟨trivial, trivial, trivial, trivial, trivial⟩

end Ferron.RequestHandler
