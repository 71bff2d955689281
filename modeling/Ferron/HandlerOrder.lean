import Ferron.RequestHandler

/-!
# The order of the response-modifying handlers

A module whose request handler has been called gets its response-modifying handler called before the
response is returned, the last module first. With an error configuration the modules before it get none.

`calls` notes the calls of a run and where the error configuration was selected.
`modified_eq_reverse_executed` says that in a returned response exactly the modules executed under the
configuration in force have had their response-modifying handlers called, once each and in the reverse
order, when none of these handlers failed and no handler was out of time.
-/

set_option autoImplicit false

namespace Ferron.RequestHandler

open Ferron.Lib.Run

/-! ## Calls -/

/-- A handler that has been called, or the selection of an error configuration. -/
inductive Call where
  | requestHandler (handlers : ModuleHandlers)
  | errorConfiguration
  | responseModifyingHandler (handlers : ModuleHandlers)
  deriving DecidableEq

/-- The calls of a step. -/
def callsOf (server : Server) (state : State) (answer : Answer) : List Call :=
  match state.phase, answer with
  | .requestHandler handlers _, .request _ =>
      .requestHandler handlers ::
        if (step server state answer).isErrorHandler = state.isErrorHandler then []
        else [.errorConfiguration]
  | .responseModifyingHandler handlers, .response _ => [.responseModifyingHandler handlers]
  | _, _ => []

/-- The calls of a run. -/
def calls (server : Server) (state : State) : List Answer → List Call
  | [] => []
  | answer :: answers => callsOf server state answer ++ calls server (step server state answer) answers

/-- The modules whose request handlers have been called, since the selection of the configuration in
force. -/
def executedAfter (handlers : List ModuleHandlers) : List Call → List ModuleHandlers
  | [] => handlers
  | .requestHandler next :: calls => executedAfter (handlers ++ [next]) calls
  | .errorConfiguration :: calls => executedAfter [] calls
  | .responseModifyingHandler _ :: calls => executedAfter handlers calls

/-- The modules whose response-modifying handlers have been called, in the whole run. -/
def modified : List Call → List ModuleHandlers
  | [] => []
  | .responseModifyingHandler handlers :: calls => handlers :: modified calls
  | .requestHandler _ :: calls => modified calls
  | .errorConfiguration :: calls => modified calls

/-- The modules executed under the configuration in force. -/
def executed (calls : List Call) : List ModuleHandlers := executedAfter [] calls

/-- No handler is out of time, and no response-modifying handler fails. -/
def Answer.proceeds : Answer → Bool
  | .request .timedOut => false
  | .request _ => true
  | .response (.ok ()) => true
  | .response _ => false

theorem executedAfter_append (handlers : List ModuleHandlers) (calls more : List Call) :
    executedAfter handlers (calls ++ more) = executedAfter (executedAfter handlers calls) more := by
  induction calls generalizing handlers with
  | nil => rfl
  | cons call calls ih => cases call <;> exact ih _

theorem executed_append (calls more : List Call) :
    executed (calls ++ more) = executedAfter (executed calls) more := executedAfter_append [] calls more

theorem modified_append (calls more : List Call) :
    modified (calls ++ more) = modified calls ++ modified more := by
  induction calls with
  | nil => rfl
  | cons call calls ih =>
      cases call with
      | requestHandler handlers => exact ih
      | errorConfiguration => exact ih
      | responseModifyingHandler handlers => exact congrArg (handlers :: ·) ih

/-! ## The invariant -/

/-- What the calls so far have to do with the handlers that are on the stack. -/
def Ordered (state : State) (made : List Call) : Prop :=
  match state.phase with
  | .requestHandler _ _ => executed made = state.executedHandlers.reverse ∧ modified made = []
  | .responseModifyingHandler handlers =>
      (executed made).reverse = modified made ++ handlers :: state.executedHandlers
  | .returned => (executed made).reverse = modified made
  | .failed => False

variable {state : State} {server : Server} {made : List Call}

/-- The stack is popped from its top. -/
theorem ordered_executeResponseModifyingHandlers
    (h : (executed made).reverse = modified made ++ state.executedHandlers) :
    Ordered (executeResponseModifyingHandlers state) made := by
  rw [executeResponseModifyingHandlers]
  split
  · rename_i hnil
    rw [hnil, List.append_nil] at h
    exact h
  · rename_i handlers executedHandlers hcons
    rw [hcons] at h
    exact h

theorem ordered_nextHandlers {handlersIter : List ModuleHandlers}
    (hexecuted : executed made = state.executedHandlers.reverse) (hmodified : modified made = []) :
    Ordered (nextHandlers handlersIter state) made := by
  cases handlersIter with
  | nil =>
      apply ordered_executeResponseModifyingHandlers
      rw [hexecuted, List.reverse_reverse, hmodified, List.nil_append]
  | cons handlers handlersIter => exact ⟨hexecuted, hmodified⟩

theorem isErrorHandler_executeResponseModifyingHandlers (state : State) :
    (executeResponseModifyingHandlers state).isErrorHandler = state.isErrorHandler := by
  unfold executeResponseModifyingHandlers
  split <;> rfl

theorem isErrorHandler_nextHandlers (handlersIter : List ModuleHandlers) (state : State) :
    (nextHandlers handlersIter state).isErrorHandler = state.isErrorHandler := by
  cases handlersIter with
  | nil => exact isErrorHandler_executeResponseModifyingHandlers state
  | cons handlers handlersIter => rfl

/-- What comes behind the call of a request handler that is in time: the response-modifying handlers, the
next module, or the modules of an error configuration. -/
theorem afterRequestHandler_cases {handlersIter : List ModuleHandlers} {result : CallResult ResponseData}
    (hproceeds : (Answer.request result).proceeds = true) :
    afterRequestHandler server handlersIter state result = executeResponseModifyingHandlers state ∨
      afterRequestHandler server handlersIter state result = nextHandlers handlersIter state ∨
      state.isErrorHandler = false ∧ ∃ configuration,
        afterRequestHandler server handlersIter state result =
          startConfiguration configuration { popAll state with isErrorHandler := true } := by
  cases result with
  | timedOut => cases hproceeds
  | err => exact Or.inl rfl
  | ok data =>
      rw [afterRequestHandler]
      split
      · exact Or.inl rfl
      · split
        · split
          · rename_i configuration hselected
            refine Or.inr (Or.inr ⟨?_, configuration, rfl⟩)
            rw [errorConfiguration] at hselected
            cases hhandler : state.isErrorHandler with
            | false => rfl
            | true =>
                rw [hhandler, if_pos rfl] at hselected
                cases hselected
          · exact Or.inl rfl
        · split
          · exact Or.inr (Or.inl rfl)
          · exact Or.inl rfl

theorem step_request {handlers : ModuleHandlers} {handlersIter : List ModuleHandlers}
    (hphase : state.phase = .requestHandler handlers handlersIter) (result : CallResult ResponseData) :
    step server state (.request result) = afterRequestHandler server handlersIter
      { state with executedHandlers := handlers :: state.executedHandlers } result := by
  unfold step
  rw [hphase]

theorem step_response {handlers : ModuleHandlers}
    (hphase : state.phase = .responseModifyingHandler handlers) (result : CallResult Unit) :
    step server state (.response result) = afterResponseModifyingHandler handlers state result := by
  unfold step
  rw [hphase]

theorem callsOf_request {handlers : ModuleHandlers} {handlersIter : List ModuleHandlers}
    (hphase : state.phase = .requestHandler handlers handlersIter) (result : CallResult ResponseData) :
    callsOf server state (.request result) = .requestHandler handlers ::
      if (step server state (.request result)).isErrorHandler = state.isErrorHandler then []
      else [.errorConfiguration] := by
  unfold callsOf
  rw [hphase]

theorem callsOf_response {handlers : ModuleHandlers}
    (hphase : state.phase = .responseModifyingHandler handlers) (result : CallResult Unit) :
    callsOf server state (.response result) = [.responseModifyingHandler handlers] := by
  unfold callsOf
  rw [hphase]

/-- The call of a request handler. -/
theorem ordered_step_request {handlers : ModuleHandlers} {handlersIter : List ModuleHandlers}
    {result : CallResult ResponseData} (hproceeds : (Answer.request result).proceeds = true)
    (hphase : state.phase = .requestHandler handlers handlersIter) (h : Ordered state made) :
    Ordered (step server state (.request result))
      (made ++ callsOf server state (.request result)) := by
  rw [Ordered, hphase] at h
  obtain ⟨hexecuted, hmodified⟩ := h
  rw [callsOf_request hphase, step_request hphase]
  -- without an error configuration the module is the last one that is executed
  have hmade : ∀ next : State, next.isErrorHandler = state.isErrorHandler →
      made ++ (Call.requestHandler handlers ::
        if next.isErrorHandler = state.isErrorHandler then [] else [Call.errorConfiguration]) =
          made ++ [Call.requestHandler handlers] := by
    intro next hsame
    rw [if_pos hsame]
  have hexecuted' : executed (made ++ [Call.requestHandler handlers]) =
      (handlers :: state.executedHandlers).reverse := by
    rw [executed_append, hexecuted, List.reverse_cons]
    rfl
  have hmodified' : modified (made ++ [Call.requestHandler handlers]) = [] := by
    rw [modified_append, hmodified]
    rfl
  rcases @afterRequestHandler_cases { state with executedHandlers := handlers :: state.executedHandlers }
    server handlersIter result hproceeds with hafter | hafter | ⟨hfirst, configuration, hafter⟩
  · have hsame := isErrorHandler_executeResponseModifyingHandlers
      { state with executedHandlers := handlers :: state.executedHandlers }
    rw [hafter, hmade _ hsame]
    apply ordered_executeResponseModifyingHandlers
    rw [hexecuted', hmodified', List.reverse_reverse, List.nil_append]
  · have hsame := isErrorHandler_nextHandlers handlersIter
      { state with executedHandlers := handlers :: state.executedHandlers }
    rw [hafter, hmade _ hsame]
    exact ordered_nextHandlers hexecuted' hmodified'
  · have herror : (startConfiguration configuration { popAll
        { state with executedHandlers := handlers :: state.executedHandlers } with
          isErrorHandler := true }).isErrorHandler = true := isErrorHandler_nextHandlers _ _
    have hnot : ¬ true = state.isErrorHandler := by
      rw [show state.isErrorHandler = false from hfirst]
      exact Bool.noConfusion
    rw [hafter, herror, if_neg hnot]
    apply ordered_nextHandlers
    · rw [executed_append]
      rfl
    · rw [modified_append, hmodified]
      rfl

/-- The call of a response-modifying handler. -/
theorem ordered_step_response {handlers : ModuleHandlers}
    (hphase : state.phase = .responseModifyingHandler handlers) (h : Ordered state made) :
    Ordered (step server state (.response (.ok ())))
      (made ++ callsOf server state (.response (.ok ()))) := by
  rw [Ordered, hphase] at h
  rw [step_response hphase, callsOf_response hphase]
  apply ordered_executeResponseModifyingHandlers
  rw [executed_append, modified_append]
  change (executed made).reverse = (modified made ++ [handlers]) ++ state.executedHandlers
  rw [h, List.append_assoc, List.singleton_append]

theorem Ordered.step (server : Server) {answer : Answer} (hproceeds : answer.proceeds = true)
    (h : Ordered state made) :
    Ordered (RequestHandler.step server state answer) (made ++ callsOf server state answer) := by
  -- an answer of another kind is no call
  have hquiet : RequestHandler.step server state answer = state → callsOf server state answer = [] →
      Ordered (RequestHandler.step server state answer) (made ++ callsOf server state answer) := by
    intro hstep hcalls
    rw [hstep, hcalls, List.append_nil]
    exact h
  cases hphase : state.phase with
  | requestHandler handlers handlersIter =>
      cases answer with
      | request result => exact ordered_step_request hproceeds hphase h
      | response result =>
          apply hquiet
          · unfold RequestHandler.step
            rw [hphase]
          · unfold callsOf
            rw [hphase]
  | responseModifyingHandler handlers =>
      cases answer with
      | request result =>
          apply hquiet
          · unfold RequestHandler.step
            rw [hphase]
          · unfold callsOf
            rw [hphase]
      | response result =>
          cases result with
          | ok value => exact ordered_step_response hphase h
          | err => cases hproceeds
          | timedOut => cases hproceeds
  | returned =>
      apply hquiet
      · unfold RequestHandler.step
        rw [hphase]
      · unfold callsOf
        rw [hphase]
  | failed =>
      unfold Ordered at h
      rw [hphase] at h
      exact h.elim

/-! ## Each module once -/

/-- Every step that drops no handler leaves different modules executed. -/
theorem nodup_step (server : Server) {answer : Answer} (hinv : Inv state) (hordered : Ordered state made)
    (h : (executed made).Nodup) : (executed (made ++ callsOf server state answer)).Nodup := by
  unfold callsOf
  split
  · rename_i handlers handlersIter result hphase
    unfold Ordered at hordered
    unfold Inv opened waiting at hinv
    rw [hphase] at hordered hinv
    have hnodup : (executed (made ++ [Call.requestHandler handlers])).Nodup := by
      rw [executed_append, hordered.1]
      change (state.executedHandlers.reverse ++ [handlers]).Nodup
      rw [← List.reverse_cons, List.nodup_reverse]
      exact hinv.nodup.of_append_left
    split
    · exact hnodup
    · rw [executed_append]
      exact List.nodup_nil
  · rw [executed_append]
    exact h
  · rw [List.append_nil]
    exact h

/-! ## Runs -/

theorem keepsHandlers_of_proceeds (state : State) {answer : Answer} (h : answer.proceeds = true) :
    KeepsHandlers state answer := by
  unfold KeepsHandlers
  split
  · cases h
  · cases h
  · trivial

/-- What the calls before a run and those of the run make together. -/
theorem run_ordered (server : Server) (answers : List Answer)
    (hproceeds : ∀ answer ∈ answers, answer.proceeds = true)
    (hinv : Inv state) (hordered : Ordered state made) (hnodup : (executed made).Nodup) :
    Ordered (run (step server) state answers) (made ++ calls server state answers) ∧
      (executed (made ++ calls server state answers)).Nodup := by
  induction answers generalizing state made with
  | nil =>
      rw [calls, List.append_nil]
      exact ⟨hordered, hnodup⟩
  | cons answer answers ih =>
      have hanswer := hproceeds answer List.mem_cons_self
      rw [run_cons, calls, ← List.append_assoc]
      exact ih (fun other hother => hproceeds other (List.mem_cons_of_mem _ hother))
        (hinv.step server (keepsHandlers_of_proceeds state hanswer)) (hordered.step server hanswer)
        (nodup_step server hinv hordered hnodup)

/-- When a response is returned, the modules executed under the configuration in force have had their
response-modifying handlers called, each one once and the last one first, and no other module has. -/
theorem modified_eq_reverse_executed (server : Server) (configuration : Configuration)
    (answers : List Answer) (hproceeds : ∀ answer ∈ answers, answer.proceeds = true)
    (hfinished : (run (step server) (start configuration) answers).isFinished = true) :
    modified (calls server (start configuration) answers) =
        (executed (calls server (start configuration) answers)).reverse ∧
      (executed (calls server (start configuration) answers)).Nodup := by
  have hstart : Ordered (start configuration) [] := ordered_nextHandlers rfl rfl
  obtain ⟨hordered, hnodup⟩ :=
    run_ordered server answers hproceeds (inv_start configuration) hstart List.nodup_nil
  rw [List.nil_append] at hordered hnodup
  refine ⟨?_, hnodup⟩
  unfold State.isFinished at hfinished
  unfold Ordered at hordered
  split at hfinished
  · rename_i hphase
    rw [hphase] at hordered
    exact hordered.symm
  · rename_i hphase
    rw [hphase] at hordered
    exact hordered.elim
  · cases hfinished

/-- Two modules, the second of which gives a status code with an error configuration of one module. -/
theorem modified_eq_reverse_executed_error :
    let server : Server := ⟨fun _ _ => some ⟨[⟨false⟩, ⟨false⟩], false⟩, true⟩
    let configuration : Configuration := ⟨[⟨true⟩, ⟨false⟩], true⟩
    let answers : List Answer := [.request (.ok ⟨true, false, none⟩),
      .request (.ok ⟨false, false, some 404⟩), .request (.ok ⟨true, false, none⟩),
      .request (.ok ⟨false, true, none⟩), .response (.ok ()), .response (.ok ())]
    modified (calls server (start configuration) answers) = [⟨3, false⟩, ⟨2, false⟩] ∧
      modified (calls server (start configuration) answers) =
        (executed (calls server (start configuration) answers)).reverse := by
  exact ⟨by decide, (modified_eq_reverse_executed _ _ _ (by decide) (by decide)).1⟩

end Ferron.RequestHandler
