import Ferron.Common.Config
import Ferron.Http.Body
import Ferron.Lib.Run

/-!
# Buffered bodies

The module for buffering collects the first frames of a body before the request or the response goes on: until
the data has the size of the buffer, until there are trailers, or until the body ends. The new body yields the
collected frames and then whatever the old one still yields.

`buffering_transparent` says that the new body yields the frames of the old one in their order, none of them
twice and none of them lost, and that it comes to its end.
-/

set_option autoImplicit false

namespace Ferron.Modules.Buffer

open Ferron.Common Ferron.Http

/-! ## The module -/

/-- A body, by its answers to the polls. A finished body stays finished. -/
structure Body where
  poll : Nat → Polled
  fused : ∀ n, poll n = .ready none → poll (n + 1) = .ready none

/-- `as usize` of an `i128`. -/
def asUsize (size : Int) : Nat := (size % 2 ^ 64).toNat

/-- Where the module is with a body, which has been polled so often: it collects frames, it forwards the
collected frames and then the rest, or it has failed. -/
inductive Phase where
  | collecting (bufferSize : Nat) (buffer : List Frame) (dataLen position : Nat)
  | forwarding (buffer : List Frame) (position : Nat)
  | failed (err : IoError)

/-- The phase, and the answers of the new body so far. -/
structure State where
  phase : Phase
  answers : List Polled

/-- The loop of the handlers, for one answer of the body. -/
def collect (bufferSize : Nat) (buffer : List Frame) (dataLen position : Nat) : Polled → Phase
  | .pending => .collecting bufferSize buffer dataLen (position + 1)
  | .ready none => .forwarding buffer (position + 1)
  | .ready (some (.error err)) => .failed err
  | .ready (some (.ok (.trailers headers))) =>
      .forwarding (buffer ++ [.trailers headers]) (position + 1)
  | .ready (some (.ok (.data data))) =>
      let dataLen := (dataLen + data.length) % 2 ^ 64
      if bufferSize ≤ dataLen then .forwarding (buffer ++ [.data data]) (position + 1)
      else .collecting bufferSize (buffer ++ [.data data]) dataLen (position + 1)

/-- A poll of the handler, or of the new body once there is one. -/
def step (body : Body) (state : State) : State :=
  match state.phase with
  | .collecting bufferSize buffer dataLen position =>
      { state with phase := collect bufferSize buffer dataLen position (body.poll position) }
  | .forwarding (frame :: buffer) position =>
      ⟨.forwarding buffer position, state.answers ++ [.ready (some (.ok frame))]⟩
  | .forwarding [] position => ⟨.forwarding [] (position + 1), state.answers ++ [body.poll position]⟩
  | .failed _ => state

/-- A body is buffered, if there is a size for the buffer. -/
def buffered (bufferSize : Option Nat) : State :=
  match bufferSize with
  | some bufferSize => ⟨.collecting bufferSize [] 0 0, []⟩
  | none => ⟨.forwarding [] 0, []⟩

/-- A size in the configuration. -/
def bufferSize (config : ServerConfiguration) (name : Str) : Option Nat :=
  ((config.getValue name).bind ServerConfigurationValue.asI128).map asUsize

/-- `request_handler`: the body of the request. -/
def requestHandler (config : ServerConfiguration) : State :=
  buffered (bufferSize config "buffer_request".toList)

/-- `response_modifying_handler`: the body of the response, with the size that the handler of the request has
stored. -/
def responseModifyingHandler (config : ServerConfiguration) : State :=
  buffered (bufferSize config "buffer_response".toList)

/-! ## What a body yields -/

/-- The first answers of a body. -/
def Body.first (body : Body) (n : Nat) : List Polled := (List.range n).map body.poll

/-- The frames up to the first error. -/
def upToError : List Polled → List Frame
  | [] => []
  | .ready (some (.ok frame)) :: answers => frame :: upToError answers
  | .ready (some (.error _)) :: _ => []
  | .ready none :: answers => upToError answers
  | .pending :: answers => upToError answers

/-- There is no error among some answers. -/
def NoError (answers : List Polled) : Prop := ∀ err, .ready (some (.error err)) ∉ answers

/-- The handler or the new body has failed. -/
def State.Fails (state : State) : Prop :=
  (∃ err, state.phase = .failed err) ∨ ∃ err, .ready (some (.error err)) ∈ state.answers

/-- What the new body has yielded after some polls: the first frames of the old body, all of them at the end;
and it fails only if the old body does. -/
structure Transparent (body : Body) (state : State) : Prop where
  yields : ∃ n, upToError state.answers <+: upToError (body.first n)
  complete : .ready none ∈ state.answers →
    ∃ n, body.poll n = .ready none ∧ upToError state.answers = upToError (body.first n)
  fails : state.Fails → ∃ n err, body.poll n = .ready (some (.error err))

section Answers

variable {body : Body} {answers rest : List Polled}

theorem upToError_append (h : NoError answers) :
    upToError (answers ++ rest) = upToError answers ++ upToError rest := by
  induction answers with
  | nil => rfl
  | cons answer answers ih =>
      have htail : NoError answers := fun err hmem => h err (List.mem_cons_of_mem _ hmem)
      cases answer with
      | pending => exact ih htail
      | ready result =>
          cases result with
          | none => exact ih htail
          | some frame =>
              cases frame with
              | ok frame => exact congrArg (frame :: ·) (ih htail)
              | error err => exact absurd List.mem_cons_self (h err)

theorem upToError_frames (frames : List Frame) :
    upToError (frames.map fun frame => .ready (some (.ok frame))) = frames := by
  induction frames with
  | nil => rfl
  | cons frame frames ih => exact congrArg (frame :: ·) ih

theorem noError_frames (frames : List Frame) :
    NoError (frames.map fun frame => .ready (some (.ok frame))) := by
  intro err hmem
  obtain ⟨frame, -, hframe⟩ := List.mem_map.1 hmem
  cases hframe

theorem length_upToError_le (answers : List Polled) : (upToError answers).length ≤ answers.length := by
  induction answers with
  | nil => exact le_rfl
  | cons answer answers ih =>
      cases answer with
      | pending => exact ih.trans (Nat.le_succ _)
      | ready result =>
          cases result with
          | none => exact ih.trans (Nat.le_succ _)
          | some frame =>
              cases frame with
              | ok frame => exact Nat.succ_le_succ ih
              | error err => exact Nat.zero_le _

theorem Body.first_succ (body : Body) (n : Nat) : body.first (n + 1) = body.first n ++ [body.poll n] := by
  rw [Body.first, Body.first, List.range_succ, List.map_append, List.map_singleton]

theorem Body.length_first (body : Body) (n : Nat) : (body.first n).length = n := by
  rw [Body.first, List.length_map, List.length_range]

theorem Body.poll_of_ended (body : Body) {n m : Nat} (hend : body.poll n = .ready none) (hle : n ≤ m) :
    body.poll m = .ready none := by
  induction m, hle using Nat.le_induction with
  | base => exact hend
  | succ m _ ih => exact body.fused m ih

end Answers

/-! ## Polls -/

section Runs

variable {body : Body}

/-- Frames are collected from the answers up to some position, without an error or the end among them. -/
structure Collected (body : Body) (position : Nat) (buffer : List Frame) : Prop where
  noError : NoError (body.first position)
  frames : upToError (body.first position) = buffer

/-- The new body has yielded some of the collected frames, or all of them and the answers of the old body
behind the position where the collecting has ended. -/
structure Forwards (body : Body) (buffer : List Frame) (position : Nat) (answers : List Polled)
    (polls : Nat) : Prop where
  split : ∃ collected sent, collected ≤ position ∧ Collected body collected (sent ++ buffer) ∧
    (∀ k, k + 1 < collected → body.poll k ≠ .ready none) ∧
    answers = (sent.map fun frame => .ready (some (.ok frame))) ++
      (List.range' collected (position - collected)).map body.poll ∧
    (buffer ≠ [] → position = collected) ∧ position + sent.length = polls

/-- What the module has come to after so many polls. -/
def Inv (body : Body) (state : State) (polls : Nat) : Prop :=
  match state.phase with
  | .collecting _ buffer _ position => state.answers = [] ∧ Collected body position buffer ∧
      (∀ k < position, body.poll k ≠ .ready none) ∧ position = polls
  | .forwarding buffer position => Forwards body buffer position state.answers polls
  | .failed _ => state.answers = [] ∧ ∃ n err, body.poll n = .ready (some (.error err))

theorem inv_buffered (bufferSize : Option Nat) : Inv body (buffered bufferSize) 0 := by
  have hnothing : Collected body 0 [] := ⟨fun err hmem => absurd hmem List.not_mem_nil, rfl⟩
  cases bufferSize with
  | some bufferSize => exact ⟨rfl, hnothing, fun k hk => absurd hk (Nat.not_lt_zero k), rfl⟩
  | none =>
      exact ⟨0, [], le_rfl, hnothing, fun k hk => absurd hk (Nat.not_lt_zero _), rfl, fun _ => rfl, rfl⟩

/-- One more answer without an error. -/
theorem Collected.next {position : Nat} {buffer : List Frame} (h : Collected body position buffer)
    (hpoll : ∀ err, body.poll position ≠ .ready (some (.error err))) :
    Collected body (position + 1) (buffer ++ upToError [body.poll position]) := by
  constructor
  · intro err hmem
    rw [body.first_succ, List.mem_append, List.mem_singleton] at hmem
    rcases hmem with hearlier | hlast
    · exact h.noError err hearlier
    · exact hpoll err hlast.symm
  · rw [body.first_succ, upToError_append h.noError, h.frames]

/-- The collecting ends, and nothing has been yielded yet. -/
theorem Forwards.of_collected {position : Nat} {buffer : List Frame}
    (h : Collected body (position + 1) buffer) (hopen : ∀ k < position, body.poll k ≠ .ready none) :
    Forwards body buffer (position + 1) [] (position + 1) := by
  refine ⟨position + 1, [], le_rfl, h, fun k hk => hopen k (Nat.lt_of_succ_lt_succ hk), ?_, fun _ => rfl, rfl⟩
  rw [Nat.sub_self]
  rfl

/-- The new body yields a frame that has been collected. -/
theorem Forwards.sent {frame : Frame} {buffer : List Frame} {position polls : Nat} {answers : List Polled}
    (h : Forwards body (frame :: buffer) position answers polls) :
    Forwards body buffer position (answers ++ [.ready (some (.ok frame))]) (polls + 1) := by
  obtain ⟨collected, sent, hle, hcollected, hopen, rfl, hhere, hpolls⟩ := h.split
  obtain rfl : position = collected := hhere (List.cons_ne_nil _ _)
  refine ⟨position, sent ++ [frame], le_rfl, ?_, hopen, ?_, fun _ => rfl, ?_⟩
  · rwa [List.append_assoc]
  · rw [Nat.sub_self, List.map_append]
    simp only [List.range'_zero, List.map_nil, List.append_nil]
    rfl
  · rw [List.length_append, List.length_singleton]
    omega

/-- The new body yields an answer of the old one. -/
theorem Forwards.passed {position polls : Nat} {answers : List Polled}
    (h : Forwards body [] position answers polls) :
    Forwards body [] (position + 1) (answers ++ [body.poll position]) (polls + 1) := by
  obtain ⟨collected, sent, hle, hcollected, hopen, rfl, -, hpolls⟩ := h.split
  refine ⟨collected, sent, hle.trans (Nat.le_succ _), hcollected, hopen, ?_, fun h => absurd rfl h, ?_⟩
  · have hmore : List.range' collected (position + 1 - collected) =
        List.range' collected (position - collected) ++ [position] := by
      rw [Nat.succ_sub hle, List.range'_1_concat, Nat.add_sub_cancel' hle]
    rw [hmore, List.map_append, List.append_assoc]
    rfl
  · omega

theorem inv_step {state : State} {polls : Nat} (h : Inv body state polls) :
    Inv body (step body state) (polls + 1) := by
  obtain ⟨phase, answers⟩ := state
  cases phase with
  | failed err => exact h
  | forwarding buffer position =>
      cases buffer with
      | nil => exact Forwards.passed h
      | cons frame buffer => exact Forwards.sent h
  | collecting bufferSize buffer dataLen position =>
      obtain ⟨rfl, hcollected, hopen, rfl⟩ := h
      have hnext := hcollected.next
      -- the body goes on unless it has ended
      have hgoesOn (hpoll : body.poll position ≠ .ready none) :
          ∀ k < position + 1, body.poll k ≠ .ready none :=
        Nat.forall_lt_succ_right.2 ⟨hopen, hpoll⟩
      rw [step]
      dsimp only
      cases hpoll : body.poll position with
      | pending =>
          rw [hpoll] at hnext hgoesOn
          have hsame := hnext fun _ h => nomatch h
          rw [show upToError [Poll.pending] = [] from rfl, List.append_nil] at hsame
          exact ⟨rfl, hsame, hgoesOn (fun h => nomatch h), rfl⟩
      | ready result =>
          rw [hpoll] at hnext hgoesOn
          cases result with
          | none =>
              have hsame := hnext fun _ h => nomatch h
              rw [show upToError [Poll.ready none] = [] from rfl, List.append_nil] at hsame
              exact .of_collected hsame hopen
          | some frame =>
              cases frame with
              | error err => exact ⟨rfl, position, err, hpoll⟩
              | ok frame =>
                  have hmore := hnext fun _ h => nomatch h
                  rw [show upToError [Poll.ready (some (.ok frame))] = [frame] from rfl] at hmore
                  cases frame with
                  | trailers headers => exact .of_collected hmore hopen
                  | data data =>
                      rw [collect]
                      split
                      · exact Forwards.of_collected hmore hopen
                      · exact ⟨rfl, hmore, hgoesOn (fun h => nomatch h), rfl⟩

theorem inv_iterate (bufferSize : Option Nat) (polls : Nat) :
    Inv body ((step body)^[polls] (buffered bufferSize)) polls := by
  induction polls with
  | zero => exact inv_buffered bufferSize
  | succ polls ih =>
      rw [Function.iterate_succ_apply']
      exact inv_step ih

/-! ## What leaves the module -/

theorem mem_range'_map {answer : Polled} {collected position : Nat}
    (h : answer ∈ (List.range' collected (position - collected)).map body.poll) :
    ∃ k, collected ≤ k ∧ k < position ∧ body.poll k = answer := by
  obtain ⟨k, hk, hanswer⟩ := List.mem_map.1 h
  rw [List.mem_range'_1] at hk
  exact ⟨k, hk.1, by omega, hanswer⟩

/-- The first answers are those up to an earlier position and the ones behind it. -/
theorem Body.first_eq_append (body : Body) {collected position : Nat} (hle : collected ≤ position) :
    body.first position =
      body.first collected ++ (List.range' collected (position - collected)).map body.poll := by
  have hrange : List.range' 0 collected ++ List.range' (0 + collected) (position - collected) =
      List.range' 0 (collected + (position - collected)) := List.range'_append_1
  rw [Nat.zero_add, Nat.add_sub_cancel' hle] at hrange
  rw [Body.first, Body.first, ← List.map_append, List.range_eq_range', List.range_eq_range', hrange]

/-- The answers of the new body, when it forwards the old one. -/
theorem Forwards.transparent {buffer : List Frame} {position polls : Nat} {answers : List Polled}
    (h : Forwards body buffer position answers polls) :
    Transparent body ⟨.forwarding buffer position, answers⟩ := by
  obtain ⟨collected, sent, hle, hcollected, hopen, rfl, hhere, -⟩ := h.split
  have hfirst : upToError (body.first position) = sent ++ buffer ++
      upToError ((List.range' collected (position - collected)).map body.poll) := by
    rw [body.first_eq_append hle, upToError_append hcollected.noError, hcollected.frames]
  have hanswers : upToError ((sent.map fun frame => .ready (some (.ok frame))) ++
      (List.range' collected (position - collected)).map body.poll) =
        sent ++ upToError ((List.range' collected (position - collected)).map body.poll) := by
    rw [upToError_append (noError_frames sent), upToError_frames]
  -- an answer of the old body is passed on only when the buffer is empty
  have hempty {answer : Polled}
      (h : answer ∈ (List.range' collected (position - collected)).map body.poll) : buffer = [] := by
    by_contra hne
    obtain ⟨k, hk, hk', -⟩ := mem_range'_map h
    have := hhere hne
    omega
  have hnotSent {answer : Polled} (h : answer ∈ (sent.map fun frame => Poll.ready (some (.ok frame))) ++
      (List.range' collected (position - collected)).map body.poll)
      (hanswer : ∀ frame, answer ≠ .ready (some (.ok frame))) :
      answer ∈ (List.range' collected (position - collected)).map body.poll := by
    rcases List.mem_append.1 h with hframe | hrest
    · obtain ⟨frame, -, hframe⟩ := List.mem_map.1 hframe
      exact absurd hframe.symm (hanswer frame)
    · exact hrest
  refine ⟨⟨position, ?_⟩, fun hended => ?_, ?_⟩
  · dsimp only
    rw [hanswers, hfirst]
    cases buffer with
    | nil => rw [List.append_nil]
    | cons frame buffer =>
        rw [hhere (List.cons_ne_nil _ _), Nat.sub_self]
        simp [upToError]
  · have hrest := hnotSent hended fun _ h => nomatch h
    obtain ⟨k, -, hk, hend⟩ := mem_range'_map hrest
    refine ⟨position, body.poll_of_ended hend hk.le, ?_⟩
    dsimp only
    rw [hanswers, hfirst, hempty hrest, List.append_nil]
  · rintro (⟨err, hphase⟩ | ⟨err, hmem⟩)
    · cases hphase
    · obtain ⟨k, -, -, hk⟩ := mem_range'_map (hnotSent hmem fun _ h => nomatch h)
      exact ⟨k, err, hk⟩

theorem Inv.transparent {state : State} {polls : Nat} (h : Inv body state polls) :
    Transparent body state := by
  obtain ⟨phase, answers⟩ := state
  -- before the new body there are no answers
  have hnothing (hanswers : answers = [])
      (hfails : State.Fails ⟨phase, answers⟩ → ∃ n err, body.poll n = .ready (some (.error err))) :
      Transparent body ⟨phase, answers⟩ := by
    subst hanswers
    exact ⟨⟨0, List.nil_prefix⟩, fun hended => absurd hended List.not_mem_nil, hfails⟩
  cases phase with
  | forwarding buffer position => exact Forwards.transparent h
  | collecting bufferSize buffer dataLen position =>
      refine hnothing h.1 ?_
      rintro (⟨err, hphase⟩ | ⟨err, hmem⟩)
      · cases hphase
      · exact absurd (h.1 ▸ hmem) List.not_mem_nil
  | failed err => exact hnothing h.1 fun _ => h.2

/-- When the old body has ended, the new one has ended after twice as many polls, or it has failed. -/
theorem Inv.ended {state : State} {polls e : Nat} (h : Inv body state polls)
    (hend : body.poll e = .ready none) (hpolls : 2 * e + 4 ≤ polls) :
    .ready none ∈ state.answers ∨ state.Fails := by
  obtain ⟨phase, answers⟩ := state
  cases phase with
  | failed err => exact .inr (.inl ⟨err, rfl⟩)
  | collecting bufferSize buffer dataLen position =>
      obtain ⟨-, -, hopen, rfl⟩ := h
      exact absurd hend (hopen e (by omega))
  | forwarding buffer position =>
      obtain ⟨collected, sent, hle, hcollected, hopen, rfl, -, hcount⟩ := h.split
      -- the frames that have been sent were collected from as many answers at least
      have hsent : sent.length ≤ collected := by
        have hlength := length_upToError_le (body.first collected)
        rw [hcollected.frames, List.length_append, body.length_first] at hlength
        omega
      have hcollectedLe : collected ≤ e + 1 := by
        by_contra hlt
        exact hopen e (by omega) hend
      refine .inl (List.mem_append_right _ (List.mem_map.2 ⟨e + 1, ?_, body.fused e hend⟩))
      rw [List.mem_range'_1]
      omega

end Runs

/-- However often the handler and the new body are polled, the new body is transparent, and it comes to its
end when the old one does. -/
def BuffersTransparently (body : Body) (start : State) : Prop :=
  ∀ polls, Transparent body ((step body)^[polls] start) ∧
    ∀ e, body.poll e = .ready none → 2 * e + 4 ≤ polls →
      .ready none ∈ ((step body)^[polls] start).answers ∨ ((step body)^[polls] start).Fails

/-- The bodies of requests and of responses leave the module as they have entered it. -/
theorem buffering_transparent (config : ServerConfiguration) (body : Body) :
    BuffersTransparently body (requestHandler config) ∧
      BuffersTransparently body (responseModifyingHandler config) := by
  have hbuffered (bufferSize : Option Nat) : BuffersTransparently body (buffered bufferSize) := by
    intro polls
    have hinv : Inv body ((step body)^[polls] (buffered bufferSize)) polls := inv_iterate bufferSize polls
    exact ⟨hinv.transparent, fun e hend => hinv.ended hend⟩
  exact ⟨hbuffered _, hbuffered _⟩

/-- A body that gives frames, with pending polls among them, and then ends. -/
def Body.ofFrames (frames : List (Option Frame)) : Body where
  poll n :=
    match frames[n]? with
    | some (some frame) => .ready (some (.ok frame))
    | some none => .pending
    | none => .ready none
  fused n hended := by
    have hbehind : frames[n]? = none := by
      cases hframe : frames[n]? with
      | none => rfl
      | some frame =>
          rw [hframe] at hended
          cases frame <;> cases hended
    rw [List.getElem?_eq_none_iff] at hbehind
    rw [List.getElem?_eq_none (Nat.le_succ_of_le hbehind)]

/-- A buffer of three bytes for responses. -/
def threeBytes : ServerConfiguration where
  entries := AList.insert "buffer_response".toList ⟨[⟨[.integer 3], ∅⟩]⟩ ∅
  filters := ⟨true, none, none, none, none, none⟩

/-- The data come to more than three bytes with the second frame. -/
def longBody : Body :=
  .ofFrames [some (.data [1, 2]), none, some (.data [3, 4]), some (.data [5]),
    some (.trailers [("x-checksum".toList, [9])])]

theorem buffering_transparent_longBody :
    ((step longBody)^[3] (responseModifyingHandler threeBytes)).phase =
        .forwarding [.data [1, 2], .data [3, 4]] 3 ∧
      BuffersTransparently longBody (responseModifyingHandler threeBytes) ∧
      .ready none ∈ ((step longBody)^[14] (responseModifyingHandler threeBytes)).answers ∧
      upToError ((step longBody)^[14] (responseModifyingHandler threeBytes)).answers =
        [.data [1, 2], .data [3, 4], .data [5], .trailers [("x-checksum".toList, [9])]] := by
  refine ⟨rfl, (buffering_transparent threeBytes longBody).2, ?_, ?_⟩
  · decide +kernel
  · decide +kernel

end Ferron.Modules.Buffer
