import Ferron.Common.HeaderPlaceholders
import Ferron.Lib.Template

/-!
# The loops that replace placeholders

The placeholders of headers and those of log lines are replaced by two copies of one loop. It looks for
braces from a position on that it moves behind every placeholder. A brace that is not closed does not
move it, so the loop puts out the same text again and again; any other template is expanded
(`placeholdersReplaced_iff`).
-/

set_option autoImplicit false

namespace Ferron.Common

open Ferron.Http Ferron.Lib.Template

/-! ## The loop -/

/-- What the loop changes. -/
structure LoopState where
  indexRbSaved : Nat
  output : Str

section Loop

variable (value : Str → Str) (input : Str)

/-- One round of the loop, which goes on or breaks with the output. The texts of the placeholders are put
out by `value`. -/
def loopRound (state : LoopState) : LoopState ⊕ Str :=
  let rest := input.drop state.indexRbSaved
  match rest.findIdx? (· == '{') with
  | some indexLb =>
      match (rest.drop (indexLb + 1)).findIdx? (· == '}') with
      | some indexRbAfterlb =>
          let indexRb := indexRbAfterlb + indexLb + 1
          let placeholderValue := (rest.drop (indexLb + 1)).take indexRbAfterlb
          let output := state.output ++ rest.take indexLb ++ value placeholderValue
          if indexRb < input.length - 1 then .inl ⟨state.indexRbSaved + (indexRb + 1), output⟩
          else .inr output
      | none => .inl { state with output := state.output ++ rest }
  | none => .inr (state.output ++ rest)

/-- The output of the loop, when it breaks within so many rounds. -/
def runLoop : Nat → LoopState → Option Str
  | 0, _ => none
  | rounds + 1, state =>
      match loopRound value input state with
      | .inl next => runLoop rounds next
      | .inr output => some output

/-- The loop breaks with this output. -/
def LoopReturns (output : Str) : Prop := ∃ rounds, runLoop value input rounds ⟨0, []⟩ = some output

end Loop

/-! ## The placeholders of a log line -/

/-- What a log line has besides the request and the connection. -/
structure LogData where
  authUser : Option Str
  timestampStr : Str
  statusCode : UInt16
  contentLength : Option UInt64
  deriving DecidableEq

section Values

variable (requestParts : Parts)

/-- What is put out for a placeholder of a log line. -/
def logPlaceholderValue (socketData : SocketData) (log : LogData) (placeholder : Str) : Str :=
  match dataPlaceholder requestParts (some socketData) placeholder with
  | some text => text
  | none =>
      if placeholder = "auth_user".toList then log.authUser.getD ['-']
      else if placeholder = "timestamp".toList then log.timestampStr
      else if placeholder = "status_code".toList then displayNat 10 log.statusCode.toNat
      else if placeholder = "content_length".toList then
        (log.contentLength.map fun len => displayNat 10 len.toNat).getD ['-']
      else
        match headerPlaceholder placeholder with
        | some headerName =>
            match requestParts.headers.get (lowerName headerName) with
            | some value => (toStr value).getD []
            -- the header is not found
            | none => ['-']
        | none => asItIs placeholder

/-! ## The values of names -/

/-- The names for data of the request. -/
def requestNames : List (Str × Str) :=
  [("path".toList, requestParts.uri.path),
    ("path_and_query".toList, requestParts.uri.path ++ displayQuery requestParts.uri.query),
    ("method".toList, requestParts.method.token),
    ("version".toList, displayVersion requestParts.version)]

/-- The names for data of the connection. -/
def connectionNames (socketData : SocketData) : List (Str × Str) :=
  [("scheme".toList, if socketData.encrypted then "https".toList else "http".toList),
    ("client_ip".toList, displayIp socketData.remoteAddr.ip),
    ("client_port".toList, displayNat 10 socketData.remoteAddr.port.toNat),
    ("client_ip_canonical".toList, displayIp socketData.remoteAddr.ip.toCanonical),
    ("server_ip".toList, displayIp socketData.localAddr.ip),
    ("server_port".toList, displayNat 10 socketData.localAddr.port.toNat),
    ("server_ip_canonical".toList, displayIp socketData.localAddr.ip.toCanonical)]

/-- The names for the data of a log line. -/
def logNames (log : LogData) : List (Str × Str) :=
  [("auth_user".toList, log.authUser.getD ['-']), ("timestamp".toList, log.timestampStr),
    ("status_code".toList, displayNat 10 log.statusCode.toNat),
    ("content_length".toList, (log.contentLength.map fun len => displayNat 10 len.toNat).getD ['-'])]

/-- The value of a name for a header: its text, if it has one, and a text of its own when the request has
no such header. -/
def headerNameValue (missing : Str) (name : Str) : Option Str :=
  (headerPlaceholder name).map fun headerName =>
    match requestParts.headers.get (lowerName headerName) with
    | some value => (toStr value).getD []
    | none => missing

/-- The value of a name in a header, if it is known. -/
def headerValueOf (socketData : Option SocketData) (name : Str) : Option Str :=
  ((requestNames requestParts ++ (socketData.map connectionNames).getD []).lookup name).or
    (headerNameValue requestParts [] name)

/-- The value of a name in a log line, if it is known. -/
def logValueOf (socketData : SocketData) (log : LogData) (name : Str) : Option Str :=
  ((requestNames requestParts ++ connectionNames socketData ++ logNames log).lookup name).or
    (headerNameValue requestParts ['-'] name)

end Values

theorem lookup_cons_eq_ite (name other text : Str) (names : List (Str × Str)) :
    List.lookup name ((other, text) :: names) =
      if name = other then some text else names.lookup name := by
  rw [List.lookup_cons]
  cases h : name == other with
  | true => rw [if_pos (eq_of_beq h)]
  | false => rw [if_neg (ne_of_beq_false h)]

/-- The names of the request and of the connection are the placeholders for data. -/
theorem dataPlaceholder_eq_lookup (requestParts : Parts) (socketData : SocketData) (name : Str) :
    dataPlaceholder requestParts (some socketData) name =
      (requestNames requestParts ++ connectionNames socketData).lookup name := by
  simp only [requestNames, connectionNames, List.cons_append, List.nil_append, lookup_cons_eq_ite,
    List.lookup_nil]
  rfl

/-- The names for data of the connection, without their values. -/
def connectionKeys : List Str :=
  ["scheme".toList, "client_ip".toList, "client_port".toList, "client_ip_canonical".toList,
    "server_ip".toList, "server_port".toList, "server_ip_canonical".toList]

theorem lookup_map_const (keys : List Str) (text name : Str) :
    (keys.map fun key => (key, text)).lookup name = if name ∈ keys then some text else none := by
  induction keys with
  | nil => rfl
  | cons key keys ih =>
      rw [List.map_cons, lookup_cons_eq_ite, ih]
      by_cases h : name = key
      · rw [if_pos h, if_pos (h ▸ List.mem_cons_self)]
      · rw [if_neg h]
        exact if_congr (by rw [List.mem_cons, or_iff_right h]) rfl rfl

/-- Without a connection the placeholders for its data are put out as they are. -/
theorem dataPlaceholder_none (requestParts : Parts) (name : Str) :
    dataPlaceholder requestParts none name =
      ((requestNames requestParts).lookup name).or
        (if name ∈ connectionKeys then some (asItIs name) else none) := by
  rw [← lookup_map_const, ← List.lookup_append]
  simp only [requestNames, connectionKeys, List.map_cons, List.map_nil, List.cons_append,
    List.nil_append, lookup_cons_eq_ite, List.lookup_nil]
  rfl

/-- A name for data of the connection names no header. -/
theorem headerPlaceholder_of_mem {name : Str} (h : name ∈ connectionKeys) :
    headerPlaceholder name = none := by
  have hall : ∀ key ∈ connectionKeys, headerPlaceholder key = none := by decide
  exact hall name h

theorem asItIs_eq (name : Str) : asItIs name = placeholder '{' '}' name := rfl

/-- What is put out for a placeholder in a header is the value of its name, or the placeholder itself. -/
theorem placeholderValue_eq (requestParts : Parts) (socketData : Option SocketData) (name : Str) :
    placeholderValue requestParts socketData name =
      (headerValueOf requestParts socketData name).getD (placeholder '{' '}' name) := by
  have hheader : ∀ {data : Option Str}, data = none →
      (match data with
        | some text => text
        | none =>
            match headerPlaceholder name with
            | some headerName =>
                match requestParts.headers.get (lowerName headerName) with
                | some value => (toStr value).getD []
                | none => []
            | none => asItIs name) =
        (headerNameValue requestParts [] name).getD (placeholder '{' '}' name) := by
    rintro _ rfl
    rw [headerNameValue, ← asItIs_eq]
    cases headerPlaceholder name <;> rfl
  cases socketData with
  | some socketData =>
      rw [placeholderValue, headerValueOf, Option.map_some, Option.getD_some,
        ← dataPlaceholder_eq_lookup]
      cases hdata : dataPlaceholder requestParts (some socketData) name with
      | some text => rfl
      | none => exact hheader rfl
  | none =>
      rw [placeholderValue, headerValueOf, Option.map_none, Option.getD_none, List.append_nil]
      have hdata := dataPlaceholder_none requestParts name
      cases hlookup : (requestNames requestParts).lookup name with
      | some text =>
          rw [hlookup] at hdata
          rw [hdata]
          rfl
      | none =>
          rw [hlookup, Option.none_or] at hdata
          by_cases hkey : name ∈ connectionKeys
          · rw [hdata, if_pos hkey, headerNameValue, headerPlaceholder_of_mem hkey]
            rfl
          · rw [if_neg hkey] at hdata
            exact hheader hdata

/-- What is put out for a placeholder in a log line is the value of its name, or the placeholder
itself. -/
theorem logPlaceholderValue_eq (requestParts : Parts) (socketData : SocketData) (log : LogData)
    (name : Str) :
    logPlaceholderValue requestParts socketData log name =
      (logValueOf requestParts socketData log name).getD (placeholder '{' '}' name) := by
  have hlog : (logNames log).lookup name =
      if name = "auth_user".toList then some (log.authUser.getD ['-'])
      else if name = "timestamp".toList then some log.timestampStr
      else if name = "status_code".toList then some (displayNat 10 log.statusCode.toNat)
      else if name = "content_length".toList then
        some ((log.contentLength.map fun len => displayNat 10 len.toNat).getD ['-'])
      else none := by
    simp only [logNames, lookup_cons_eq_ite, List.lookup_nil]
  rw [logPlaceholderValue, logValueOf, List.lookup_append, ← dataPlaceholder_eq_lookup]
  cases dataPlaceholder requestParts (some socketData) name with
  | some text => rfl
  | none =>
      rw [Option.none_or, hlog, headerNameValue, ← asItIs_eq]
      dsimp only
      split_ifs
      · rfl
      · rfl
      · rfl
      · rfl
      · cases headerPlaceholder name <;> rfl

/-! ## What the loop puts out -/

section Rounds

variable {value : Str → Str} {input : Str} {state : LoopState}

/-- The first index of a character is the length of the text before it. -/
theorem findIdx?_append_cons {c : Char} {before : Str} (h : c ∉ before) (after : Str) :
    (before ++ c :: after).findIdx? (· == c) = some before.length := by
  rw [List.findIdx?_append, List.findIdx?_eq_none_iff.2, List.findIdx?_cons]
  · simp
  · intro d hd
    rw [beq_eq_false_iff_ne]
    rintro rfl
    exact h hd

theorem findIdx?_of_not_mem {c : Char} {text : Str} (h : c ∉ text) :
    text.findIdx? (· == c) = none := by
  rw [List.findIdx?_eq_none_iff]
  intro d hd
  rw [beq_eq_false_iff_ne]
  rintro rfl
  exact h hd

/-- A text without braces ends the loop. -/
theorem loopRound_text (h : '{' ∉ input.drop state.indexRbSaved) :
    loopRound value input state = .inr (state.output ++ input.drop state.indexRbSaved) := by
  rw [loopRound, findIdx?_of_not_mem h]

/-- A brace that is not closed leaves the loop where it is. -/
theorem loopRound_unclosed {before after : Str} (hrest : input.drop state.indexRbSaved =
    before ++ '{' :: after) (hbefore : '{' ∉ before) (hafter : '}' ∉ after) :
    loopRound value input state =
      .inl { state with output := state.output ++ (before ++ '{' :: after) } := by
  have hdrop : (before ++ '{' :: after).drop (before.length + 1) = after := by
    rw [List.drop_append]
    simp
  rw [loopRound, hrest]
  dsimp only
  rw [findIdx?_append_cons hbefore]
  dsimp only
  rw [hdrop, findIdx?_of_not_mem hafter]

/-- A placeholder is put out with the text before it. The loop goes on behind it, or ends when the
placeholder ends the input. -/
theorem loopRound_placeholder {before name after : Str} (hrest : input.drop state.indexRbSaved =
    before ++ ('{' :: name ++ '}' :: after)) (hbefore : '{' ∉ before) (hname : '}' ∉ name) :
    (loopRound value input state = .inr (state.output ++ before ++ value name) ∧ after = []) ∨
      ∃ index, loopRound value input state = .inl ⟨index, state.output ++ before ++ value name⟩ ∧
        input.drop index = after := by
  have hdrop : (before ++ ('{' :: name ++ '}' :: after)).drop (before.length + 1) =
      name ++ '}' :: after := by
    rw [List.drop_append]
    simp
  have hround : loopRound value input state =
      if name.length + before.length + 1 < input.length - 1 then
        .inl ⟨state.indexRbSaved + (name.length + before.length + 1 + 1),
          state.output ++ before ++ value name⟩
      else .inr (state.output ++ before ++ value name) := by
    rw [loopRound, hrest]
    dsimp only
    rw [List.cons_append, findIdx?_append_cons hbefore]
    dsimp only
    rw [← List.cons_append, hdrop, findIdx?_append_cons hname]
    dsimp only
    rw [List.take_left, List.take_left]
  have hafter : input.drop (state.indexRbSaved + (name.length + before.length + 1 + 1)) = after := by
    have hfront : (before ++ ('{' :: name ++ ['}'])).length = name.length + before.length + 1 + 1 := by
      rw [List.length_append, List.length_append, List.length_cons, List.length_singleton]
      omega
    have hsplit : before ++ ('{' :: name ++ '}' :: after) =
        before ++ ('{' :: name ++ ['}']) ++ after := by simp
    rw [← List.drop_drop, hrest, hsplit, ← hfront, List.drop_left]
  by_cases hlt : name.length + before.length + 1 < input.length - 1
  · rw [hround, if_pos hlt]
    exact .inr ⟨_, rfl, hafter⟩
  · left
    rw [hround, if_neg hlt]
    have hlength := congrArg List.length hrest
    simp only [List.length_drop, List.length_append, List.length_cons] at hlength
    exact ⟨rfl, List.length_eq_zero_iff.1 (by omega)⟩

variable {valueOf : Str → Option Str}
  (hvalue : ∀ name, value name = (valueOf name).getD (placeholder '{' '}' name))

include hvalue in
/-- From any position the loop puts out the expansion of what is behind it, if that is closed. -/
theorem exists_runLoop (hclosed : Closed '{' '}' (input.drop state.indexRbSaved)) :
    ∃ rounds, runLoop value input rounds state =
      some (state.output ++ expand '{' '}' valueOf (input.drop state.indexRbSaved)) := by
  generalize hrest : input.drop state.indexRbSaved = rest at hclosed ⊢
  induction rest using @template_induction Char _ '{' '}' _ generalizing state with
  | text text htext =>
      refine ⟨1, ?_⟩
      rw [runLoop, loopRound_text (by rw [hrest]; exact htext), hrest, expand_text htext]
  | unclosed before after hbefore hafter => exact absurd hclosed (not_closed_unclosed hafter)
  | closed before name after hbefore hname ih =>
      have hexpand : state.output ++ expand '{' '}' valueOf (before ++ ('{' :: name ++ '}' :: after)) =
          state.output ++ before ++ value name ++ expand '{' '}' valueOf after := by
        rw [expand_append hbefore, expand_placeholder hname, ← hvalue, ← List.append_assoc,
          ← List.append_assoc]
      rw [hexpand]
      rcases @loopRound_placeholder value _ _ _ _ _ hrest hbefore hname with
        ⟨hround, rfl⟩ | ⟨index, hround, hafter⟩
      · refine ⟨1, ?_⟩
        rw [runLoop, hround, expand_text List.not_mem_nil, List.append_nil]
      · obtain ⟨rounds, hrun⟩ := @ih ⟨index, state.output ++ before ++ value name⟩ hafter
          ((closed_placeholder_iff (by decide)).1 hclosed)
        exact ⟨rounds + 1, by rw [runLoop, hround]; exact hrun⟩

/-- A brace that is not closed is looked at again and again. -/
theorem runLoop_unclosed {before after : Str} (hrest : input.drop state.indexRbSaved =
    before ++ '{' :: after) (hbefore : '{' ∉ before) (hafter : '}' ∉ after) (rounds : Nat) :
    runLoop value input rounds state = none := by
  induction rounds generalizing state with
  | zero => rfl
  | succ rounds ih =>
      rw [runLoop, loopRound_unclosed hrest hbefore hafter]
      exact ih hrest

/-- The loop never breaks on a template with a brace that is not closed. -/
theorem runLoop_of_not_closed (hclosed : ¬ Closed '{' '}' (input.drop state.indexRbSaved))
    (rounds : Nat) : runLoop value input rounds state = none := by
  generalize hrest : input.drop state.indexRbSaved = rest at hclosed
  induction rest using @template_induction Char _ '{' '}' _
    generalizing state rounds with
  | text text htext => exact absurd (closed_text htext) hclosed
  | unclosed before after hbefore hafter => exact runLoop_unclosed hrest hbefore hafter rounds
  | closed before name after hbefore hname ih =>
      have hnot : ¬ Closed '{' '}' after :=
        fun h => hclosed ((closed_placeholder_iff (by decide)).2 h)
      cases rounds with
      | zero => rfl
      | succ rounds =>
          rcases @loopRound_placeholder value _ _ _ _ _ hrest hbefore hname with
            ⟨-, rfl⟩ | ⟨index, hround, hafter⟩
          · exact absurd (closed_text List.not_mem_nil) hnot
          · rw [runLoop, hround]
            exact ih rounds hafter hnot

include hvalue in
/-- The loop breaks, and with the expansion of its input, exactly when every brace is closed. -/
theorem loopReturns_iff :
    LoopReturns value input (expand '{' '}' valueOf input) ↔ Closed '{' '}' input := by
  constructor
  · rintro ⟨rounds, hrun⟩
    by_contra hclosed
    have hnone := @runLoop_of_not_closed value input ⟨0, []⟩ hclosed rounds
    rw [hnone] at hrun
    nomatch hrun
  · intro hclosed
    exact @exists_runLoop value input ⟨0, []⟩ valueOf hvalue hclosed

/-- More rounds change nothing of an output. -/
theorem runLoop_add {rounds : Nat} {output : Str} (h : runLoop value input rounds state = some output)
    (more : Nat) : runLoop value input (rounds + more) state = some output := by
  induction rounds generalizing state with
  | zero => nomatch h
  | succ rounds ih =>
      rw [Nat.succ_add, runLoop]
      rw [runLoop] at h
      cases hround : loopRound value input state with
      | inl next =>
          rw [hround] at h
          exact ih h
      | inr result =>
          rw [hround] at h
          exact h

/-- The loop breaks with one output only. -/
theorem LoopReturns.unique {first second : Str} (h₁ : LoopReturns value input first)
    (h₂ : LoopReturns value input second) : first = second := by
  obtain ⟨n, hn⟩ := h₁
  obtain ⟨m, hm⟩ := h₂
  have hsame := runLoop_add hm n
  rw [Nat.add_comm, runLoop_add hn m] at hsame
  exact Option.some.inj hsame

end Rounds

/-- The loop breaks with what `replace_header_placeholders` returns. -/
theorem loopReturns_iff_replaceHeaderPlaceholders (requestParts : Parts)
    (socketData : Option SocketData) (input output : Str) :
    LoopReturns (placeholderValue requestParts socketData) input output ↔
      replaceHeaderPlaceholders requestParts socketData input = some output := by
  have hvalue := placeholderValue_eq requestParts socketData
  have hexpand : (Closed '{' '}' input → replaceHeaderPlaceholders requestParts socketData input =
        some (expand '{' '}' (headerValueOf requestParts socketData) input)) ∧
      (¬ Closed '{' '}' input → replaceHeaderPlaceholders requestParts socketData input = none) := by
    induction input using @template_induction Char _ '{' '}' _ with
    | text text htext =>
        rw [replaceHeaderPlaceholders_eq_self _ _ htext, expand_text htext]
        exact ⟨fun _ => rfl, fun h => absurd (closed_text htext) h⟩
    | unclosed before after hbefore hafter =>
        exact ⟨fun h => absurd h (not_closed_unclosed hafter),
          fun _ => replaceHeaderPlaceholders_unclosed _ _ hbefore hafter⟩
    | closed before name after hbefore hname ih =>
        have hplaceholder : '{' :: name ++ '}' :: after = asItIs name ++ after := by simp [asItIs]
        rw [closed_placeholder_iff (by decide), replaceHeaderPlaceholders_append _ _ hbefore,
          hplaceholder, replaceHeaderPlaceholders_placeholder _ _ hname, ← hplaceholder,
          expand_append hbefore, expand_placeholder hname, ← hvalue]
        exact ⟨fun h => by rw [ih.1 h]; rfl, fun h => by rw [ih.2 h]; rfl⟩
  by_cases hclosed : Closed '{' '}' input
  · rw [hexpand.1 hclosed, Option.some_inj]
    constructor
    · exact fun h => ((loopReturns_iff hvalue).2 hclosed).unique h
    · rintro rfl
      exact (loopReturns_iff hvalue).2 hclosed
  · rw [hexpand.2 hclosed]
    refine iff_of_false ?_ (by intro h; cases h)
    rintro ⟨rounds, hrun⟩
    have hnone := @runLoop_of_not_closed (placeholderValue requestParts socketData) input ⟨0, []⟩ hclosed
      rounds
    rw [hrun] at hnone
    cases hnone

/-- Both copies of the loop break, and with the values of the known names in the place of their
placeholders and everything else copied. -/
structure PlaceholdersReplaced (requestParts : Parts) (socketData : Option SocketData)
    (logSocketData : SocketData) (log : LogData) (input : Str) : Prop where
  header : LoopReturns (placeholderValue requestParts socketData) input
    (expand '{' '}' (headerValueOf requestParts socketData) input)
  log : LoopReturns (logPlaceholderValue requestParts logSocketData log) input
    (expand '{' '}' (logValueOf requestParts logSocketData log) input)

/-- The placeholders of a template are replaced exactly when every opening brace has a closing one behind
it. -/
theorem placeholdersReplaced_iff (requestParts : Parts) (socketData : Option SocketData)
    (logSocketData : SocketData) (log : LogData) (input : Str) :
    PlaceholdersReplaced requestParts socketData logSocketData log input ↔ Closed '{' '}' input := by
  constructor
  · intro h
    exact (loopReturns_iff (placeholderValue_eq requestParts socketData)).1 h.header
  · intro hclosed
    exact ⟨(loopReturns_iff (placeholderValue_eq requestParts socketData)).2 hclosed,
      (loopReturns_iff (logPlaceholderValue_eq requestParts logSocketData log)).2 hclosed⟩

theorem root_no_question : '?' ∉ "/".toList := by decide

/-- A request for the root. -/
def rootParts : Parts where
  method := .get
  uri := ⟨"/".toList, none, root_no_question⟩
  headers := []
  version := .http11
  scheme := none
  authority := none

/-- A connection of the loopback address with itself. -/
def loopbackData : SocketData :=
  ⟨⟨.v4 0x7f000001#32, 40000⟩, ⟨.v4 0x7f000001#32, 80⟩, false⟩

/-- A brace alone keeps both copies going. -/
theorem not_placeholdersReplaced_brace :
    (¬ ∃ output, LoopReturns (placeholderValue rootParts (some loopbackData)) ['{'] output) ∧
      (¬ ∃ output, LoopReturns (logPlaceholderValue rootParts loopbackData ⟨none, [], 200, none⟩)
        ['{'] output) ∧
      ¬ PlaceholdersReplaced rootParts (some loopbackData) loopbackData ⟨none, [], 200, none⟩ ['{'] := by
  have hopen : ¬ Closed '{' '}' (List.drop (LoopState.mk 0 []).indexRbSaved ['{']) :=
    @not_closed_unclosed _ _ _ [] _ List.not_mem_nil
  have hloops : ∀ value, ¬ ∃ output, LoopReturns value ['{'] output := by
    rintro value ⟨output, rounds, hrun⟩
    rw [runLoop_of_not_closed hopen] at hrun
    nomatch hrun
  exact ⟨hloops _, hloops _, fun h => hloops _ ⟨_, h.header⟩⟩

end Ferron.Common
