import Ferron.Lib.Run
import Ferron.Rust.Text
import Mathlib.Data.List.Forall2

/-!
# The log files

The logging loop spawns a task for each message, and the task locks the file, makes the line and writes it
with one call of `write`. The order in which tasks get the lock is not the order of the messages, and a line
that does not fit in the buffer is written as far as the file accepts it.

In the runs in which the tasks of a file write in the order of their messages, and each write accepts its
whole line, the file with its buffer holds the lines of the messages that are not waiting
(`whole_of_inTurn`).
-/

set_option autoImplicit false

namespace Ferron.Observability.LogFile

open Ferron.Lib

/-! ## The buffered writer -/

/-- The capacity of the buffer. -/
def capacity : Nat := 131072

/-- `BufWriter`: what it has passed on to its file, and its buffer. -/
structure BufWriter where
  file : Bytes
  buffer : Bytes

/-- What the operating system says to a call: how many bytes of the buffer are passed on when flushing
fails, and how many bytes of data the file accepts at once, unless that fails. -/
structure Response where
  flushFails : Option Nat
  accepted : Option Nat

namespace BufWriter

/-- `flush`, and whether it succeeds. -/
def flush (writer : BufWriter) : Option Nat → BufWriter × Bool
  | none => (⟨writer.file ++ writer.buffer, []⟩, true)
  | some count => (⟨writer.file ++ writer.buffer.take count, writer.buffer.drop count⟩, false)

/-- Data go to the buffer, or to the file when they would fill the buffer. -/
def pass (writer : BufWriter) (data : Bytes) (accepted : Option Nat) : BufWriter × Option Nat :=
  if capacity ≤ data.length then
    match accepted with
    | none => (writer, none)
    | some count => ({ writer with file := writer.file ++ data.take count }, some (min count data.length))
  else ({ writer with buffer := writer.buffer ++ data }, some data.length)

/-- `write`: how many bytes were accepted, unless it fails. -/
def write (writer : BufWriter) (data : Bytes) (response : Response) : BufWriter × Option Nat :=
  if capacity < writer.buffer.length + data.length then
    match writer.flush response.flushFails with
    | (writer, false) => (writer, none)
    | (writer, true) => writer.pass data response.accepted
  else writer.pass data response.accepted

/-- What was accepted: it is in the file, or it will be. -/
def contents (writer : BufWriter) : Bytes := writer.file ++ writer.buffer

end BufWriter

/-! ## The backend -/

/-- `LogMessage`. -/
structure LogMessage where
  message : Bytes
  isError : Bool

/-- The line of a message, for the formatted time at which it is written. -/
def lineOf (message : LogMessage) (formattedTime : Bytes) : Bytes :=
  if message.isError then
    asciiBytes "[".toList ++ formattedTime ++ asciiBytes "]: ".toList ++ message.message ++ asciiBytes ['\n']
  else message.message ++ asciiBytes ['\n']

/-- A log: its writer, the messages that were received for it, and those whose tasks have not written yet,
in the order in which the tasks were spawned. -/
structure Log where
  writer : BufWriter
  received : List LogMessage
  tasks : List LogMessage

/-- The access log, for `false`, and the error log, when they could be opened. -/
abbrev Backend := Bool → Option Log

/-- What happens next: the loop receives a message, the task of a log with this index gets the lock and
writes, or a log is flushed. -/
inductive Action where
  | receive (message : LogMessage)
  | write (isError : Bool) (task : Nat) (formattedTime : Bytes) (response : Response)
  | flush (isError : Bool) (fails : Option Nat)

/-- A message is received, and its task is spawned. -/
def Log.receive (log : Log) (message : LogMessage) : Log :=
  { log with received := log.received ++ [message], tasks := log.tasks ++ [message] }

/-- A task writes. An error is printed only. -/
def Log.write (log : Log) (task : Nat) (formattedTime : Bytes) (response : Response) : Log :=
  match log.tasks[task]? with
  | some message =>
      { log with
        writer := (log.writer.write (lineOf message formattedTime) response).1
        tasks := log.tasks.eraseIdx task }
  | none => log

def Log.flush (log : Log) (fails : Option Nat) : Log :=
  { log with writer := (log.writer.flush fails).1 }

/-- What happens to one log. -/
def Backend.update (backend : Backend) (isError : Bool) (f : Log → Log) : Backend :=
  Function.update backend isError ((backend isError).map f)

def step (backend : Backend) : Action → Backend
  | .receive message => backend.update message.isError fun log => log.receive message
  | .write isError task formattedTime response =>
      backend.update isError fun log => log.write task formattedTime response
  | .flush isError fails => backend.update isError fun log => log.flush fails

/-- The backend before its first message, with the files that there are. -/
def start (files : Bool → Option Bytes) : Backend :=
  fun isError => (files isError).map fun file => ⟨⟨file, []⟩, [], []⟩

/-! ## What a log is for -/

/-- A line of the message, with any time. -/
def IsLine (message : LogMessage) (line : Bytes) : Prop :=
  ∃ formattedTime, line = lineOf message formattedTime

/-- Behind what the file had at first, the log has the lines of the messages that are not waiting, whole and
in the order of their receipt. -/
def Log.Whole (file : Bytes) (log : Log) : Prop :=
  ∃ messages lines, log.received = messages ++ log.tasks ∧ List.Forall₂ IsLine messages lines ∧
    log.writer.contents = file ++ lines.flatten

/-- Both logs are whole. -/
def Whole (files : Bool → Option Bytes) (backend : Backend) : Prop :=
  ∀ isError, ∀ file ∈ files isError, ∀ log ∈ backend isError, log.Whole file

/-- The write accepts all data: the buffer can be flushed if it has to be, and the data do not fill the
buffer or the file accepts all of them. -/
def BufWriter.Accepts (writer : BufWriter) (data : Bytes) (response : Response) : Prop :=
  (capacity < writer.buffer.length + data.length → response.flushFails = none) ∧
    (capacity ≤ data.length → ∃ count, response.accepted = some count ∧ data.length ≤ count)

/-- A task that writes is the first one of its log, and its line is accepted. -/
def InTurn (backend : Backend) : Action → Prop
  | .write isError task formattedTime response => ∀ log ∈ backend isError, ∀ message,
      log.tasks[task]? = some message →
        task = 0 ∧ log.writer.Accepts (lineOf message formattedTime) response
  | _ => True

/-! ## The writer -/

theorem contents_flush (writer : BufWriter) (fails : Option Nat) :
    (writer.flush fails).1.contents = writer.contents := by
  cases fails with
  | none => exact List.append_nil _
  | some count =>
      change (writer.file ++ writer.buffer.take count) ++ writer.buffer.drop count = _
      rw [List.append_assoc, List.take_append_drop]
      rfl

theorem contents_pass {writer : BufWriter} {data : Bytes} {accepted : Option Nat}
    (h : capacity ≤ data.length → ∃ count, accepted = some count ∧ data.length ≤ count)
    (hbuffer : capacity ≤ data.length → writer.buffer = []) :
    (writer.pass data accepted).1.contents = writer.contents ++ data := by
  unfold BufWriter.pass
  split
  · next hlength =>
      obtain ⟨count, rfl, hcount⟩ := h hlength
      change (writer.file ++ data.take count) ++ writer.buffer = writer.file ++ writer.buffer ++ data
      rw [hbuffer hlength, List.take_of_length_le hcount, List.append_nil, List.append_nil]
  · exact (List.append_assoc _ _ _).symm

/-- A write that accepts all data puts them behind what was accepted before. -/
theorem contents_write {writer : BufWriter} {data : Bytes} {response : Response}
    (h : writer.Accepts data response) :
    (writer.write data response).1.contents = writer.contents ++ data := by
  unfold BufWriter.write
  split
  · next hfull =>
      rw [h.1 hfull]
      refine (contents_pass h.2 fun _ => rfl).trans ?_
      rw [← contents_flush writer none]
      rfl
  · next hfits =>
      refine contents_pass h.2 fun hlength => ?_
      -- data that fill the buffer fit only in an empty one
      have hempty : writer.buffer.length = 0 := by omega
      exact List.length_eq_zero_iff.1 hempty

/-! ## The runs -/

theorem Log.Whole.receive {file : Bytes} {log : Log} (h : log.Whole file) (message : LogMessage) :
    (log.receive message).Whole file := by
  obtain ⟨messages, lines, hreceived, hlines, hcontents⟩ := h
  refine ⟨messages, lines, ?_, hlines, hcontents⟩
  change log.received ++ [message] = messages ++ (log.tasks ++ [message])
  rw [hreceived, List.append_assoc]

theorem Log.Whole.flush {file : Bytes} {log : Log} (h : log.Whole file) (fails : Option Nat) :
    (log.flush fails).Whole file := by
  obtain ⟨messages, lines, hreceived, hlines, hcontents⟩ := h
  exact ⟨messages, lines, hreceived, hlines, (contents_flush _ _).trans hcontents⟩

theorem Log.Whole.write {file : Bytes} {log : Log} (h : log.Whole file) {task : Nat} {formattedTime : Bytes}
    {response : Response} (hturn : ∀ message, log.tasks[task]? = some message →
      task = 0 ∧ log.writer.Accepts (lineOf message formattedTime) response) :
    (log.write task formattedTime response).Whole file := by
  unfold Log.write
  cases htask : log.tasks[task]? with
  | none => exact h
  | some message =>
      obtain ⟨rfl, haccepts⟩ := hturn message htask
      obtain ⟨messages, lines, hreceived, hlines, hcontents⟩ := h
      obtain ⟨rest, htasks⟩ : ∃ rest, log.tasks = message :: rest := by
        cases hall : log.tasks with
        | nil =>
            rw [hall] at htask
            cases htask
        | cons first rest =>
            rw [hall] at htask
            exact ⟨rest, by rw [Option.some.inj htask]⟩
      refine ⟨messages ++ [message], lines ++ [lineOf message formattedTime], ?_,
        List.rel_append hlines (.cons ⟨formattedTime, rfl⟩ .nil), ?_⟩
      · change log.received = messages ++ [message] ++ log.tasks.eraseIdx 0
        rw [hreceived, htasks, List.eraseIdx_cons_zero, List.append_assoc]
        rfl
      · refine (contents_write haccepts).trans ?_
        rw [hcontents, List.flatten_append, List.append_assoc]
        simp

/-- What holds of each log and is kept by what happens to one of them. -/
theorem whole_update {files : Bool → Option Bytes} {backend : Backend} (h : Whole files backend)
    {isError : Bool} {f : Log → Log}
    (hf : ∀ file ∈ files isError, ∀ log ∈ backend isError, log.Whole file → (f log).Whole file) :
    Whole files (backend.update isError f) := by
  intro other file hfile log hlog
  by_cases heq : other = isError
  · subst heq
    rw [Backend.update, Function.update_self] at hlog
    obtain ⟨before, hbefore, rfl⟩ := Option.map_eq_some_iff.1 hlog
    exact hf file hfile before hbefore (h other file hfile before hbefore)
  · rw [Backend.update, Function.update_of_ne heq] at hlog
    exact h other file hfile log hlog

theorem whole_step {files : Bool → Option Bytes} {backend : Backend} {action : Action}
    (hturn : InTurn backend action) (h : Whole files backend) : Whole files (step backend action) := by
  cases action with
  | receive message => exact whole_update h fun _ _ log _ hlog => hlog.receive message
  | write isError task formattedTime response =>
      exact whole_update h fun _ _ log hmem hlog => hlog.write (hturn log hmem)
  | flush isError fails => exact whole_update h fun _ _ log _ hlog => hlog.flush fails

theorem whole_start (files : Bool → Option Bytes) : Whole files (start files) := by
  intro isError file hfile log hlog
  have hlog' := hlog
  rw [start, hfile] at hlog'
  obtain rfl := Option.some.inj hlog'
  exact ⟨[], [], rfl, .nil, rfl⟩

/-- **Log lines are whole and in order** in every run in which the tasks of a log write in the order of
their messages and each write accepts its line. -/
theorem whole_of_inTurn (files : Bool → Option Bytes) (actions : List Action)
    (hturn : Run.AllSteps step InTurn (start files) actions) :
    Whole files (Run.run step (start files) actions) :=
  Run.run_invariant (fun _ _ hok h => whole_step hok h) (whole_start files) hturn

/-- Two messages of the access log, a flush between the two writes. -/
theorem whole_of_inTurn_two :
    Whole (fun _ => some []) (Run.run step (start fun _ => some [])
      [.receive ⟨asciiBytes "a".toList, false⟩, .receive ⟨asciiBytes "b".toList, false⟩,
        .write false 0 [] ⟨none, none⟩, .flush false none, .write false 0 [] ⟨none, none⟩]) := by
  refine whole_of_inTurn _ _ ⟨trivial, trivial, ?_, trivial, ?_, trivial⟩
  · rintro log ⟨rfl⟩ message ⟨rfl⟩
    exact ⟨rfl, fun h => absurd h (by decide), fun h => absurd h (by decide)⟩
  · rintro log ⟨rfl⟩ message ⟨rfl⟩
    exact ⟨rfl, fun h => absurd h (by decide), fun h => absurd h (by decide)⟩

/-! ## Lines that are not whole or not in order -/

/-- Messages that are no errors have one line each. -/
theorem lines_eq {messages : List LogMessage} {lines : List Bytes} (h : List.Forall₂ IsLine messages lines)
    (haccess : ∀ message ∈ messages, message.isError = false) :
    lines = messages.map (lineOf · []) := by
  induction h with
  | nil => rfl
  | @cons message line messages lines hline _ ih =>
      have hmessage := haccess message List.mem_cons_self
      obtain ⟨formattedTime, rfl⟩ := hline
      have hsame : lineOf message formattedTime = lineOf message [] := by
        rw [lineOf, lineOf, hmessage]
        rfl
      rw [List.map_cons, hsame, ih fun other hother => haccess other (List.mem_cons_of_mem _ hother)]

/-- When no task waits, a whole access log has the lines of its messages. -/
theorem contents_of_whole {file : Bytes} {log : Log} (h : log.Whole file) (htasks : log.tasks = [])
    (haccess : ∀ message ∈ log.received, message.isError = false) :
    log.writer.contents = file ++ (log.received.map (lineOf · [])).flatten := by
  obtain ⟨messages, lines, hreceived, hlines, hcontents⟩ := h
  rw [htasks, List.append_nil] at hreceived
  rw [hcontents, hreceived, lines_eq hlines (hreceived ▸ haccess)]

/-- A line that fills the buffer is cut where the file accepts less of it. -/
theorem not_whole_of_cut (text : Bytes) (hlength : capacity ≤ text.length) (count : Nat)
    (hcount : count ≤ text.length) :
    ¬Whole (fun _ => some []) (Run.run step (start fun _ => some [])
      [.receive ⟨text, false⟩, .write false 0 [] ⟨none, some count⟩]) := by
  intro h
  let line := text ++ asciiBytes ['\n']
  have hline : line.length = text.length + 1 := List.length_append
  -- the line goes to the file, whether an empty buffer has to be flushed or not
  have hwrite : ((⟨[], []⟩ : BufWriter).write line ⟨none, some count⟩).1 = ⟨line.take count, []⟩ := by
    unfold BufWriter.write BufWriter.pass BufWriter.flush
    rw [if_pos (show capacity < ([] : Bytes).length + line.length by rw [hline]; simp; omega)]
    dsimp only
    rw [if_pos (show capacity ≤ line.length by omega)]
    rfl
  have hwhole :=
    h false [] rfl ⟨((⟨[], []⟩ : BufWriter).write line ⟨none, some count⟩).1, [⟨text, false⟩], []⟩ rfl
  have hcontents := contents_of_whole hwhole rfl fun message hmem => by
    rw [List.mem_singleton.1 hmem]
  have hlength := congrArg List.length hcontents
  rw [hwrite] at hlength
  change (line.take count ++ []).length = ([] ++ ([line] : List Bytes).flatten).length at hlength
  simp at hlength
  omega

/-- The task of the second message gets the lock first. -/
def swappedTasks : List Action :=
  [.receive ⟨asciiBytes "a".toList, false⟩, .receive ⟨asciiBytes "b".toList, false⟩,
    .write false 1 [] ⟨none, none⟩, .write false 0 [] ⟨none, none⟩]

/-- The second line stands before the first one. -/
theorem swappedTasks_not_whole :
    ((Run.run step (start fun _ => some []) swappedTasks false).map fun log => log.writer.contents) =
        some (asciiBytes "b\na\n".toList) ∧
      ¬Whole (fun _ => some []) (Run.run step (start fun _ => some []) swappedTasks) := by
  refine ⟨by decide, fun h => ?_⟩
  have hcontents := contents_of_whole (h false [] rfl _ rfl) rfl (by decide)
  exact absurd hcontents (by decide)

end Ferron.Observability.LogFile
