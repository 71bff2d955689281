import Ferron.Http.Body
import Ferron.Lib.FairRun
import Mathlib.Tactic

/-!
# File streams

There are two streams of the chunks of a file from one position to another. `MonoioFileStream` has a task in
the background that reads the chunks and sends them through a channel; `MonoioFileStreamNoSpawn` reads a
chunk when it is polled. The first one moves its position before a chunk is sent and looks for the end before
each read, the second one does both when a read is done.

`streams_deliver` says that both deliver the bytes between the positions, however the reads, the task and the
polls go, that an error is the error of a read, and that neither subtracts a position from an end before it.
-/

set_option autoImplicit false

namespace Ferron.Common.MonoioFileStream

open Ferron.Http Ferron.Lib.Run Ferron.Lib.FairRun

/-- `MAX_BUFFER_SIZE`. -/
def maxBufferSize : Nat := 16384

/-- `MAX_CHANNEL_CAPACITY`. -/
def maxChannelCapacity : Nat := 2

/-- A file. Each read, for so many bytes at a position, gets some number of bytes or fails; it gets none only
at the end of the file. -/
structure File where
  content : Bytes
  length_lt : content.length < 2 ^ 64
  read (turn size : Nat) (position : UInt64) : Except IoError Nat
  read_le {turn size : Nat} {position : UInt64} {n : Nat} :
    read turn size position = .ok n → n ≤ size ∧ n ≤ content.length - position.toNat
  read_zero {turn size : Nat} {position : UInt64} :
    read turn size position = .ok 0 → size = 0 ∨ content.length ≤ position.toNat

/-- `read_at`. -/
def File.readAt (file : File) (turn size : Nat) (position : UInt64) : Except IoError Bytes :=
  (file.read turn size position).map fun n => (file.content.drop position.toNat).take n

/-- No read of the file fails. -/
def File.NeverFails (file : File) : Prop := ∀ turn size position err, file.read turn size position ≠ .error err

/-- An item of a stream. -/
abbrev Item := Except IoError Bytes

/-- `buffer_sz`. The difference wraps around when the position is behind the end. -/
def bufferSz (stop : Option UInt64) (position : UInt64) : Nat :=
  stop.elim maxBufferSize fun n => min (n - position).toNat maxBufferSize

/-! ## The stream with a task -/

/-- Where the task is: it reads at a position, it sends what it has read, or it has ended. -/
inductive Task where
  | reading (currentPos : UInt64)
  | sending (item : Item) (currentPos : UInt64)
  | ended

/-- The task, the channel, the items that have been received, whether the end of the stream has been
returned, whether the stream has been dropped, and the number of reads so far. -/
structure Spawned where
  task : Task
  channel : List Item
  received : List Item
  ended : Bool
  dropped : Bool
  reads : Nat

/-- The task goes on, the stream is polled, or it is dropped. -/
inductive SpawnedAction where
  | task
  | poll
  | drop
  deriving DecidableEq

namespace Spawned

/-- `MonoioFileStream::new`. -/
def new (start : Option UInt64) : Spawned := ⟨.reading (start.getD 0), [], [], false, false, 0⟩

section Step

variable (file : File) (stop : Option UInt64)

/-- The task goes on. Sending waits for room in the channel. -/
def taskStep (state : Spawned) : Spawned :=
  match state.task with
  | .reading currentPos =>
      if bufferSz stop currentPos = 0 || state.dropped then { state with task := .ended }
      else
        let next := { state with reads := state.reads + 1 }
        match file.readAt state.reads (bufferSz stop currentPos) currentPos with
        | .ok [] => { next with task := .ended }
        | .ok (byte :: bytes) =>
            { next with
              task := .sending (.ok (byte :: bytes))
                (currentPos + UInt64.ofNat (byte :: bytes).length) }
        | .error err => { next with task := .sending (.error err) currentPos }
  | .sending item currentPos =>
      if state.dropped then { state with task := .ended }
      else if state.channel.length < maxChannelCapacity then
        { state with
          channel := state.channel ++ [item]
          task := match item with
            | .ok _ => .reading currentPos
            | .error _ => .ended }
      else state
  | .ended => state

/-- `poll_next`. The channel is closed when the task has ended. -/
def poll (state : Spawned) : Spawned :=
  match state.dropped, state.channel, state.task with
  | true, _, _ => state
  | false, item :: channel, _ => { state with channel := channel, received := state.received ++ [item] }
  | false, [], .ended => { state with ended := true }
  | false, [], _ => state

/-- One step of the stream and its task. -/
def step (state : Spawned) : SpawnedAction → Spawned
  | .task => taskStep file stop state
  | .poll => state.poll
  | .drop => { state with dropped := true }

end Step

end Spawned

/-! ## The stream without a task -/

/-- The stream, the items that it has yielded, whether it has returned its end, and the number of reads so
far. The read that is under way has a position of its own. -/
structure NoSpawn where
  currentPos : UInt64
  finished : Bool
  readFuture : Option UInt64
  yielded : List Item
  ended : Bool
  reads : Nat

namespace NoSpawn

/-- `MonoioFileStreamNoSpawn::new`. -/
def new (start : Option UInt64) : NoSpawn := ⟨start.getD 0, false, none, [], false, 0⟩

section Step

variable (file : File) (stop : Option UInt64)

/-- `read_chunk`. -/
def readChunk (turn : Nat) (pos : UInt64) : Option Item :=
  if bufferSz stop pos = 0 then none
  else
    match file.readAt turn (bufferSz stop pos) pos with
    | .ok [] => none
    | .ok (byte :: bytes) => some (.ok (byte :: bytes))
    | .error err => some (.error err)

/-- `poll_next`. The read that is under way is done or not; nothing is read into an empty buffer. -/
def pollNext (state : NoSpawn) (readDone : Bool) : NoSpawn :=
  if state.finished then { state with ended := true }
  else
    let pos := state.readFuture.getD state.currentPos
    if bufferSz stop pos = 0 || readDone then
      let next := { state with readFuture := none, reads := state.reads + 1 }
      match readChunk file stop state.reads pos with
      | some (.ok chunk) =>
          let currentPos := state.currentPos + UInt64.ofNat chunk.length
          { next with
            currentPos := currentPos
            finished := stop.any fun n => decide (n ≤ currentPos)
            yielded := state.yielded ++ [.ok chunk] }
      | some (.error err) => { next with yielded := state.yielded ++ [.error err] }
      | none => { next with finished := true, ended := true }
    else { state with readFuture := some pos }

end Step

end NoSpawn

/-! ## What is delivered -/

/-- The bytes up to the first error. -/
def delivered : List Item → Bytes
  | .ok chunk :: items => chunk ++ delivered items
  | _ => []

@[simp] theorem delivered_nil : delivered [] = [] := rfl

@[simp] theorem delivered_ok_cons (chunk : Bytes) (items : List Item) :
    delivered (.ok chunk :: items) = chunk ++ delivered items := rfl

@[simp] theorem delivered_error_cons (err : IoError) (items : List Item) :
    delivered (.error err :: items) = [] := rfl

section Delivery

variable (file : File) (start stop : Option UInt64)

/-- The bytes between the positions. -/
def requested : Bytes :=
  (stop.elim file.content fun n => file.content.take n.toNat).drop (start.getD 0).toNat

/-- A position that the streams may come to. -/
structure Positioned (position : UInt64) : Prop where
  start_le : start.getD 0 ≤ position
  le_stop : ∀ n ∈ stop, position ≤ n
  bound : position = start.getD 0 ∨ position.toNat ≤ file.content.length

/-- One of the first reads, at a position of the streams, has failed so. -/
def FailedRead (reads : Nat) (err : IoError) : Prop :=
  ∃ turn < reads, ∃ position, Positioned file start stop position ∧
    file.readAt turn (bufferSz stop position) position = .error err

/-- The items are part of what is requested, and they are all of it at the end without an error. Each error
comes from a read. -/
structure Delivers (items : List Item) (reads : Nat) (ended : Bool) : Prop where
  prefix_requested : delivered items <+: requested file start stop
  complete : ended = true → (∀ item ∈ items, ∃ chunk, item = .ok chunk) →
    delivered items = requested file start stop
  errors : ∀ err, .error err ∈ items → FailedRead file start stop reads err

/-- The items are the bytes up to the position. -/
structure Reading (position : UInt64) (items : List Item) : Prop
    extends Positioned file start stop position where
  allOk : ∃ parts : List Bytes, items = parts.map .ok ∧
    parts.flatten = (file.content.take position.toNat).drop (start.getD 0).toNat

/-- The items are the bytes up to a position and then an error. -/
def Failed (items : List Item) : Prop :=
  ∃ before err after position, items = before ++ .error err :: after ∧
    Reading file start stop position before

/-- The items are all the bytes that are requested. -/
def Complete (items : List Item) : Prop :=
  ∃ position, Reading file start stop position items ∧ delivered items = requested file start stop

/-- The number of bytes that are left at a position. -/
def left (position : UInt64) : Nat :=
  stop.elim file.content.length (fun n => min n.toNat file.content.length) - position.toNat

end Delivery

/-! ## Reads -/

section Reads

variable {file : File} {start stop : Option UInt64} {position : UInt64} {items : List Item}

theorem delivered_append (parts : List Bytes) (rest : List Item) :
    delivered (parts.map .ok ++ rest) = parts.flatten ++ delivered rest := by
  induction parts with
  | nil => rfl
  | cons part parts ih =>
      rw [List.map_cons, List.cons_append, delivered_ok_cons, ih, List.flatten_cons, List.append_assoc]

theorem delivered_isPrefix (items more : List Item) : delivered items <+: delivered (items ++ more) := by
  induction items with
  | nil => exact List.nil_prefix
  | cons item items ih =>
      cases item with
      | ok chunk =>
          rw [List.cons_append, delivered_ok_cons, delivered_ok_cons, List.prefix_append_right_inj]
          exact ih
      | error err => exact List.nil_prefix

/-- What a read gets: bytes of the file from the position on, at most as many as there is room for. -/
theorem File.of_readAt {turn size : Nat} {chunk : Bytes} (h : file.readAt turn size position = .ok chunk) :
    chunk = (file.content.drop position.toNat).take chunk.length ∧ chunk.length ≤ size ∧
      chunk.length ≤ file.content.length - position.toNat ∧
      (chunk = [] → size = 0 ∨ file.content.length ≤ position.toNat) := by
  rw [File.readAt] at h
  cases hread : file.read turn size position with
  | error err =>
      rw [hread] at h
      cases h
  | ok n =>
      rw [hread] at h
      obtain ⟨hsize, hrest⟩ := file.read_le hread
      have hchunk : (file.content.drop position.toNat).take n = chunk := Except.ok.inj h
      have hlength : chunk.length = n := by
        rw [← hchunk, List.length_take, List.length_drop]
        omega
      refine ⟨by rw [hlength, hchunk], hlength ▸ hsize, hlength ▸ hrest, fun hempty => ?_⟩
      rw [hempty, List.length_nil] at hlength
      exact file.read_zero (hlength ▸ hread)

/-- The room for a read, at a position that is not behind the end. -/
theorem bufferSz_le (h : ∀ n ∈ stop, position ≤ n) {n : UInt64} (hn : n ∈ stop) :
    bufferSz stop position ≤ n.toNat - position.toNat := by
  rw [Option.mem_def.1 hn, bufferSz]
  dsimp only [Option.elim]
  rw [UInt64.toNat_sub_of_le _ _ (h n hn)]
  exact min_le_left _ _

/-- There is no room only at the end. -/
theorem eq_of_bufferSz (h : ∀ n ∈ stop, position ≤ n) (hsize : bufferSz stop position = 0) :
    stop = some position := by
  cases stop with
  | none => exact absurd hsize (show maxBufferSize ≠ 0 by decide)
  | some n =>
      rw [bufferSz] at hsize
      dsimp only [Option.elim] at hsize
      have hle := h n rfl
      rw [UInt64.toNat_sub_of_le _ _ hle] at hsize
      have hle' := UInt64.le_iff_toNat_le.1 hle
      congr 1
      apply UInt64.toNat_inj.1
      rw [maxBufferSize] at hsize
      omega

/-- The position behind a chunk. -/
theorem toNat_advance {turn size : Nat} {chunk : Bytes}
    (h : file.readAt turn size position = .ok chunk) (hne : chunk ≠ []) :
    (position + UInt64.ofNat chunk.length).toNat = position.toNat + chunk.length ∧
      position.toNat + chunk.length ≤ file.content.length := by
  obtain ⟨-, -, hrest, -⟩ := File.of_readAt h
  have hpos : 0 < chunk.length := List.length_pos_of_ne_nil hne
  have hlength := file.length_lt
  refine ⟨?_, by omega⟩
  rw [UInt64.toNat_add, UInt64.toNat_ofNat']
  omega

/-- A read goes on to a position. -/
theorem Positioned.advance (h : Positioned file start stop position) {turn : Nat} {chunk : Bytes}
    (hread : file.readAt turn (bufferSz stop position) position = .ok chunk) (hne : chunk ≠ []) :
    Positioned file start stop (position + UInt64.ofNat chunk.length) := by
  obtain ⟨hnext, hbound⟩ := toNat_advance hread hne
  obtain ⟨-, hsize, -⟩ := File.of_readAt hread
  have hpos : 0 < chunk.length := List.length_pos_of_ne_nil hne
  refine ⟨?_, fun n hn => ?_, .inr (hnext ▸ hbound)⟩
  · have hstart := UInt64.le_iff_toNat_le.1 h.start_le
    rw [UInt64.le_iff_toNat_le, hnext]
    omega
  · have hroom := bufferSz_le h.le_stop hn
    rw [UInt64.le_iff_toNat_le, hnext]
    omega

/-- A read appends a chunk. -/
theorem Reading.advance (h : Reading file start stop position items) {turn : Nat} {chunk : Bytes}
    (hread : file.readAt turn (bufferSz stop position) position = .ok chunk) (hne : chunk ≠ []) :
    Reading file start stop (position + UInt64.ofNat chunk.length) (items ++ [.ok chunk]) := by
  obtain ⟨hnext, hbound⟩ := toNat_advance hread hne
  obtain ⟨hchunk, -⟩ := File.of_readAt hread
  obtain ⟨parts, hitems, hparts⟩ := h.allOk
  refine ⟨h.toPositioned.advance hread hne, parts ++ [chunk], ?_, ?_⟩
  · rw [hitems, List.map_append]
    rfl
  · have hstart := UInt64.le_iff_toNat_le.1 h.start_le
    rw [List.flatten_append, List.flatten_singleton, hparts, hnext, List.take_add, List.drop_append,
      List.length_take, ← hchunk]
    congr 1
    have hnone : (start.getD 0).toNat - min position.toNat file.content.length = 0 := by omega
    rw [hnone, List.drop_zero]

/-- What is requested starts with the bytes up to a position. -/
theorem Positioned.prefix_requested (h : Positioned file start stop position) :
    (file.content.take position.toNat).drop (start.getD 0).toNat <+: requested file start stop := by
  rw [requested]
  apply List.IsPrefix.drop
  cases stop with
  | none => exact List.take_prefix _ _
  | some n => exact List.take_prefix_take_left (UInt64.le_iff_toNat_le.1 (h.le_stop n rfl))

theorem Reading.delivered_append (h : Reading file start stop position items) (rest : List Item) :
    delivered (items ++ rest) =
      (file.content.take position.toNat).drop (start.getD 0).toNat ++ delivered rest := by
  obtain ⟨parts, hitems, hparts⟩ := h.allOk
  rw [hitems, MonoioFileStream.delivered_append, hparts]

theorem Reading.delivered_eq (h : Reading file start stop position items) :
    delivered items = (file.content.take position.toNat).drop (start.getD 0).toNat := by
  have happend := h.delivered_append []
  rwa [delivered_nil, List.append_nil, List.append_nil] at happend

/-- At the end of the file, or of what is requested, everything has been read. -/
theorem Reading.complete (h : Reading file start stop position items)
    (hend : stop = some position ∨ file.content.length ≤ position.toNat) :
    Complete file start stop items := by
  refine ⟨position, h, ?_⟩
  rw [h.delivered_eq, requested]
  congr 1
  rcases hend with hstop | hlength
  · rw [hstop]
    rfl
  · rw [List.take_of_length_le hlength]
    cases hstop : stop with
    | none => rfl
    | some n =>
        have hle := UInt64.le_iff_toNat_le.1 (h.le_stop n hstop)
        exact (List.take_of_length_le (hlength.trans hle)).symm

theorem Reading.delivers (h : Reading file start stop position items) :
    delivered items <+: requested file start stop := h.delivered_eq ▸ h.prefix_requested

theorem FailedRead.mono {reads more : Nat} {err : IoError} (h : FailedRead file start stop reads err)
    (hle : reads ≤ more) : FailedRead file start stop more err := by
  obtain ⟨turn, hturn, hread⟩ := h
  exact ⟨turn, hturn.trans_le hle, hread⟩

theorem FailedRead.of_readAt {reads : Nat} {err : IoError} (h : Positioned file start stop position)
    (hread : file.readAt reads (bufferSz stop position) position = .error err) :
    FailedRead file start stop (reads + 1) err := ⟨reads, Nat.lt_succ_self reads, position, h, hread⟩

theorem Complete.delivers (h : Complete file start stop items) {reads : Nat} (ended : Bool)
    (herrors : ∀ err, .error err ∈ items → FailedRead file start stop reads err) :
    Delivers file start stop items reads ended := by
  obtain ⟨position, -, hall⟩ := h
  exact ⟨hall ▸ List.prefix_rfl, fun _ _ => hall, herrors⟩

theorem Failed.delivers (h : Failed file start stop items) {reads : Nat} (ended : Bool)
    (herrors : ∀ err, .error err ∈ items → FailedRead file start stop reads err) :
    Delivers file start stop items reads ended := by
  obtain ⟨before, err, after, position, rfl, hreading⟩ := h
  refine ⟨?_, ?_, herrors⟩
  · rw [hreading.delivered_append, delivered_error_cons, List.append_nil]
    exact hreading.prefix_requested
  · intro _ hall
    obtain ⟨chunk, hchunk⟩ := hall (.error err) (List.mem_append_right _ List.mem_cons_self)
    cases hchunk

/-- Reads that never fail leave no errors. -/
theorem Delivers.not_error {reads : Nat} {ended : Bool} (h : Delivers file start stop items reads ended)
    (hnever : file.NeverFails) (err : IoError) : .error err ∉ items := by
  intro hmem
  obtain ⟨turn, -, position, -, hread⟩ := h.errors err hmem
  rw [File.readAt] at hread
  cases hresult : file.read turn (bufferSz stop position) position with
  | error other => exact hnever _ _ _ _ hresult
  | ok n =>
      rw [hresult] at hread
      cases hread

/-- Without failing reads the end comes behind all bytes that are requested. -/
theorem Delivers.delivered_eq {reads : Nat} (h : Delivers file start stop items reads true)
    (hnever : file.NeverFails) : delivered items = requested file start stop := by
  refine h.complete rfl fun item hitem => ?_
  cases item with
  | ok chunk => exact ⟨chunk, rfl⟩
  | error err => exact absurd hitem (h.not_error hnever err)

/-- A read lowers the number of bytes that are left. -/
theorem Positioned.left_lt (h : Positioned file start stop position) {turn : Nat} {chunk : Bytes}
    (hread : file.readAt turn (bufferSz stop position) position = .ok chunk) (hne : chunk ≠ []) :
    left file stop (position + UInt64.ofNat chunk.length) < left file stop position := by
  obtain ⟨hnext, hbound⟩ := toNat_advance hread hne
  obtain ⟨-, hsize, -⟩ := File.of_readAt hread
  have hpos : 0 < chunk.length := List.length_pos_of_ne_nil hne
  rw [left, left, hnext]
  cases hstop : stop with
  | none =>
      dsimp only [Option.elim]
      omega
  | some n =>
      have hroom := bufferSz_le h.le_stop hstop
      dsimp only [Option.elim]
      omega

end Reads

/-! ## Steps -/

section Steps

variable {file : File} {start stop : Option UInt64}

/-- The items that the task has sent. -/
def Spawned.sent (state : Spawned) : List Item := state.received ++ state.channel

/-- What the task has come to. After an end that nobody has caused, everything is sent up to an error. -/
structure Spawned.Inv (file : File) (start stop : Option UInt64) (state : Spawned) : Prop where
  task : match state.task with
    | .reading currentPos => Reading file start stop currentPos state.sent
    | .sending (.ok chunk) currentPos => Reading file start stop currentPos (state.sent ++ [.ok chunk])
    | .sending (.error _) currentPos => Reading file start stop currentPos state.sent
    | .ended => Complete file start stop state.sent ∨ Failed file start stop state.sent ∨
        state.dropped = true ∧ state.ended = false ∧
          ∃ more position, Reading file start stop position (state.sent ++ more)
  ended : state.ended = true → state.task = .ended ∧ state.channel = []
  errors : ∀ err, (.error err ∈ state.sent ∨ ∃ currentPos, state.task = .sending (.error err) currentPos) →
    FailedRead file start stop state.reads err

/-- The stream at its start. -/
theorem reading_nil (h : ∀ n ∈ stop, start.getD 0 ≤ n) :
    Reading file start stop (start.getD 0) [] where
  start_le := UInt64.le_refl _
  le_stop := h
  bound := .inl rfl
  allOk := by
    refine ⟨[], rfl, ?_⟩
    rw [List.flatten_nil, List.drop_eq_nil_of_le]
    exact List.length_take_le _ _

theorem Spawned.inv_new (h : ∀ n ∈ stop, start.getD 0 ≤ n) : (Spawned.new start).Inv file start stop where
  task := reading_nil h
  ended h := Bool.noConfusion h
  errors := by
    rintro err (herror | ⟨currentPos, htask⟩)
    · exact absurd herror List.not_mem_nil
    · cases htask

theorem Spawned.Inv.taskStep {state : Spawned} (h : state.Inv file start stop) :
    (state.taskStep file stop).Inv file start stop := by
  obtain ⟨task, channel, received, ended, dropped, reads⟩ := state
  obtain ⟨htask, hended, herrors⟩ := h
  -- what has been sent has the errors of reads, and there may be a read more
  have hsent : ∀ err, .error err ∈ received ++ channel → FailedRead file start stop reads err :=
    fun err hmem => herrors err (.inl hmem)
  have hmore : ∀ err, .error err ∈ received ++ channel → FailedRead file start stop (reads + 1) err :=
    fun err hmem => (hsent err hmem).mono (Nat.le_succ reads)
  rw [Spawned.taskStep]
  cases task with
  | ended => exact ⟨htask, hended, herrors⟩
  | reading currentPos =>
      have hopen : ¬ended = true := fun h => Task.noConfusion (hended h).1
      dsimp only at htask ⊢
      split
      · -- the loop ends, at the end of what is requested or because nobody waits
        rename_i hloop
        refine ⟨?_, fun h => absurd h hopen, fun err h => hsent err (h.resolve_right fun ⟨_, h⟩ => nomatch h)⟩
        rcases Bool.or_eq_true_iff.1 hloop with hsize | hdropped
        · exact .inl (htask.complete (.inl (eq_of_bufferSz htask.le_stop (of_decide_eq_true hsize))))
        · refine .inr (.inr ⟨hdropped, Bool.eq_false_iff.2 hopen, [], currentPos, ?_⟩)
          rwa [List.append_nil]
      · rename_i hloop
        have hsize : bufferSz stop currentPos ≠ 0 := fun h => hloop (by rw [h]; rfl)
        split
        · rename_i hread
          refine ⟨.inl (htask.complete (.inr ?_)), fun h => absurd h hopen,
            fun err h => hmore err (h.resolve_right fun ⟨_, h⟩ => nomatch h)⟩
          exact ((File.of_readAt hread).2.2.2 rfl).resolve_left hsize
        · rename_i hread
          exact ⟨htask.advance hread (List.cons_ne_nil _ _), fun h => absurd h hopen,
            fun err h => hmore err (h.resolve_right fun ⟨_, h⟩ => nomatch h)⟩
        · rename_i err hread
          refine ⟨htask, fun h => absurd h hopen, ?_⟩
          rintro other (hmem | ⟨_, hother⟩)
          · exact hmore other hmem
          · cases hother
            exact .of_readAt htask.toPositioned hread
  | sending item currentPos =>
      have hopen : ¬ended = true := fun h => Task.noConfusion (hended h).1
      dsimp only
      split
      · -- the item is lost with the stream
        rename_i hdropped
        refine ⟨.inr (.inr ⟨hdropped, Bool.eq_false_iff.2 hopen, ?_⟩), fun h => absurd h hopen,
          fun err h => hsent err (h.resolve_right fun ⟨_, h⟩ => nomatch h)⟩
        cases item with
        | ok chunk => exact ⟨[.ok chunk], currentPos, htask⟩
        | error err =>
            refine ⟨[], currentPos, ?_⟩
            rw [List.append_nil]
            exact htask
      · split
        · refine ⟨?_, fun h => absurd h hopen, ?_⟩
          · cases item with
            | ok chunk =>
                dsimp only [Spawned.sent] at htask ⊢
                rwa [← List.append_assoc]
            | error err =>
                refine .inr (.inl ⟨received ++ channel, err, [], currentPos, ?_, htask⟩)
                exact (List.append_assoc _ _ _).symm
          · rintro err (hmem | ⟨_, hnext⟩)
            · dsimp only [Spawned.sent] at hmem
              rw [← List.append_assoc] at hmem
              rcases List.mem_append.1 hmem with hmem | hmem
              · exact hsent err hmem
              · exact herrors err (.inr ⟨currentPos, by rw [List.mem_singleton.1 hmem]⟩)
            · cases item <;> cases hnext
        · exact ⟨htask, hended, herrors⟩

theorem Spawned.Inv.poll {state : Spawned} (h : state.Inv file start stop) :
    state.poll.Inv file start stop := by
  obtain ⟨task, channel, received, ended, dropped, reads⟩ := state
  obtain ⟨htask, hended, herrors⟩ := h
  cases dropped with
  | true => exact ⟨htask, hended, herrors⟩
  | false =>
      cases channel with
      | cons item channel =>
          have hsent : received ++ [item] ++ channel = received ++ item :: channel := by
            rw [List.append_assoc]
            rfl
          dsimp only [Spawned.poll]
          refine ⟨?_, fun h => absurd (hended h).2 (List.cons_ne_nil _ _), ?_⟩
          · dsimp only [Spawned.sent]
            rw [hsent]
            exact htask
          · dsimp only [Spawned.sent]
            rw [hsent]
            exact herrors
      | nil =>
          cases task with
          | ended =>
              refine ⟨?_, fun _ => ⟨rfl, rfl⟩, herrors⟩
              -- nobody has dropped the stream
              rcases htask with hcomplete | hfailed | ⟨hdropped, -⟩
              · exact .inl hcomplete
              · exact .inr (.inl hfailed)
              · cases hdropped
          | reading currentPos => exact ⟨htask, hended, herrors⟩
          | sending item currentPos => exact ⟨htask, hended, herrors⟩

theorem Spawned.Inv.drop {state : Spawned} (h : state.Inv file start stop) :
    ({ state with dropped := true } : Spawned).Inv file start stop := by
  obtain ⟨task, channel, received, ended, dropped, reads⟩ := state
  obtain ⟨htask, hended, herrors⟩ := h
  refine ⟨?_, hended, herrors⟩
  cases task with
  | ended =>
      rcases htask with hcomplete | hfailed | ⟨-, hnot, hmore⟩
      · exact .inl hcomplete
      · exact .inr (.inl hfailed)
      · exact .inr (.inr ⟨rfl, hnot, hmore⟩)
  | reading currentPos => exact htask
  | sending item currentPos => cases item <;> exact htask

theorem Spawned.Inv.step {state : Spawned} (h : state.Inv file start stop) (action : SpawnedAction) :
    (state.step file stop action).Inv file start stop := by
  cases action with
  | task => exact h.taskStep
  | poll => exact h.poll
  | drop => exact h.drop

/-- What has been sent delivers what is requested. -/
theorem Spawned.Inv.delivers_sent {state : Spawned} (h : state.Inv file start stop) :
    Delivers file start stop state.sent state.reads state.ended := by
  obtain ⟨task, channel, received, ended, dropped, reads⟩ := state
  obtain ⟨htask, hended, herrors⟩ := h
  have hsent : ∀ err, .error err ∈ received ++ channel → FailedRead file start stop reads err :=
    fun err hmem => herrors err (.inl hmem)
  -- before the end it is enough that the items are part of what is requested
  have hopen {position : UInt64} {more : List Item} (hnot : ¬ended = true)
      (hreading : Reading file start stop position (received ++ channel ++ more)) :
      Delivers file start stop (received ++ channel) reads ended := by
    refine ⟨?_, fun h => absurd h hnot, hsent⟩
    exact (delivered_isPrefix _ more).trans hreading.delivers
  cases task with
  | ended =>
      rcases htask with hcomplete | hfailed | ⟨-, hnot, more, position, hreading⟩
      · exact hcomplete.delivers ended hsent
      · exact hfailed.delivers ended hsent
      · exact hopen (Bool.eq_false_iff.1 hnot) hreading
  | reading currentPos =>
      have hreading : Reading file start stop currentPos (received ++ channel ++ []) := by
        rw [List.append_nil]
        exact htask
      exact hopen (fun h => Task.noConfusion (hended h).1) hreading
  | sending item currentPos =>
      cases item with
      | ok chunk => exact hopen (fun h => Task.noConfusion (hended h).1) htask
      | error err =>
          have hreading : Reading file start stop currentPos (received ++ channel ++ []) := by
            rw [List.append_nil]
            exact htask
          exact hopen (fun h => Task.noConfusion (hended h).1) hreading

/-- What has been received delivers what is requested. -/
theorem Spawned.Inv.delivers {state : Spawned} (h : state.Inv file start stop) :
    Delivers file start stop state.received state.reads state.ended := by
  have hsent := h.delivers_sent
  refine ⟨(delivered_isPrefix _ _).trans hsent.prefix_requested, fun hended => ?_,
    fun err hmem => hsent.errors err (List.mem_append_left _ hmem)⟩
  have hall : state.sent = state.received := by
    rw [Spawned.sent, (h.ended hended).2, List.append_nil]
  exact hall ▸ hsent.complete hended

/-- The task subtracts its position from an end that is not before it. -/
theorem Spawned.Inv.le_stop {state : Spawned} (h : state.Inv file start stop) {currentPos : UInt64}
    (htask : state.task = .reading currentPos) : ∀ n ∈ stop, currentPos ≤ n := by
  have hreading := h.task
  rw [htask] at hreading
  exact hreading.le_stop

/-- A stream is dropped by nothing else. -/
theorem Spawned.dropped_step (state : Spawned) {action : SpawnedAction} (haction : action ≠ .drop) :
    (state.step file stop action).dropped = state.dropped := by
  cases action with
  | drop => exact absurd rfl haction
  | task =>
      rw [Spawned.step, Spawned.taskStep]
      split
      · split
        · rfl
        · split <;> rfl
      · split
        · rfl
        · split <;> rfl
      · rfl
  | poll =>
      rw [Spawned.step, Spawned.poll]
      split <;> rfl

/-- What is left to do: each byte takes a read, and each chunk is sent and received. -/
def Spawned.work (file : File) (stop : Option UInt64) (state : Spawned) : Nat :=
  (match state.task with
    | .reading currentPos => 3 * left file stop currentPos + 3
    | .sending (.ok _) currentPos => 3 * left file stop currentPos + 5
    | .sending (.error _) _ => 2
    | .ended => 0) +
  state.channel.length + if state.ended then 0 else 1

theorem Spawned.Inv.work_taskStep {state : Spawned} (h : state.Inv file start stop) :
    state.taskStep file stop = state ∨
      (state.taskStep file stop).work file stop < state.work file stop := by
  obtain ⟨task, channel, received, ended, dropped, reads⟩ := state
  obtain ⟨htask, -, -⟩ := h
  rw [Spawned.taskStep]
  cases task with
  | ended => exact .inl rfl
  | reading currentPos =>
      right
      dsimp only at htask ⊢
      split
      · dsimp only [Spawned.work]
        omega
      · split
        · dsimp only [Spawned.work]
          omega
        · rename_i hread
          have hless := htask.left_lt hread (List.cons_ne_nil _ _)
          dsimp only [Spawned.work]
          omega
        · dsimp only [Spawned.work]
          omega
  | sending item currentPos =>
      dsimp only
      split
      · right
        cases item with
        | ok chunk =>
            dsimp only [Spawned.work]
            omega
        | error err =>
            dsimp only [Spawned.work]
            omega
      · split
        · right
          cases item with
          | ok chunk =>
              dsimp only [Spawned.work]
              rw [List.length_append, List.length_singleton]
              omega
          | error err =>
              dsimp only [Spawned.work]
              rw [List.length_append, List.length_singleton]
              omega
        · exact .inl rfl

theorem Spawned.work_poll (state : Spawned) :
    state.poll = state ∨ state.poll.work file stop < state.work file stop := by
  obtain ⟨task, channel, received, ended, dropped, reads⟩ := state
  cases dropped with
  | true => exact .inl rfl
  | false =>
      cases channel with
      | cons item channel =>
          right
          dsimp only [Spawned.poll, Spawned.work]
          rw [List.length_cons]
          omega
      | nil =>
          cases task with
          | reading currentPos => exact .inl rfl
          | sending item currentPos => exact .inl rfl
          | ended =>
              cases ended with
              | true => exact .inl rfl
              | false =>
                  right
                  simp [Spawned.poll, Spawned.work]

/-- When neither the task nor a poll changes anything, the end of the stream has been returned. -/
theorem Spawned.Inv.ended_of_stuck {state : Spawned} (h : state.Inv file start stop)
    (hdropped : state.dropped = false) (htask : state.taskStep file stop = state)
    (hpoll : state.poll = state) : state.ended = true := by
  obtain ⟨task, channel, received, ended, dropped, reads⟩ := state
  cases hdropped
  cases channel with
  | cons item channel =>
      have hlength := congrArg (fun state => state.channel.length) hpoll
      dsimp only [Spawned.poll] at hlength
      rw [List.length_cons] at hlength
      omega
  | nil =>
      cases task with
      | ended => exact (congrArg Spawned.ended hpoll).symm
      | reading currentPos =>
          -- a turn of the task always goes somewhere
          exfalso
          have hnext := congrArg Spawned.task htask
          rw [Spawned.taskStep] at hnext
          dsimp only at hnext
          split at hnext
          · cases hnext
          · split at hnext <;> cases hnext
      | sending item currentPos =>
          exfalso
          have hnext := congrArg Spawned.task htask
          rw [Spawned.taskStep] at hnext
          dsimp only at hnext
          rw [if_neg Bool.false_ne_true, if_pos (by decide)] at hnext
          cases item <;> cases hnext

/-- What the stream has come to: it has read up to its position, and all that is requested when it has
finished, unless a read has failed. -/
structure NoSpawn.Inv (file : File) (start stop : Option UInt64) (state : NoSpawn) : Prop where
  positioned : Positioned file start stop state.currentPos
  future : ∀ pos ∈ state.readFuture, pos = state.currentPos
  told : Failed file start stop state.yielded ∨
    Reading file start stop state.currentPos state.yielded ∧
      (state.finished = true → Complete file start stop state.yielded)
  ended : state.ended = true → state.finished = true
  errors : ∀ err, .error err ∈ state.yielded → FailedRead file start stop state.reads err

theorem NoSpawn.inv_new (h : ∀ n ∈ stop, start.getD 0 ≤ n) : (NoSpawn.new start).Inv file start stop where
  positioned := (reading_nil h).toPositioned
  future _ hpos := nomatch hpos
  told := .inr ⟨reading_nil h, fun h => Bool.noConfusion h⟩
  ended h := Bool.noConfusion h
  errors _ h := absurd h List.not_mem_nil

theorem Failed.append {items : List Item} (h : Failed file start stop items) (more : List Item) :
    Failed file start stop (items ++ more) := by
  obtain ⟨before, err, after, position, rfl, hreading⟩ := h
  exact ⟨before, err, after ++ more, position, by rw [List.append_assoc, List.cons_append], hreading⟩

/-- A position that a read is under way at is the position of the stream. -/
theorem NoSpawn.Inv.getD_readFuture {state : NoSpawn} (h : state.Inv file start stop) :
    state.readFuture.getD state.currentPos = state.currentPos := by
  cases hfuture : state.readFuture with
  | none => rfl
  | some pos => exact h.future pos hfuture

/-- What comes of a chunk: nothing at the end, a read, or an error. -/
theorem NoSpawn.readChunk_cases (file : File) (stop : Option UInt64) (turn : Nat) (pos : UInt64) :
    (readChunk file stop turn pos = none ∧ (bufferSz stop pos = 0 ∨
        file.readAt turn (bufferSz stop pos) pos = .ok [] ∧ bufferSz stop pos ≠ 0)) ∨
      (∃ chunk, readChunk file stop turn pos = some (.ok chunk) ∧ chunk ≠ [] ∧
        file.readAt turn (bufferSz stop pos) pos = .ok chunk) ∨
      ∃ err, readChunk file stop turn pos = some (.error err) ∧
        file.readAt turn (bufferSz stop pos) pos = .error err := by
  rw [readChunk]
  by_cases hsize : bufferSz stop pos = 0
  · rw [if_pos hsize]
    exact .inl ⟨rfl, .inl hsize⟩
  · rw [if_neg hsize]
    cases hread : file.readAt turn (bufferSz stop pos) pos with
    | error err => exact .inr (.inr ⟨err, rfl, rfl⟩)
    | ok chunk =>
        cases chunk with
        | nil => exact .inl ⟨rfl, .inr ⟨rfl, hsize⟩⟩
        | cons byte bytes => exact .inr (.inl ⟨_, rfl, List.cons_ne_nil _ _, rfl⟩)

/-- What a poll does: it returns the end, it finds the end, it yields a chunk or an error, or it waits. -/
theorem NoSpawn.Inv.pollNext_cases {state : NoSpawn} (h : state.Inv file start stop) (readDone : Bool) :
    let next := { state with readFuture := none, reads := state.reads + 1 }
    (state.finished = true ∧ state.pollNext file stop readDone = { state with ended := true }) ∨
    (state.finished = false ∧
      state.pollNext file stop readDone = { next with finished := true, ended := true } ∧
      (stop = some state.currentPos ∨ file.content.length ≤ state.currentPos.toNat)) ∨
    (state.finished = false ∧ ∃ chunk, chunk ≠ [] ∧
      file.readAt state.reads (bufferSz stop state.currentPos) state.currentPos = .ok chunk ∧
      state.pollNext file stop readDone =
        { next with
          currentPos := state.currentPos + UInt64.ofNat chunk.length
          finished := stop.any fun n => decide (n ≤ state.currentPos + UInt64.ofNat chunk.length)
          yielded := state.yielded ++ [.ok chunk] }) ∨
    (state.finished = false ∧ ∃ err,
      file.readAt state.reads (bufferSz stop state.currentPos) state.currentPos = .error err ∧
      state.pollNext file stop readDone = { next with yielded := state.yielded ++ [.error err] }) ∨
    (state.finished = false ∧ readDone = false ∧
      state.pollNext file stop readDone = { state with readFuture := some state.currentPos }) := by
  intro next
  rw [pollNext]
  by_cases hfinished : state.finished = true
  · rw [if_pos hfinished]
    exact .inl ⟨hfinished, rfl⟩
  · rw [if_neg hfinished, h.getD_readFuture]
    have hfalse : state.finished = false := Bool.eq_false_iff.2 hfinished
    refine .inr ?_
    dsimp only
    by_cases hready : (decide (bufferSz stop state.currentPos = 0) || readDone) = true
    · rw [if_pos hready]
      rcases readChunk_cases file stop state.reads state.currentPos with
        ⟨hchunk, hnone⟩ | ⟨chunk, hchunk, hne, hread⟩ | ⟨err, hchunk, hread⟩
      · rw [hchunk]
        refine .inl ⟨hfalse, rfl, ?_⟩
        rcases hnone with hsize | ⟨hread, hsize⟩
        · exact .inl (eq_of_bufferSz h.positioned.le_stop hsize)
        · exact .inr (((File.of_readAt hread).2.2.2 rfl).resolve_left hsize)
      · rw [hchunk]
        exact .inr (.inl ⟨hfalse, chunk, hne, hread, rfl⟩)
      · rw [hchunk]
        exact .inr (.inr (.inl ⟨hfalse, err, hread, rfl⟩))
    · rw [if_neg hready]
      rw [Bool.or_eq_true, not_or] at hready
      exact .inr (.inr (.inr ⟨hfalse, Bool.eq_false_iff.2 hready.2, rfl⟩))

theorem NoSpawn.Inv.pollNext {state : NoSpawn} (h : state.Inv file start stop) (readDone : Bool) :
    (state.pollNext file stop readDone).Inv file start stop := by
  have hmore : ∀ err, .error err ∈ state.yielded → FailedRead file start stop (state.reads + 1) err :=
    fun err hmem => (h.errors err hmem).mono (Nat.le_succ _)
  rcases h.pollNext_cases readDone with ⟨hfinished, hnext⟩ | ⟨-, hnext, hend⟩ |
    ⟨hopen, chunk, hne, hread, hnext⟩ | ⟨-, err, hread, hnext⟩ | ⟨-, -, hnext⟩
  · rw [hnext]
    exact ⟨h.positioned, h.future, h.told, fun _ => hfinished, h.errors⟩
  · rw [hnext]
    refine ⟨h.positioned, fun _ hpos => (nomatch hpos), ?_, fun _ => rfl, hmore⟩
    rcases h.told with hfailed | ⟨hreading, -⟩
    · exact .inl hfailed
    · exact .inr ⟨hreading, fun _ => hreading.complete hend⟩
  · rw [hnext]
    have hpositioned := h.positioned.advance hread hne
    refine ⟨hpositioned, fun _ hpos => (nomatch hpos), ?_, fun hended => ?_, fun err hmem => ?_⟩
    · rcases h.told with hfailed | ⟨hreading, -⟩
      · exact .inl (hfailed.append _)
      · refine .inr ⟨hreading.advance hread hne, fun hfinished => ?_⟩
        -- the position is the end, since it is not behind it
        obtain ⟨n, hn, hle⟩ := (Option.any_eq_true _ _).1 hfinished
        refine (hreading.advance hread hne).complete (.inl ?_)
        rw [hn, UInt64.le_antisymm (of_decide_eq_true hle) (hpositioned.le_stop n hn)]
    · exact absurd (h.ended hended) (Bool.eq_false_iff.1 hopen)
    · rcases List.mem_append.1 hmem with hmem | hmem
      · exact hmore err hmem
      · cases List.mem_singleton.1 hmem
  · rw [hnext]
    refine ⟨h.positioned, fun _ hpos => (nomatch hpos), .inl ?_, h.ended, fun other hmem => ?_⟩
    · rcases h.told with hfailed | ⟨hreading, -⟩
      · exact hfailed.append _
      · exact ⟨state.yielded, err, [], state.currentPos, rfl, hreading⟩
    · rcases List.mem_append.1 hmem with hmem | hmem
      · exact hmore other hmem
      · cases List.mem_singleton.1 hmem
        exact .of_readAt h.positioned hread
  · rw [hnext]
    refine ⟨h.positioned, fun pos hpos => ?_, h.told, h.ended, h.errors⟩
    exact (Option.some.inj hpos).symm

/-- What has been yielded delivers what is requested. -/
theorem NoSpawn.Inv.delivers {state : NoSpawn} (h : state.Inv file start stop) :
    Delivers file start stop state.yielded state.reads state.ended := by
  rcases h.told with hfailed | ⟨hreading, hcomplete⟩
  · exact hfailed.delivers _ h.errors
  · refine ⟨hreading.delivers, fun hended => ?_, h.errors⟩
    exact ((hcomplete (h.ended hended)).delivers true h.errors).complete rfl

/-- What is left to do: each byte takes a read. -/
def NoSpawn.work (file : File) (stop : Option UInt64) (state : NoSpawn) : Nat :=
  if state.finished then if state.ended then 0 else 1
  else 2 * left file stop state.currentPos + if state.readFuture.isSome then 2 else 3

/-- The stream has ended, or a read has failed. -/
def NoSpawn.Done (state : NoSpawn) : Prop :=
  state.ended = true ∨ ∃ err, .error err ∈ state.yielded

theorem NoSpawn.Inv.work_pollNext {state : NoSpawn} (h : state.Inv file start stop) (readDone : Bool)
    (hnotNext : ¬(state.pollNext file stop readDone).Done) :
    state.pollNext file stop readDone = state ∨
      (state.pollNext file stop readDone).work file stop < state.work file stop := by
  rcases h.pollNext_cases readDone with ⟨-, hnext⟩ | ⟨-, hnext, -⟩ |
    ⟨hopen, chunk, hne, hread, hnext⟩ | ⟨-, err, -, hnext⟩ | ⟨hopen, -, hnext⟩
  · exact absurd (.inl (by rw [hnext])) hnotNext
  · exact absurd (.inl (by rw [hnext])) hnotNext
  · right
    have hless := h.positioned.left_lt hread hne
    have hleast : 2 ≤ if state.readFuture.isSome then 2 else 3 := by split <;> omega
    rw [hnext, work, work, hopen, if_neg Bool.false_ne_true]
    dsimp only [Option.isSome_none]
    rw [if_neg Bool.false_ne_true]
    split
    · split <;> omega
    · omega
  · refine absurd (.inr ⟨err, ?_⟩) hnotNext
    rw [hnext]
    exact List.mem_append_right _ List.mem_cons_self
  · cases hfuture : state.readFuture with
    | some pos =>
        left
        have hsame : some state.currentPos = state.readFuture := by rw [hfuture, h.future pos hfuture]
        rw [hnext, hsame]
    | none =>
        right
        rw [hnext, work, work, hopen, hfuture, if_neg Bool.false_ne_true, if_neg Bool.false_ne_true]
        exact Nat.add_lt_add_left (Nat.lt_succ_self 2) _

/-- When a poll at which a read is done changes nothing, the end has been returned. -/
theorem NoSpawn.Inv.ended_of_stuck {state : NoSpawn} (h : state.Inv file start stop)
    (hstuck : state.pollNext file stop true = state) : state.ended = true := by
  rcases h.pollNext_cases true with ⟨-, hnext⟩ | ⟨-, hnext, -⟩ |
    ⟨-, chunk, -, -, hnext⟩ | ⟨-, err, -, hnext⟩ | ⟨-, hwaits, -⟩
  · exact (congrArg NoSpawn.ended (hnext.symm.trans hstuck)).symm
  · exact (congrArg NoSpawn.ended (hnext.symm.trans hstuck)).symm
  -- another item cannot leave the items as they are
  · have hyielded := congrArg NoSpawn.yielded (hnext.symm.trans hstuck)
    exact absurd hyielded (by simp)
  · have hyielded := congrArg NoSpawn.yielded (hnext.symm.trans hstuck)
    exact absurd hyielded (by simp)
  · cases hwaits

end Steps

/-! ## Both streams -/

/-- Both streams deliver the bytes between the positions: what has been received is part of them up to the
first error, and all of them when the end is returned without one; each error comes from a read that failed;
no position is subtracted from an end before it; and when the task and the polls go on the stream comes to
its end, or to an error. Without failing reads it comes to its end with all of the bytes. -/
theorem streams_deliver (file : File) (start stop : Option UInt64) (h : ∀ n ∈ stop, start.getD 0 ≤ n) :
    (∀ actions, let state := run (Spawned.step file stop) (Spawned.new start) actions
      Delivers file start stop state.received state.reads state.ended ∧
        ∀ currentPos, state.task = .reading currentPos → ∀ n ∈ stop, currentPos ≤ n) ∧
    (∀ schedule, (∀ time, schedule time ≠ .drop) → Recurs schedule .task → Recurs schedule .poll →
      ∃ time, let state := stateAt (Spawned.step file stop) (Spawned.new start) schedule time
        state.ended = true ∧ (file.NeverFails → delivered state.received = requested file start stop)) ∧
    (∀ polls, let state := run (NoSpawn.pollNext file stop) (NoSpawn.new start) polls
      Delivers file start stop state.yielded state.reads state.ended ∧
        ∀ n ∈ stop, state.readFuture.getD state.currentPos ≤ n) ∧
    ∀ schedule, Recurs schedule true →
      ∃ time, let state := stateAt (NoSpawn.pollNext file stop) (NoSpawn.new start) schedule time
        (state.ended = true ∨ ∃ err, .error err ∈ state.yielded ∧
            FailedRead file start stop state.reads err) ∧
          (file.NeverFails → state.ended = true ∧
            delivered state.yielded = requested file start stop) := by
  have hspawned : ∀ actions,
      (run (Spawned.step file stop) (Spawned.new start) actions).Inv file start stop := fun actions =>
    run_invariant' (fun _ action hinv => hinv.step action) actions (Spawned.inv_new h)
  have hnoSpawn : ∀ polls,
      (run (NoSpawn.pollNext file stop) (NoSpawn.new start) polls).Inv file start stop := fun polls =>
    run_invariant' (fun _ readDone hinv => hinv.pollNext readDone) polls (NoSpawn.inv_new h)
  refine ⟨fun actions => ⟨(hspawned actions).delivers, fun _ => (hspawned actions).le_stop⟩,
    fun schedule hnotDropped htask hpoll => ?_, fun polls => ⟨(hnoSpawn polls).delivers, ?_⟩,
    fun schedule hdone => ?_⟩
  · -- a stream that is not dropped is not dropped later on
    have hends : ∃ time, (stateAt (Spawned.step file stop) (Spawned.new start) schedule time).ended =
        true := by
      refine exists_done_of_fair (Spawned.work file stop)
        (fun state => state.Inv file start stop ∧ state.dropped = false) (fun state => state.ended = true)
        (fun action => action ≠ SpawnedAction.drop) (fun action => action ≠ SpawnedAction.drop)
        ⟨Spawned.inv_new h, rfl⟩ hnotDropped ?_ ?_ ?_ ?_
      · intro state action haction hinv
        exact ⟨hinv.1.step action, (Spawned.dropped_step state haction).trans hinv.2⟩
      · intro state action haction hinv _ _
        cases action with
        | task => exact hinv.1.work_taskStep
        | poll => exact state.work_poll
        | drop => exact absurd rfl haction
      · intro state hinv hstuck
        exact hinv.1.ended_of_stuck hinv.2 (hstuck .task (by decide)) (hstuck .poll (by decide))
      · intro action haction
        cases action with
        | task => exact htask
        | poll => exact hpoll
        | drop => exact absurd rfl haction
    obtain ⟨time, hended⟩ := hends
    have hdelivers := (hspawned ((List.range time).map schedule)).delivers
    exact ⟨time, hended, (hended ▸ hdelivers).delivered_eq⟩
  · rw [(hnoSpawn polls).getD_readFuture]
    exact (hnoSpawn polls).positioned.le_stop
  · have hends : ∃ time, (stateAt (NoSpawn.pollNext file stop) (NoSpawn.new start) schedule time).Done := by
      refine exists_done_of_fair (NoSpawn.work file stop) (NoSpawn.Inv file start stop) NoSpawn.Done
        (fun _ => True) (fun readDone => readDone = true) (NoSpawn.inv_new h) (fun _ => trivial) ?_ ?_ ?_ ?_
      · exact fun state readDone _ hinv => hinv.pollNext readDone
      · exact fun state readDone _ hinv _ => hinv.work_pollNext readDone
      · exact fun state hinv hstuck => .inl (hinv.ended_of_stuck (hstuck true rfl))
      · rintro readDone rfl
        exact hdone
    obtain ⟨time, hdone⟩ := hends
    have hdelivers := (hnoSpawn ((List.range time).map schedule)).delivers
    refine ⟨time, hdone.imp_right fun ⟨err, hmem⟩ => ⟨err, hmem, hdelivers.errors err hmem⟩, fun hnever => ?_⟩
    have hended := hdone.resolve_right fun ⟨err, hmem⟩ => hdelivers.not_error hnever err hmem
    exact ⟨hended, (hended ▸ hdelivers).delivered_eq hnever⟩

/-- Three bytes, of which each read gets one. -/
def threeBytes : File where
  content := [1, 2, 3]
  length_lt := by decide
  read _ size position := .ok (min 1 (min size (3 - position.toNat)))
  read_le := by
    intro turn size position n h
    cases h
    exact ⟨by omega, (min_le_right _ _).trans (min_le_right _ _)⟩
  read_zero := by
    intro turn size position h
    have hzero : min 1 (min size (3 - position.toNat)) = 0 := Except.ok.inj h
    change size = 0 ∨ 3 ≤ position.toNat
    omega

/-- The last two bytes are delivered, and then the end comes. -/
theorem streams_deliver_threeBytes :
    ∃ time, let state := stateAt (NoSpawn.pollNext threeBytes (some 3)) (NoSpawn.new (some 1)) (fun _ => true) time
      state.ended = true ∧ delivered state.yielded = [2, 3] := by
  have hle : ∀ n ∈ some (3 : UInt64), (some (1 : UInt64)).getD 0 ≤ n := by
    rintro n ⟨⟩
    decide
  obtain ⟨time, -, hall⟩ := (streams_deliver threeBytes (some 1) (some 3) hle).2.2.2 (fun _ => true)
    fun time => ⟨time, le_rfl, rfl⟩
  exact ⟨time, hall fun _ _ _ _ hread => nomatch hread⟩

example :
    (run (NoSpawn.pollNext threeBytes (some 3)) (NoSpawn.new (some 1)) [true, false, true, true]).yielded =
    [.ok [2], .ok [3]] := rfl

end Ferron.Common.MonoioFileStream
