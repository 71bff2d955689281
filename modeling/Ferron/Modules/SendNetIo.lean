import Mathlib.Data.List.Basic
import Mathlib.Tactic

/-!
# Streams that go to another thread

A connection to a backend may go to another thread. The driver of a thread knows a descriptor by a handle, so
the stream makes a new handle of the descriptor when another thread uses it, or when its drop guard has given
the first handle back. The guard stays on the thread that made the stream.

A handle is used by the thread that made it only, and never after it has been given back or closed. The
descriptor is closed at most once (`safe_of_runs`). It is not closed at all exactly when the guard is dropped
before the stream and the stream is not used in between (`closes_of_runs`).
-/

set_option autoImplicit false

namespace Ferron.Modules.SendNetIo

/-! ## Streams and guards -/

/-- `ThreadId`. -/
abbrev ThreadId := Nat

/-- What has been done with a handle: it is there, its descriptor was taken out of it, or it was dropped and has
closed its descriptor. -/
inductive HandleStatus where
  | live
  | released
  | closed
  deriving DecidableEq

/-- `TcpStreamPoll` or `UnixStreamPoll`. -/
structure Handle where
  thread : ThreadId
  status : HandleStatus
  deriving DecidableEq

/-- `SendTcpStreamPoll` or `SendUnixStreamPoll`, with the numbers of its handles. -/
structure SendStreamPoll where
  threadId : ThreadId
  inner : Option Nat
  /-- This one is not dropped with the stream. -/
  prevInner : Option Nat
  obtainedDropped : Bool
  deriving DecidableEq

/-- The drop guard, with the number of its handle. When it is dropped it first sets the mark and gives the handle
back later. -/
inductive DropGuard where
  | held (inner : Nat)
  | releasing (inner : Nat)
  | dropped
  deriving DecidableEq

/-- A stream with its guard, the mark that they share, the handles that were made, and how often the descriptor
has been closed. -/
structure World where
  stream : Option SendStreamPoll
  guard : DropGuard
  markedDropped : Bool
  handles : List Handle
  closes : Nat
  deriving DecidableEq

namespace World

/-- After `new_comp_io` and `get_drop_guard`. -/
def new (owner : ThreadId) : World where
  stream := some ⟨owner, some 0, none, true⟩
  guard := .held 0
  markedDropped := false
  handles := [⟨owner, .live⟩]
  closes := 0

/-- A handle gets another status. -/
def setStatus (world : World) (handle : Nat) (status : HandleStatus) : World :=
  { world with handles := world.handles.modify handle fun h => { h with status := status } }

/-- `populate_if_different_thread_or_marked_dropped`: the stream after it, or nothing when it panics. -/
def populate (world : World) (stream : SendStreamPoll) (currentThreadId : ThreadId) (dropped : Bool) :
    Option (World × SendStreamPoll) :=
  let markedDropped := !dropped && world.markedDropped
  let world := if dropped then world else { world with markedDropped := false }
  if markedDropped || currentThreadId ≠ stream.threadId then
    if !stream.obtainedDropped then none
    else if stream.prevInner.isSome then none
    else
      some ({ world with handles := world.handles ++ [⟨currentThreadId, .live⟩] },
        { stream with
          prevInner := stream.inner
          inner := some world.handles.length
          threadId := currentThreadId })
  else some (world, stream)

/-- What happens when the stream is dropped: its handle is dropped with it, unless the mark was set. -/
def dropStream (world : World) (stream : SendStreamPoll) (currentThreadId : ThreadId) : Option World :=
  let marked := world.markedDropped
  let world := { world with markedDropped := true }
  if !marked then
    (world.populate stream currentThreadId true).map fun populated =>
      match populated.2.inner with
      | some inner =>
          { populated.1.setStatus inner .closed with
            stream := none
            closes := populated.1.closes + 1 }
      | none => { populated.1 with stream := none }
  else some { world with stream := none }

/-- What happens first when the guard is dropped. -/
def dropGuard (world : World) (inner : Nat) : World :=
  { world with
    markedDropped := true
    guard := if world.markedDropped then .dropped else .releasing inner }

/-- The descriptor is taken out of the handle of the guard. -/
def release (world : World) (inner : Nat) : World := { world.setStatus inner .released with guard := .dropped }

end World

/-! ## Runs -/

/-- A thread uses the stream (it polls it to read, write, flush or shut down) or drops it, or the guard is
dropped. -/
inductive Op where
  | use (thread : ThreadId)
  | dropStream (thread : ThreadId)
  | dropGuard
  | release
  deriving DecidableEq

/-- A step that does not panic. -/
inductive Step (world : World) : Op → World → Prop
  | use {thread : ThreadId} {stream : SendStreamPoll} {populated : World × SendStreamPoll}
      (there : world.stream = some stream) (populates : world.populate stream thread false = some populated) :
      Step world (.use thread) { populated.1 with stream := some populated.2 }
  | dropStream {thread : ThreadId} {stream : SendStreamPoll} {after : World} (there : world.stream = some stream)
      (drops : world.dropStream stream thread = some after) : Step world (.dropStream thread) after
  | dropGuard {inner : Nat} (guard : world.guard = .held inner) : Step world .dropGuard (world.dropGuard inner)
  | release {inner : Nat} (guard : world.guard = .releasing inner) : Step world .release (world.release inner)

/-- The steps of a run. -/
inductive Runs (start : World) : List Op → World → Prop
  | nil : Runs start [] start
  | step {ops : List Op} {world after : World} {op : Op} (before : Runs start ops world)
      (step : Step world op after) : Runs start (ops ++ [op]) after

/-- The guard has been dropped and the stream has not been used since then. -/
def unseen (ops : List Op) : Bool :=
  ops.foldl (fun unseen op =>
    match op with
    | .use _ => false
    | .dropGuard => true
    | .dropStream _ | .release => unseen) false

/-- The thread that has used the stream last, whether the guard has been dropped since then, and how often the
stream has had to change its handle: another thread uses it, or the guard has been dropped. -/
structure Uses where
  lastThread : ThreadId
  unseen : Bool
  changes : Nat

/-- The next step. -/
def Uses.next (uses : Uses) : Op → Uses
  | .use thread =>
      { lastThread := thread
        unseen := false
        changes := if uses.unseen || thread ≠ uses.lastThread then uses.changes + 1 else uses.changes }
  | .dropGuard => { uses with unseen := true }
  | .dropStream _ | .release => uses

/-- The uses of a stream that a thread has made. -/
def usesOf (owner : ThreadId) (ops : List Op) : Uses := ops.foldl Uses.next ⟨owner, false, 0⟩

/-! ## What a run comes to -/

namespace DropGuard

/-- The guard has not been dropped. -/
def isHeld : DropGuard → Bool
  | held _ => true
  | releasing _ | dropped => false

/-- What the guard has done with the first handle while there is a stream. -/
def status : DropGuard → HandleStatus
  | held _ | releasing _ => .live
  | dropped => .released

/-- The guard has the first handle. -/
def HasFirst : DropGuard → Prop
  | held inner | releasing inner => inner = 0
  | dropped => True

end DropGuard

/-- Where the stream is: it has its first handle, it has another one, or it is gone. -/
inductive Shape (owner : ThreadId) (ops : List Op) (world : World) : Prop
  | original (stream : world.stream = some ⟨owner, some 0, none, true⟩)
      (handles : world.handles = [⟨owner, world.guard.status⟩]) (guard : world.guard.HasFirst)
      (closes : world.closes = 0) (marked : world.markedDropped = unseen ops)
      (seen : unseen ops = !world.guard.isHeld)
  | moved (thread : ThreadId) (stream : world.stream = some ⟨thread, some 1, some 0, true⟩)
      (handles : world.handles = [⟨owner, world.guard.status⟩, ⟨thread, .live⟩]) (guard : world.guard.HasFirst)
      (closes : world.closes = 0) (marked : world.markedDropped = unseen ops)
      (seen : world.guard.isHeld = true → unseen ops = false)
  | gone (before after : List Op) (thread : ThreadId) (ops_eq : ops = before ++ .dropStream thread :: after)
      (stream : world.stream = none) (closes : world.closes = if unseen before then 0 else 1)
      (marked : world.markedDropped = true)
      (guard : ∀ inner, world.guard = .releasing inner → world.handles[inner]? = some ⟨owner, .live⟩)

section Shapes

variable {owner : ThreadId} {ops : List Op} {world after : World}

theorem unseen_concat (ops : List Op) (op : Op) :
    unseen (ops ++ [op]) = match op with
      | .use _ => false
      | .dropGuard => true
      | .dropStream _ | .release => unseen ops := by
  rw [unseen, List.foldl_append]
  cases op <;> rfl

theorem shape_new (owner : ThreadId) : Shape owner [] (.new owner) :=
  .original rfl rfl rfl rfl rfl rfl

/-- What `populate_if_different_thread_or_marked_dropped` does when it does not panic: nothing, or the stream gets
its second handle. -/
theorem populate_spec {stream : SendStreamPoll} {thread : ThreadId} {dropped : Bool}
    {populated : World × SendStreamPoll} (h : world.populate stream thread dropped = some populated) :
    ((dropped = true ∨ world.markedDropped = false) ∧ thread = stream.threadId ∧
        populated = (world, stream)) ∨
      ((dropped = false ∧ world.markedDropped = true) ∨ thread ≠ stream.threadId) ∧ stream.prevInner = none ∧
        populated = ({ world with
            markedDropped := dropped && world.markedDropped
            handles := world.handles ++ [⟨thread, .live⟩] },
          ⟨thread, some world.handles.length, stream.inner, stream.obtainedDropped⟩) := by
  obtain ⟨stream', guard, marked, handles, closes⟩ := world
  unfold World.populate at h
  dsimp only at h
  split at h
  · rename_i hmoves
    split at h
    · cases h
    · split at h
      · cases h
      · rename_i hprev
        refine .inr ⟨?_, by simpa using hprev, ?_⟩
        · simpa using hmoves
        · rw [← Option.some.inj h]
          cases dropped <;> rfl
  · rename_i hstays
    rw [Bool.or_eq_true, not_or, decide_eq_true_iff, not_not] at hstays
    obtain ⟨hmark, hthread⟩ := hstays
    cases dropped with
    | true => exact .inl ⟨.inl rfl, hthread, (Option.some.inj h).symm⟩
    | false =>
        have hmarked : marked = false := by simpa using hmark
        subst hmarked
        exact .inl ⟨.inr rfl, hthread, (Option.some.inj h).symm⟩

/-- A use of the stream. -/
theorem Shape.use (h : Shape owner ops world) {thread : ThreadId} {stream : SendStreamPoll}
    {populated : World × SendStreamPoll} (hstream : world.stream = some stream)
    (hpopulates : world.populate stream thread false = some populated) :
    Shape owner (ops ++ [.use thread]) { populated.1 with stream := some populated.2 } ∧
      ∃ handle ∈ populated.2.inner,
        populated.1.handles[handle]? = some ⟨thread, .live⟩ ∧ populated.1.closes = 0 := by
  have hunseen : unseen (ops ++ [.use thread]) = false := unseen_concat ops _
  cases h with
  | original there handles guard closes marked seen =>
      rw [there, Option.some.injEq] at hstream
      subst hstream
      rcases populate_spec hpopulates with ⟨hmarked, rfl, rfl⟩ | ⟨_, _, rfl⟩
      · -- the stream stays where it is, and the guard has not been dropped
        have hmarked : world.markedDropped = false := hmarked.resolve_left Bool.false_ne_true
        have hheld : world.guard.isHeld = true := by
          rw [marked, seen] at hmarked
          simpa using hmarked
        have hstatus : world.guard.status = .live := by
          cases hguard : world.guard <;> rw [hguard] at hheld <;> first | rfl | cases hheld
        refine ⟨.original rfl handles guard closes (hmarked.trans hunseen.symm) ?_, 0, rfl, ?_, closes⟩
        · rw [hunseen, hheld]
          rfl
        · rw [handles, hstatus]
          rfl
      · -- there is a second handle from now on
        refine ⟨.moved thread ?_ ?_ guard closes hunseen.symm fun _ => hunseen, 1, ?_, ?_, closes⟩
        · rw [handles]
          rfl
        · rw [handles]
          rfl
        · rw [handles]
          rfl
        · rw [handles]
          rfl
  | moved other there handles guard closes marked seen =>
      rw [there, Option.some.injEq] at hstream
      subst hstream
      rcases populate_spec hpopulates with ⟨hmarked, rfl, rfl⟩ | ⟨_, hnone, _⟩
      · have hmarked : world.markedDropped = false := hmarked.resolve_left Bool.false_ne_true
        refine ⟨.moved thread rfl handles guard closes (hmarked.trans hunseen.symm) fun _ => hunseen, 1, rfl, ?_,
          closes⟩
        rw [handles]
        rfl
      · cases hnone
  | gone before after other ops_eq there closes marked guard =>
      rw [there] at hstream
      cases hstream

/-- What dropping the stream does when it does not panic. -/
theorem dropStream_spec {stream : SendStreamPoll} {thread : ThreadId}
    (h : world.dropStream stream thread = some after) :
    (world.markedDropped = true ∧ after = { world with markedDropped := true, stream := none }) ∨
      world.markedDropped = false ∧ ∃ populated,
        World.populate { world with markedDropped := true } stream thread true = some populated ∧
          ∀ inner, populated.2.inner = some inner →
            after = { populated.1.setStatus inner .closed with
              stream := none
              closes := populated.1.closes + 1 } := by
  unfold World.dropStream at h
  cases hmarked : world.markedDropped with
  | true =>
      rw [hmarked] at h
      exact .inl ⟨rfl, (Option.some.inj h).symm⟩
  | false =>
      rw [hmarked] at h
      obtain ⟨populated, hpopulated, hafter⟩ := Option.map_eq_some_iff.1 h
      refine .inr ⟨rfl, populated, hpopulated, fun inner hinner => ?_⟩
      rw [← hafter, hinner]

/-- The drop of the stream: it closes the descriptor, unless the guard has been dropped unseen. -/
theorem Shape.dropStream (h : Shape owner ops world) {thread : ThreadId} {stream : SendStreamPoll}
    (hstream : world.stream = some stream) (hdrops : world.dropStream stream thread = some after) :
    after.stream = none ∧ (after.closes = if unseen ops then 0 else 1) ∧ after.markedDropped = true ∧
      ∀ inner, after.guard = .releasing inner → after.handles[inner]? = some ⟨owner, .live⟩ := by
  cases h with
  | original there handles guard closes marked seen =>
      rw [there, Option.some.injEq] at hstream
      subst hstream
      rcases dropStream_spec hdrops with ⟨hmarked, rfl⟩ | ⟨hmarked, populated, hpopulated, hafter⟩
      · refine ⟨rfl, ?_, rfl, ?_⟩
        · rw [← marked, hmarked]
          exact closes
        · intro inner hinner
          rw [hinner] at handles guard
          obtain rfl : inner = 0 := guard
          rw [handles]
          rfl
      · -- the guard has not been dropped
        have hreleasing : ∀ inner, world.guard ≠ .releasing inner := by
          intro inner hinner
          rw [marked, seen, hinner] at hmarked
          cases hmarked
        rcases populate_spec hpopulated with ⟨_, _, rfl⟩ | ⟨_, _, rfl⟩
        · rw [hafter 0 rfl]
          refine ⟨rfl, ?_, rfl, fun inner hinner => absurd hinner (hreleasing inner)⟩
          rw [← marked, hmarked]
          exact congrArg (· + 1) closes
        · rw [hafter _ rfl]
          refine ⟨rfl, ?_, rfl, fun inner hinner => absurd hinner (hreleasing inner)⟩
          rw [← marked, hmarked]
          exact congrArg (· + 1) closes
  | moved other there handles guard closes marked seen =>
      rw [there, Option.some.injEq] at hstream
      subst hstream
      have hfirst : ∀ inner, world.guard = .releasing inner → inner = 0 ∧
          world.handles = [⟨owner, .live⟩, ⟨other, .live⟩] := by
        intro inner hinner
        rw [hinner] at handles guard
        exact ⟨guard, handles⟩
      rcases dropStream_spec hdrops with ⟨hmarked, rfl⟩ | ⟨hmarked, populated, hpopulated, hafter⟩
      · refine ⟨rfl, ?_, rfl, ?_⟩
        · rw [← marked, hmarked]
          exact closes
        · intro inner hinner
          obtain ⟨rfl, hhandles⟩ := hfirst inner hinner
          rw [hhandles]
          rfl
      · rcases populate_spec hpopulated with ⟨_, _, rfl⟩ | ⟨_, hnone, _⟩
        · rw [hafter 1 rfl]
          refine ⟨rfl, ?_, rfl, ?_⟩
          · rw [← marked, hmarked]
            exact congrArg (· + 1) closes
          · intro inner hinner
            obtain ⟨rfl, hhandles⟩ := hfirst inner hinner
            rw [World.setStatus, hhandles]
            rfl
        · cases hnone
  | gone before after other ops_eq there closes marked guard =>
      rw [there] at hstream
      cases hstream

theorem guard_dropGuard (hmarked : world.markedDropped = false) (inner : Nat) :
    (world.dropGuard inner).guard = .releasing inner := by
  rw [World.dropGuard, hmarked, if_neg Bool.false_ne_true]

/-- The guard sets the mark. -/
theorem Shape.dropGuard (h : Shape owner ops world) {inner : Nat} (hguard : world.guard = .held inner) :
    Shape owner (ops ++ [.dropGuard]) (world.dropGuard inner) := by
  have hunseen : unseen (ops ++ [.dropGuard]) = true := unseen_concat ops _
  cases h with
  | original there handles guard closes marked seen =>
      have hmarked : world.markedDropped = false := by rw [marked, seen, hguard]; rfl
      rw [hguard] at handles guard
      have hafter := guard_dropGuard hmarked inner
      refine .original there ?_ ?_ closes hunseen.symm ?_
      · rw [hafter]
        exact handles
      · rw [hafter]
        exact guard
      · rw [hafter]
        exact hunseen
  | moved thread there handles guard closes marked seen =>
      have hmarked : world.markedDropped = false := by
        rw [marked]
        exact seen (by rw [hguard]; rfl)
      rw [hguard] at handles guard
      have hafter := guard_dropGuard hmarked inner
      refine .moved thread there ?_ ?_ closes hunseen.symm ?_
      · rw [hafter]
        exact handles
      · rw [hafter]
        exact guard
      · rw [hafter]
        exact fun hheld => by cases hheld
  | gone before after thread ops_eq there closes marked guard =>
      refine .gone before (after ++ [.dropGuard]) thread ?_ there closes rfl ?_
      · rw [ops_eq, List.append_assoc, List.cons_append]
      · intro other hother
        rw [World.dropGuard, marked, if_pos rfl] at hother
        cases hother

/-- The guard gives its handle back, which has not been closed. -/
theorem Shape.release (h : Shape owner ops world) {inner : Nat} (hguard : world.guard = .releasing inner) :
    Shape owner (ops ++ [.release]) (world.release inner) ∧ world.handles[inner]? = some ⟨owner, .live⟩ := by
  have hunseen : unseen (ops ++ [.release]) = unseen ops := unseen_concat ops _
  cases h with
  | original there handles guard closes marked seen =>
      rw [hguard] at handles guard seen
      obtain rfl : inner = 0 := guard
      refine ⟨.original there ?_ trivial closes (marked.trans hunseen.symm) ?_, by rw [handles]; rfl⟩
      · rw [World.release, World.setStatus, handles]
        rfl
      · rw [hunseen, seen]
        rfl
  | moved thread there handles guard closes marked seen =>
      rw [hguard] at handles guard
      obtain rfl : inner = 0 := guard
      refine ⟨.moved thread there ?_ trivial closes (marked.trans hunseen.symm) ?_, by rw [handles]; rfl⟩
      · rw [World.release, World.setStatus, handles]
        rfl
      · exact fun hheld => by cases hheld
  | gone before after thread ops_eq there closes marked guard =>
      refine ⟨.gone before (after ++ [.release]) thread ?_ there closes marked ?_, guard inner hguard⟩
      · rw [ops_eq, List.append_assoc, List.cons_append]
      · intro other hother
        cases hother

/-- What a step keeps. -/
theorem Shape.step (h : Shape owner ops world) {op : Op} (hstep : Step world op after) :
    Shape owner (ops ++ [op]) after := by
  cases hstep with
  | use there populates => exact (h.use there populates).1
  | @dropStream thread stream _ there drops =>
      obtain ⟨hstream, hcloses, hmarked, hguard⟩ := h.dropStream there drops
      exact .gone ops [] thread rfl hstream hcloses hmarked hguard
  | dropGuard guard => exact h.dropGuard guard
  | release guard => exact (h.release guard).1

/-- What a run keeps. -/
theorem shape_of_runs (h : Runs (.new owner) ops world) : Shape owner ops world := by
  induction h with
  | nil => exact shape_new owner
  | step _ hstep ih => exact ih.step hstep

/-- In any run the descriptor is closed at most once. A thread that uses the stream gets a handle that it has made
itself and that is still there, and the descriptor has not been closed. The guard gives back a handle that is
still there. A run does not go on after a step that panics, and making a handle in the driver, which may fail
and panic too, succeeds. -/
theorem safe_of_runs (h : Runs (.new owner) ops world) :
    world.closes ≤ 1 ∧
      (∀ thread, Step world (.use thread) after → ∃ stream handle, after.stream = some stream ∧
        stream.inner = some handle ∧ after.handles[handle]? = some ⟨thread, .live⟩ ∧ after.closes = 0) ∧
      ∀ inner, world.guard = .releasing inner → world.handles[inner]? = some ⟨owner, .live⟩ := by
  have hshape := shape_of_runs h
  refine ⟨?_, ?_, fun inner hguard => (hshape.release hguard).2⟩
  · cases hshape with
    | original there handles guard closes marked seen => omega
    | moved thread there handles guard closes marked seen => omega
    | gone before after thread ops_eq there closes marked guard =>
        rw [closes]
        split <;> omega
  · intro thread hstep
    cases hstep with
    | use there populates =>
        obtain ⟨_, handle, hinner, hhandle, hcloses⟩ := hshape.use there populates
        exact ⟨_, handle, rfl, hinner, hhandle, hcloses⟩

/-- A connection is used, its guard is dropped, and another thread uses it. -/
theorem upgraded_safe : ∃ world after, Runs (.new 0) [.use 0, .dropGuard] world ∧ Step world (.use 1) after ∧
    world.closes ≤ 1 ∧ ∃ stream handle, after.stream = some stream ∧ stream.inner = some handle ∧
      after.handles[handle]? = some ⟨1, .live⟩ ∧ after.closes = 0 := by
  have hused : Runs (.new 0) ([] ++ [.use 0]) _ := .step .nil (.use rfl rfl)
  have hdropped : Runs (.new 0) ([] ++ [.use 0] ++ [.dropGuard]) _ := .step hused (.dropGuard rfl)
  obtain ⟨hcloses, huse, _⟩ := safe_of_runs hdropped
  exact ⟨_, _, hdropped, .use rfl rfl, hcloses, huse 1 (.use rfl rfl)⟩

/-- The last step of a run. -/
theorem Runs.of_concat {start : World} {op : Op} (h : Runs start (ops ++ [op]) after) :
    ∃ world, Runs start ops world ∧ Step world op after := by
  generalize hall : ops ++ [op] = all at h
  cases h with
  | nil => exact absurd hall (by simp)
  | step before hstep =>
      obtain ⟨rfl, hop⟩ := List.append_inj' hall rfl
      rw [List.singleton_inj.1 hop]
      exact ⟨_, before, hstep⟩

/-- When the stream has been dropped, its descriptor has been closed once, unless the guard was dropped before and
the stream was not used in between: then nothing closes it. No step of the run panics, and the driver makes every
handle. -/
theorem closes_of_runs {before back : List Op} {thread : ThreadId}
    (h : Runs (.new owner) (before ++ .dropStream thread :: back) world) :
    world.stream = none ∧ world.closes = if unseen before then 0 else 1 := by
  induction back using List.reverseRecOn generalizing world with
  | nil =>
      obtain ⟨last, hlast, hstep⟩ := h.of_concat
      cases hstep with
      | dropStream there drops =>
          obtain ⟨hstream, hcloses, _⟩ := (shape_of_runs hlast).dropStream there drops
          exact ⟨hstream, hcloses⟩
  | append_singleton back op ih =>
      have hall : before ++ .dropStream thread :: (back ++ [op]) = before ++ .dropStream thread :: back ++ [op] := by
        rw [List.append_assoc, List.cons_append]
      rw [hall] at h
      obtain ⟨last, hlast, hstep⟩ := h.of_concat
      obtain ⟨hstream, hcloses⟩ := ih hlast
      cases hstep with
      | use there populates =>
          rw [hstream] at there
          cases there
      | dropStream there drops =>
          rw [hstream] at there
          cases there
      | dropGuard guard => exact ⟨hstream, hcloses⟩
      | release guard => exact ⟨hstream, hcloses⟩

/-- A connection whose guard is dropped before it, without another use, stays open. -/
theorem upgraded_closes : ∃ world, Runs (.new 0) ([.use 0, .dropGuard, .release] ++ [.dropStream 1]) world ∧
    world.stream = none ∧ world.guard = .dropped ∧ world.closes = 0 := by
  have hused : Runs (.new 0) ([] ++ [.use 0]) _ := .step .nil (.use rfl rfl)
  have hdropped : Runs (.new 0) ([] ++ [.use 0] ++ [.dropGuard]) _ := .step hused (.dropGuard rfl)
  have hreleased : Runs (.new 0) ([] ++ [.use 0] ++ [.dropGuard] ++ [.release]) _ := .step hdropped (.release rfl)
  have hgone : Runs (.new 0) ([.use 0, .dropGuard, .release] ++ .dropStream 1 :: []) _ :=
    .step hreleased (.dropStream rfl rfl)
  obtain ⟨hstream, hcloses⟩ := closes_of_runs hgone
  exact ⟨_, hgone, hstream, rfl, hcloses⟩

end Shapes

/-! ## Panics -/

section Panics

variable {owner : ThreadId} {ops : List Op} {world after : World}

theorem usesOf_concat (owner : ThreadId) (ops : List Op) (op : Op) :
    usesOf owner (ops ++ [op]) = (usesOf owner ops).next op := by
  rw [usesOf, List.foldl_append]
  rfl

theorem unseen_usesOf (owner : ThreadId) (ops : List Op) : (usesOf owner ops).unseen = unseen ops := by
  induction ops using List.reverseRecOn with
  | nil => rfl
  | append_singleton ops op ih =>
      rw [usesOf_concat, unseen_concat]
      cases op with
      | use thread => rfl
      | dropStream thread => exact ih
      | dropGuard => rfl
      | release => exact ih

/-- The mark says whether the guard has been dropped unseen. The stream has a handle. -/
theorem Shape.marked_eq (h : Shape owner ops world) {stream : SendStreamPoll} (hstream : world.stream = some stream) :
    world.markedDropped = unseen ops ∧ stream.obtainedDropped = true ∧ stream.inner.isSome = true := by
  cases h with
  | original there handles guard closes marked seen =>
      rw [there, Option.some.injEq] at hstream
      exact ⟨marked, hstream ▸ rfl, hstream ▸ rfl⟩
  | moved thread there handles guard closes marked seen =>
      rw [there, Option.some.injEq] at hstream
      exact ⟨marked, hstream ▸ rfl, hstream ▸ rfl⟩
  | gone before after thread ops_eq there closes marked guard =>
      rw [there] at hstream
      cases hstream

/-- A second handle is all that there is. -/
theorem populate_eq_none_iff {stream : SendStreamPoll} (hobtained : stream.obtainedDropped = true)
    (thread : ThreadId) : world.populate stream thread false = none ↔
      (world.markedDropped || thread ≠ stream.threadId) = true ∧ stream.prevInner.isSome = true := by
  unfold World.populate
  rw [hobtained, Bool.not_false, Bool.true_and]
  dsimp only
  split
  · rename_i hmoves
    rw [Bool.not_true, if_neg Bool.false_ne_true]
    split
    · rename_i hprev
      exact iff_of_true rfl ⟨hmoves, hprev⟩
    · rename_i hprev
      exact iff_of_false (fun h => by cases h) fun h => hprev h.2
  · rename_i hstays
    exact iff_of_false (fun h => by cases h) fun h => hstays h.1

/-- The stream is with the thread that used it last, and it has had to change its handle once or never. -/
def Placed (owner : ThreadId) (ops : List Op) (world : World) : Prop :=
  ∀ stream ∈ world.stream, stream.threadId = (usesOf owner ops).lastThread ∧
    (usesOf owner ops).changes = if stream.prevInner.isSome then 1 else 0

theorem Placed.step (h : Placed owner ops world) (hshape : Shape owner ops world) {op : Op}
    (hstep : Step world op after) : Placed owner (ops ++ [op]) after := by
  intro stream' hstream'
  rw [usesOf_concat]
  cases hstep with
  | @use thread stream populated there populates =>
      obtain ⟨hthread, hchanges⟩ := h stream there
      obtain ⟨hmarked, _, hinner⟩ := hshape.marked_eq there
      cases hstream'
      rw [Uses.next, unseen_usesOf, ← hmarked, ← hthread]
      rcases populate_spec populates with ⟨hmark, rfl, rfl⟩ | ⟨hmoves, hprev, rfl⟩
      · refine ⟨rfl, ?_⟩
        have hmark : world.markedDropped = false := hmark.resolve_left Bool.false_ne_true
        rw [hmark, Bool.false_or, decide_eq_false (not_not_intro rfl), if_neg Bool.false_ne_true]
        exact hchanges
      · refine ⟨rfl, ?_⟩
        have hmoves : (world.markedDropped || thread ≠ stream.threadId) = true := by
          rw [Bool.or_eq_true, decide_eq_true_iff]
          exact hmoves.imp_left And.right
        rw [hprev] at hchanges
        rw [if_pos hmoves, hchanges, hinner]
        rfl
  | @dropStream thread stream _ there drops =>
      rw [(hshape.dropStream there drops).1] at hstream'
      cases hstream'
  | dropGuard guard => exact h stream' hstream'
  | release guard => exact h stream' hstream'

theorem placed_of_runs (h : Runs (.new owner) ops world) : Placed owner ops world := by
  induction h with
  | nil =>
      intro stream hstream
      cases hstream
      exact ⟨rfl, rfl⟩
  | step before hstep ih => exact ih.step (shape_of_runs before) hstep

/-- When the driver makes every handle, a use of the stream panics exactly when the stream would have to change its
handle a second time. -/
theorem panics_iff (h : Runs (.new owner) ops world) {stream : SendStreamPoll} (hstream : world.stream = some stream)
    (thread : ThreadId) :
    world.populate stream thread false = none ↔ 1 < (usesOf owner (ops ++ [.use thread])).changes := by
  obtain ⟨hmarked, hobtained, _⟩ := (shape_of_runs h).marked_eq hstream
  obtain ⟨hthread, hchanges⟩ := placed_of_runs h stream hstream
  rw [populate_eq_none_iff hobtained, usesOf_concat, Uses.next, unseen_usesOf, ← hmarked, ← hthread, hchanges]
  dsimp only
  cases hmoves : (world.markedDropped || thread ≠ stream.threadId) with
  | false =>
      rw [if_neg Bool.false_ne_true]
      split <;> simp
  | true =>
      rw [if_pos rfl]
      cases stream.prevInner.isSome <;> simp

/-- A connection that is used on another thread just before its guard is dropped panics at the next use. -/
theorem upgraded_panics : ∃ world stream, Runs (.new 0) [.use 0, .use 1, .dropGuard] world ∧
    world.stream = some stream ∧ world.populate stream 1 false = none := by
  have hused : Runs (.new 0) ([] ++ [.use 0]) _ := .step .nil (.use rfl rfl)
  have hmoved : Runs (.new 0) ([] ++ [.use 0] ++ [.use 1]) _ := .step hused (.use rfl rfl)
  have hdropped : Runs (.new 0) ([] ++ [.use 0] ++ [.use 1] ++ [.dropGuard]) _ := .step hmoved (.dropGuard rfl)
  exact ⟨_, _, hdropped, rfl, (panics_iff hdropped rfl 1).2 (by decide)⟩

end Panics

end Ferron.Modules.SendNetIo
