import Ferron.Lib.Run
import Mathlib.Tactic

/-!
# Splitting a stream

`split_by_map` splits a stream into two halves. A half that gets an item for the other one hands it
over through a buffer, wakes the other half if it has been polled before, and is pending.

`run_partitions` says that the halves partition the stream, however they are polled. When one task
drains the left half first and then the right half, nobody takes an item out of the buffer of the right
half while the left half is drained: `drains_iff` says that this works exactly for streams without
items for the right half.
-/

set_option autoImplicit false

namespace Ferron.Util.SplitStreamByMap

open Ferron.Lib.Run

/-- `Poll`. -/
inductive Poll (α : Type) where
  | ready (value : α)
  | pending
  deriving DecidableEq

/-- A stream, by its answers to the polls. After the end it keeps answering that it has ended. -/
structure Source (ι : Type) where
  poll : Nat → Poll (Option ι)
  fused : ∀ n, poll n = .ready none → poll (n + 1) = .ready none

variable {ι L R W : Type}

/-- The two halves share the buffers, the wakers and the stream, which has been polled so often. -/
structure SplitByMap (L R W : Type) where
  bufLeft : Option L
  bufRight : Option R
  wakerLeft : Option W
  wakerRight : Option W
  position : Nat

namespace SplitByMap

/-- `new`. -/
def new : SplitByMap L R W := ⟨none, none, none, none, 0⟩

/-- The sides exchanged. -/
def swap (this : SplitByMap L R W) : SplitByMap R L W :=
  ⟨this.bufRight, this.bufLeft, this.wakerRight, this.wakerLeft, this.position⟩

end SplitByMap

/-- What a poll of a half gives: the answer, the wakers it has woken, and whether the stream has
registered the waker of the poll. -/
structure PollResult (L R W : Type) where
  this : SplitByMap L R W
  answer : Poll (Option L)
  woken : List W
  registered : Bool

/-- `poll_next_left`. -/
def pollNextLeft (source : Source ι) (predicate : ι → L ⊕ R) (waker : W)
    (split : SplitByMap L R W) : PollResult L R W :=
  let this := { split with wakerLeft := some waker }
  match this.bufLeft with
  | some item => ⟨{ this with bufLeft := none }, .ready (some item), [], false⟩
  | none =>
      if this.bufRight.isSome then ⟨this, .pending, this.wakerRight.toList, false⟩
      else
        let next := { this with position := this.position + 1 }
        match source.poll this.position with
        | .ready (some item) =>
            match predicate item with
            | .inl leftItem => ⟨next, .ready (some leftItem), [], false⟩
            | .inr rightItem =>
                ⟨{ next with bufRight := some rightItem }, .pending, next.wakerRight.toList, false⟩
        | .ready none => ⟨next, .ready none, next.wakerRight.toList, false⟩
        | .pending => ⟨next, .pending, [], true⟩

/-- `poll_next_right`: the same with the sides exchanged. -/
def pollNextRight (source : Source ι) (predicate : ι → L ⊕ R) (waker : W)
    (split : SplitByMap L R W) : PollResult R L W :=
  pollNextLeft source (fun item => (predicate item).swap) waker split.swap

/-! ## Interleaved polls -/

/-- The two halves, what they have yielded, and whether they have returned the end of the stream. -/
structure Halves (L R W : Type) where
  split : SplitByMap L R W
  left : List L
  right : List R
  leftEnded : Bool
  rightEnded : Bool

/-- A poll of a half. While the other half is being polled, the lock is held. -/
inductive Action (W : Type) where
  | pollLeft (waker : W) (locked : Bool)
  | pollRight (waker : W) (locked : Bool)

/-- The item that a poll yields. -/
def Poll.item {α : Type} : Poll (Option α) → Option α
  | ready item => item
  | pending => none

/-- The poll returns the end of the stream. -/
def Poll.isEnd {α : Type} : Poll (Option α) → Bool
  | ready none => true
  | _ => false

/-- The halves after a poll of the left one. -/
def pollLeft (source : Source ι) (predicate : ι → L ⊕ R) (waker : W) (halves : Halves L R W) :
    Halves L R W :=
  let result := pollNextLeft source predicate waker halves.split
  { halves with
    split := result.this
    left := halves.left ++ result.answer.item.toList
    leftEnded := halves.leftEnded || result.answer.isEnd }

/-- The halves after a poll of the right one. -/
def pollRight (source : Source ι) (predicate : ι → L ⊕ R) (waker : W) (halves : Halves L R W) :
    Halves L R W :=
  let result := pollNextRight source predicate waker halves.split
  { halves with
    split := result.this.swap
    right := halves.right ++ result.answer.item.toList
    rightEnded := halves.rightEnded || result.answer.isEnd }

/-- One poll. When the lock is held the half is pending and wakes its own task. -/
def step (source : Source ι) (predicate : ι → L ⊕ R) (halves : Halves L R W) :
    Action W → Halves L R W
  | .pollLeft waker locked => if locked then halves else pollLeft source predicate waker halves
  | .pollRight waker locked => if locked then halves else pollRight source predicate waker halves

/-- The halves that `split_by_map` gives. -/
def splitByMap : Halves L R W := ⟨.new, [], [], false, false⟩

/-- The items among the first answers of a stream. -/
def received (source : Source ι) (n : Nat) : List ι :=
  (List.range n).filterMap fun k => (source.poll k).item

/-- The left-classified ones. -/
def lefts (source : Source ι) (predicate : ι → L ⊕ R) (n : Nat) : List L :=
  (received source n).filterMap fun item => (predicate item).getLeft?

/-- The right-classified ones. -/
def rights (source : Source ι) (predicate : ι → L ⊕ R) (n : Nat) : List R :=
  (received source n).filterMap fun item => (predicate item).getRight?

/-! ## What a poll does -/

variable {source : Source ι} {predicate : ι → L ⊕ R} {waker : W}

/-- A poll takes the item of its own buffer, or it leaves the item of the other one, or it polls the
stream once, with both buffers empty. -/
theorem pollNextLeft_cases (source : Source ι) (predicate : ι → L ⊕ R) (waker : W)
    (split : SplitByMap L R W) :
    let result := pollNextLeft source predicate waker split
    (∃ item, split.bufLeft = some item ∧ result.answer = .ready (some item) ∧
        result.this.bufLeft = none ∧ result.this.bufRight = split.bufRight ∧
        result.this.position = split.position) ∨
      (split.bufLeft = none ∧ split.bufRight.isSome = true ∧ result.answer = .pending ∧
        result.this.bufLeft = none ∧ result.this.bufRight = split.bufRight ∧
        result.this.position = split.position) ∨
      (split.bufLeft = none ∧ split.bufRight = none ∧ result.this.bufLeft = none ∧
        result.this.position = split.position + 1 ∧
        ((∃ item leftItem, source.poll split.position = .ready (some item) ∧
            predicate item = .inl leftItem ∧ result.answer = .ready (some leftItem) ∧
            result.this.bufRight = none) ∨
          (∃ item rightItem, source.poll split.position = .ready (some item) ∧
            predicate item = .inr rightItem ∧ result.answer = .pending ∧
            result.this.bufRight = some rightItem) ∨
          (source.poll split.position = .ready none ∧ result.answer = .ready none ∧
            result.this.bufRight = none) ∨
          (source.poll split.position = .pending ∧ result.answer = .pending ∧
            result.this.bufRight = none))) := by
  obtain ⟨bufLeft, bufRight, wakerLeft, wakerRight, position⟩ := split
  dsimp only
  cases bufLeft with
  | some item => exact Or.inl ⟨item, rfl, rfl, rfl, rfl, rfl⟩
  | none =>
      cases bufRight with
      | some item => exact Or.inr (Or.inl ⟨rfl, rfl, rfl, rfl, rfl, rfl⟩)
      | none =>
          refine Or.inr (Or.inr ⟨rfl, rfl, ?_⟩)
          cases hpoll : source.poll position with
          | pending => simp [pollNextLeft, hpoll]
          | ready answer =>
              cases answer with
              | none => simp [pollNextLeft, hpoll]
              | some item =>
                  cases hitem : predicate item with
                  | inl leftItem => simp [pollNextLeft, hpoll, hitem]
                  | inr rightItem => simp [pollNextLeft, hpoll, hitem]

theorem received_succ (source : Source ι) (n : Nat) :
    received source (n + 1) = received source n ++ (source.poll n).item.toList := by
  rw [received, received, List.range_succ, List.filterMap_append]
  cases hitem : (source.poll n).item <;> simp [hitem]

theorem lefts_succ (source : Source ι) (predicate : ι → L ⊕ R) (n : Nat) :
    lefts source predicate (n + 1) = lefts source predicate n ++
      ((source.poll n).item.toList.filterMap fun item => (predicate item).getLeft?) := by
  rw [lefts, lefts, received_succ, List.filterMap_append]

theorem rights_succ (source : Source ι) (predicate : ι → L ⊕ R) (n : Nat) :
    rights source predicate (n + 1) = rights source predicate n ++
      ((source.poll n).item.toList.filterMap fun item => (predicate item).getRight?) := by
  rw [rights, rights, received_succ, List.filterMap_append]

/-- Every item that has been received is yielded or in a buffer, once and in order. -/
structure Conserves (source : Source ι) (predicate : ι → L ⊕ R) (split : SplitByMap L R W)
    (left : List L) (right : List R) : Prop where
  left : left ++ split.bufLeft.toList = lefts source predicate split.position
  right : right ++ split.bufRight.toList = rights source predicate split.position

/-- The stream has ended and the buffers are empty. -/
structure Ended (source : Source ι) (split : SplitByMap L R W) : Prop where
  bufLeft : split.bufLeft = none
  bufRight : split.bufRight = none
  source : ∃ n < split.position, source.poll n = .ready none

/-- A poll loses no item. -/
theorem Conserves.poll {split : SplitByMap L R W} {left : List L} {right : List R}
    (h : Conserves source predicate split left right) (waker : W) :
    Conserves source predicate (pollNextLeft source predicate waker split).this
      (left ++ (pollNextLeft source predicate waker split).answer.item.toList) right := by
  obtain ⟨hleft, hright⟩ := h
  rcases pollNextLeft_cases source predicate waker split with
    ⟨item, hbuf, hanswer, hbuf', hright', hposition⟩ |
    ⟨hbuf, -, hanswer, hbuf', hright', hposition⟩ |
    ⟨hbuf, hbufRight, hbuf', hposition, hpolled⟩
  · rw [hbuf] at hleft
    constructor
    · rw [hanswer, hbuf', hposition, ← hleft]
      simp [Poll.item]
    · rw [hright', hposition, hright]
  · rw [hbuf] at hleft
    constructor
    · rw [hanswer, hbuf', hposition, ← hleft]
      simp [Poll.item]
    · rw [hright', hposition, hright]
  · rw [hbuf, Option.toList_none, List.append_nil] at hleft
    rw [hbufRight, Option.toList_none, List.append_nil] at hright
    -- the stream has been polled once more
    rcases hpolled with ⟨item, leftItem, hpoll, hitem, hanswer, hbuf''⟩ |
      ⟨item, rightItem, hpoll, hitem, hanswer, hbuf''⟩ | ⟨hpoll, hanswer, hbuf''⟩ |
      ⟨hpoll, hanswer, hbuf''⟩
    all_goals
      constructor
      · rw [hanswer, hbuf', hposition, lefts_succ, ← hleft, hpoll]
        simp [Poll.item, *]
      · rw [hbuf'', hposition, rights_succ, ← hright, hpoll]
        simp [Poll.item, *]

/-- Once the stream has ended, it answers so. -/
theorem Source.poll_of_ended (source : Source ι) {n m : Nat} (hend : source.poll n = .ready none)
    (hle : n ≤ m) : source.poll m = .ready none := by
  induction m, hle using Nat.le_induction with
  | base => exact hend
  | succ m _ ih => exact source.fused m ih

theorem Ended.poll {split : SplitByMap L R W} (h : Ended source split) (waker : W) :
    Ended source (pollNextLeft source predicate waker split).this := by
  obtain ⟨hleft, hright, n, hn, hend⟩ := h
  have hpoll := source.poll_of_ended hend hn.le
  rcases pollNextLeft_cases source predicate waker split with
    ⟨item, hbuf, -⟩ | ⟨-, hbuf, -⟩ | ⟨-, -, hbuf', hposition, hpolled⟩
  · exact absurd (hleft.symm.trans hbuf) (by simp)
  · exact absurd hbuf (by simp [hright])
  · refine ⟨hbuf', ?_, n, by omega, hend⟩
    simp only [hpoll, Poll.ready.injEq, reduceCtorEq, false_and, exists_false, true_and,
      false_or, or_false] at hpolled
    exact hpolled.2

/-- A half that returns the end of the stream finds both buffers empty. -/
theorem ended_of_isEnd {split : SplitByMap L R W}
    (h : (pollNextLeft source predicate waker split).answer.isEnd = true) :
    Ended source (pollNextLeft source predicate waker split).this := by
  rcases pollNextLeft_cases source predicate waker split with
    ⟨item, hbuf, hanswer, -⟩ | ⟨-, -, hanswer, -⟩ | ⟨-, -, hbuf', hposition, hpolled⟩
  · exact absurd h (by simp [hanswer, Poll.isEnd])
  · exact absurd h (by simp [hanswer, Poll.isEnd])
  · rcases hpolled with ⟨item, leftItem, hpoll, hitem, hanswer, -⟩ |
      ⟨item, rightItem, hpoll, hitem, hanswer, -⟩ | ⟨hpoll, hanswer, hbuf''⟩ |
      ⟨hpoll, hanswer, -⟩
    · exact absurd h (by simp [hanswer, Poll.isEnd])
    · exact absurd h (by simp [hanswer, Poll.isEnd])
    · exact ⟨hbuf', hbuf'', split.position, by omega, hpoll⟩
    · exact absurd h (by simp [hanswer, Poll.isEnd])

theorem Ended.swap {split : SplitByMap L R W} (h : Ended source split) :
    Ended source split.swap := ⟨h.bufRight, h.bufLeft, h.source⟩

theorem Conserves.swap {split : SplitByMap L R W} {left : List L} {right : List R}
    (h : Conserves source predicate split left right) :
    Conserves source (fun item => (predicate item).swap) split.swap right left := by
  constructor
  · rw [lefts]
    simp only [Sum.getLeft?_swap]
    exact h.right
  · rw [rights]
    simp only [Sum.getRight?_swap]
    exact h.left

/-! ## Runs -/

/-- No item is lost, and a half has returned the end of the stream only when nothing is left. -/
structure Inv (source : Source ι) (predicate : ι → L ⊕ R) (halves : Halves L R W) : Prop where
  conserves : Conserves source predicate halves.split halves.left halves.right
  leftEnded : halves.leftEnded = true → Ended source halves.split
  rightEnded : halves.rightEnded = true → Ended source halves.split

theorem inv_splitByMap : Inv source predicate (splitByMap : Halves L R W) where
  conserves := ⟨rfl, rfl⟩
  leftEnded h := absurd h (by simp [splitByMap])
  rightEnded h := absurd h (by simp [splitByMap])

theorem Inv.pollLeft {halves : Halves L R W} (h : Inv source predicate halves) (waker : W) :
    Inv source predicate (pollLeft source predicate waker halves) := by
  refine ⟨h.conserves.poll waker, ?_, fun hended => (h.rightEnded hended).poll waker⟩
  intro hended
  rcases Bool.or_eq_true_iff.1 hended with hold | hnew
  · exact (h.leftEnded hold).poll waker
  · exact ended_of_isEnd hnew

theorem Inv.pollRight {halves : Halves L R W} (h : Inv source predicate halves) (waker : W) :
    Inv source predicate (pollRight source predicate waker halves) := by
  refine ⟨?_, fun hended => ((h.leftEnded hended).swap.poll waker).swap, ?_⟩
  · have hswap := (h.conserves.swap.poll waker).swap
    simp only [Sum.swap_swap] at hswap
    exact hswap
  · intro hended
    rcases Bool.or_eq_true_iff.1 hended with hold | hnew
    · exact ((h.rightEnded hold).swap.poll waker).swap
    · exact (ended_of_isEnd hnew).swap

theorem Inv.step {halves : Halves L R W} (h : Inv source predicate halves) (action : Action W) :
    Inv source predicate (step source predicate halves action) := by
  cases action with
  | pollLeft waker locked =>
      cases locked with
      | false => exact h.pollLeft waker
      | true => exact h
  | pollRight waker locked =>
      cases locked with
      | false => exact h.pollRight waker
      | true => exact h

/-- Nothing comes after the end. -/
theorem received_of_ended {n m : Nat} (hend : ∃ k < n, source.poll k = .ready none) (hle : n ≤ m) :
    received source m = received source n := by
  obtain ⟨k, hk, hend⟩ := hend
  induction m, hle using Nat.le_induction with
  | base => rfl
  | succ m hnm ih =>
      rw [received_succ, ih, source.poll_of_ended hend (by omega : k ≤ m)]
      exact List.append_nil _

theorem received_prefix (source : Source ι) {n m : Nat} (hle : n ≤ m) :
    received source n <+: received source m := by
  induction m, hle using Nat.le_induction with
  | base => exact List.prefix_rfl
  | succ m _ ih =>
      rw [received_succ]
      exact ih.trans (List.prefix_append _ _)

/-- However the halves are polled, what they have yielded are prefixes of their items of the stream;
together with the buffers it is all that has been received, and when a half has returned the end of the
stream nothing is missing. -/
theorem run_partitions (source : Source ι) (predicate : ι → L ⊕ R) (actions : List (Action W)) :
    let halves := run (step source predicate) splitByMap actions
    (∀ n, halves.split.position ≤ n →
        halves.left <+: lefts source predicate n ∧ halves.right <+: rights source predicate n) ∧
      halves.left ++ halves.split.bufLeft.toList =
        lefts source predicate halves.split.position ∧
      halves.right ++ halves.split.bufRight.toList =
        rights source predicate halves.split.position ∧
      (halves.leftEnded = true → halves.rightEnded = true →
        ∀ n, halves.split.position ≤ n →
          halves.left = lefts source predicate n ∧ halves.right = rights source predicate n) := by
  intro halves
  have hinv : Inv source predicate halves :=
    run_invariant' (fun _ action h => h.step action) actions inv_splitByMap
  obtain ⟨⟨hleft, hright⟩, hended, -⟩ := hinv
  refine ⟨?_, hleft, hright, ?_⟩
  · intro n hn
    have hreceived := received_prefix source hn
    constructor
    · exact List.IsPrefix.trans ⟨_, hleft⟩ (hreceived.filterMap _)
    · exact List.IsPrefix.trans ⟨_, hright⟩ (hreceived.filterMap _)
  · intro hleftEnded _ n hn
    obtain ⟨hbufLeft, hbufRight, hsource⟩ := hended hleftEnded
    rw [hbufLeft, Option.toList_none, List.append_nil] at hleft
    rw [hbufRight, Option.toList_none, List.append_nil] at hright
    rw [lefts, rights, received_of_ended hsource hn]
    exact ⟨hleft, hright⟩

/-! ## Draining one half after the other -/

/-- What becomes of the task that drains the halves: it is polled again at once, or when the stream
wakes it, or never, or it has come to the end. -/
inductive Status where
  | runnable
  | waitsForSource
  | stuck
  | finished
  deriving DecidableEq

/-- A task that drains the left half first and then the right half, with one waker. -/
structure Chain (L R : Type) where
  halves : Halves L R Unit
  status : Status

/-- The task after a poll that has not come to the end: when the answer is pending, it needs a
waker that has been woken or that the stream has registered. -/
def statusAfter {α β : Type} (result : PollResult α β Unit) : Status :=
  match result.answer with
  | .ready _ => .runnable
  | .pending =>
      if result.registered then .waitsForSource
      else if () ∈ result.woken then .runnable
      else .stuck

/-- One poll of the task, when it is polled again. -/
def chainStep (source : Source ι) (predicate : ι → L ⊕ R) (chain : Chain L R) : Chain L R :=
  match chain.status with
  | .stuck => chain
  | .finished => chain
  | _ =>
      if chain.halves.leftEnded then
        { halves := pollRight source predicate () chain.halves
          status :=
            if (pollRight source predicate () chain.halves).rightEnded then .finished
            else statusAfter (pollNextRight source predicate () chain.halves.split) }
      else
        { halves := pollLeft source predicate () chain.halves
          status := statusAfter (pollNextLeft source predicate () chain.halves.split) }

/-- The task after some polls. -/
def chainRun (source : Source ι) (predicate : ι → L ⊕ R) (n : Nat) : Chain L R :=
  (chainStep source predicate)^[n] ⟨splitByMap, .runnable⟩

/-- The stream ends. -/
def Finite (source : Source ι) : Prop := ∃ n, source.poll n = .ready none

/-- The task comes to the end of both halves, and every item has been delivered. -/
def Drains (source : Source ι) (predicate : ι → L ⊕ R) : Prop :=
  ∃ n, (chainRun source predicate n).status = .finished ∧
    ∀ m, source.poll m = .ready none →
      (chainRun source predicate n).halves.left = lefts source predicate m ∧
        (chainRun source predicate n).halves.right = rights source predicate m

/-- The task is never pending without anything that wakes it. -/
def NeverStuck (source : Source ι) (predicate : ι → L ⊕ R) : Prop :=
  ∀ n, (chainRun source predicate n).status ≠ .stuck

/-- No item is right-classified. -/
def OnlyLeft (source : Source ι) (predicate : ι → L ⊕ R) : Prop :=
  ∀ n item, source.poll n = .ready (some item) → (predicate item).isLeft = true

/-- The task drains the left half, has polled the stream so often, and the buffers are empty. -/
structure DrainsLeft (source : Source ι) (predicate : ι → L ⊕ R) (chain : Chain L R) (n : Nat) :
    Prop where
  status : chain.status = .runnable ∨ chain.status = .waitsForSource
  leftEnded : chain.halves.leftEnded = false
  rightEnded : chain.halves.rightEnded = false
  position : chain.halves.split.position = n
  bufLeft : chain.halves.split.bufLeft = none
  bufRight : chain.halves.split.bufRight = none
  wakerRight : chain.halves.split.wakerRight = none
  left : chain.halves.left = lefts source predicate n
  right : chain.halves.right = []

theorem chainRun_succ (source : Source ι) (predicate : ι → L ⊕ R) (n : Nat) :
    chainRun source predicate (n + 1) = chainStep source predicate (chainRun source predicate n) :=
  Function.iterate_succ_apply' _ _ _

theorem drainsLeft_zero : DrainsLeft source predicate (chainRun source predicate 0) 0 :=
  ⟨Or.inl rfl, rfl, rfl, rfl, rfl, rfl, rfl, rfl, rfl⟩

theorem DrainsLeft.chainStep_eq {chain : Chain L R} {n : Nat}
    (h : DrainsLeft source predicate chain n) :
    chainStep source predicate chain =
      { halves := pollLeft source predicate () chain.halves
        status := statusAfter (pollNextLeft source predicate () chain.halves.split) } := by
  unfold chainStep
  rcases h.status with hstatus | hstatus
  · rw [hstatus]
    dsimp only
    rw [h.leftEnded, if_neg (by simp)]
  · rw [hstatus]
    dsimp only
    rw [h.leftEnded, if_neg (by simp)]

/-- A poll that gets no item, or one for the left half, goes on. -/
theorem DrainsLeft.step {chain : Chain L R} {n : Nat} (h : DrainsLeft source predicate chain n)
    (hitem : ∀ item, source.poll n = .ready (some item) → (predicate item).isLeft = true)
    (hend : source.poll n ≠ .ready none) :
    DrainsLeft source predicate (chainStep source predicate chain) (n + 1) := by
  rw [h.chainStep_eq]
  obtain ⟨⟨⟨bufLeft, bufRight, wakerLeft, wakerRight, position⟩, left, right, leftEnded, rightEnded⟩,
    status⟩ := chain
  obtain ⟨-, hleftEnded, hrightEnded, hposition, hbufLeft, hbufRight, hwaker, hleft, hright⟩ := h
  dsimp only at hleftEnded hrightEnded hposition hbufLeft hbufRight hwaker hleft hright
  subst hleftEnded hrightEnded hposition hbufLeft hbufRight hwaker hleft hright
  cases hpoll : source.poll position with
  | pending =>
      refine ⟨Or.inr ?_, ?_, rfl, ?_, ?_, ?_, ?_, ?_, rfl⟩ <;>
        simp [pollLeft, pollNextLeft, hpoll, statusAfter, Poll.isEnd, Poll.item, lefts_succ]
  | ready answer =>
      cases answer with
      | none => exact absurd hpoll hend
      | some item =>
          obtain ⟨leftItem, hleftItem⟩ := Sum.isLeft_iff.1 (hitem item hpoll)
          refine ⟨Or.inl ?_, ?_, rfl, ?_, ?_, ?_, ?_, ?_, rfl⟩ <;>
            simp [pollLeft, pollNextLeft, hpoll, hleftItem, statusAfter, Poll.isEnd, Poll.item,
              lefts_succ]

/-- An item for the right half gets the task stuck. -/
theorem DrainsLeft.stuck {chain : Chain L R} {n : Nat} (h : DrainsLeft source predicate chain n)
    {item : ι} (hpoll : source.poll n = .ready (some item))
    (hright : (predicate item).isLeft = false) :
    (chainStep source predicate chain).status = .stuck := by
  rw [h.chainStep_eq]
  obtain ⟨rightItem, hrightItem⟩ := Sum.isRight_iff.1 (by simpa using hright)
  have hbufLeft := h.bufLeft
  have hbufRight := h.bufRight
  have hwaker := h.wakerRight
  have hposition := h.position
  simp [pollNextLeft, hbufLeft, hbufRight, hwaker, hposition, hpoll, hrightItem, statusAfter]

/-- At the end of the stream the task goes on to the right half, which has nothing, and is finished. -/
theorem DrainsLeft.finish {chain : Chain L R} {n : Nat} (h : DrainsLeft source predicate chain n)
    (hend : source.poll n = .ready none) :
    let next := chainStep source predicate chain
    next.status = .runnable ∧ (chainStep source predicate next).status = .finished ∧
      (chainStep source predicate next).halves.left = lefts source predicate n ∧
      (chainStep source predicate next).halves.right = [] := by
  dsimp only
  rw [h.chainStep_eq]
  obtain ⟨⟨⟨bufLeft, bufRight, wakerLeft, wakerRight, position⟩, left, right, leftEnded, rightEnded⟩,
    status⟩ := chain
  obtain ⟨-, hleftEnded, hrightEnded, hposition, hbufLeft, hbufRight, hwaker, hleft, hright⟩ := h
  dsimp only at hleftEnded hrightEnded hposition hbufLeft hbufRight hwaker hleft hright
  subst hleftEnded hrightEnded hposition hbufLeft hbufRight hwaker hleft hright
  have hnext := source.fused position hend
  simp [chainStep, pollLeft, pollRight, pollNextLeft, pollNextRight, SplitByMap.swap, hend, hnext,
    statusAfter, Poll.isEnd, Poll.item]

/-- As long as the stream has no item for the right half and has not ended, the left half is drained. -/
theorem drainsLeft_run {n : Nat}
    (hitem : ∀ k < n, ∀ item, source.poll k = .ready (some item) → (predicate item).isLeft = true)
    (hend : ∀ k < n, source.poll k ≠ .ready none) :
    DrainsLeft source predicate (chainRun source predicate n) n := by
  induction n with
  | zero => exact drainsLeft_zero
  | succ n ih =>
      rw [chainRun_succ]
      apply DrainsLeft.step (ih (fun k hk => hitem k (by omega)) fun k hk => hend k (by omega))
      · exact hitem n (by omega)
      · exact hend n (by omega)

/-- Without items for the right half nothing belongs to it. -/
theorem rights_of_onlyLeft (h : OnlyLeft source predicate) (n : Nat) :
    rights source predicate n = [] := by
  induction n with
  | zero => rfl
  | succ n ih =>
      rw [rights_succ, ih, List.nil_append]
      cases hpoll : source.poll n with
      | pending => rfl
      | ready answer =>
          cases answer with
          | none => rfl
          | some item =>
              obtain ⟨leftItem, hleftItem⟩ := Sum.isLeft_iff.1 (h n item hpoll)
              simp [Poll.item, hleftItem]

theorem chainRun_finished {n m : Nat} (h : (chainRun source predicate n).status = .finished)
    (hle : n ≤ m) : chainRun source predicate m = chainRun source predicate n := by
  induction m, hle using Nat.le_induction with
  | base => rfl
  | succ m _ ih =>
      rw [chainRun_succ, ih, chainStep, h]

theorem chainRun_stuck {n m : Nat} (h : (chainRun source predicate n).status = .stuck) (hle : n ≤ m) :
    chainRun source predicate m = chainRun source predicate n := by
  induction m, hle using Nat.le_induction with
  | base => rfl
  | succ m _ ih =>
      rw [chainRun_succ, ih, chainStep, h]

theorem DrainsLeft.not_finished {chain : Chain L R} {n : Nat} (h : DrainsLeft source predicate chain n) :
    chain.status ≠ .finished := by
  rcases h.status with hstatus | hstatus
  · rw [hstatus]
    simp
  · rw [hstatus]
    simp

theorem mem_received_iff {item : ι} {n : Nat} :
    item ∈ received source n ↔ ∃ k < n, source.poll k = .ready (some item) := by
  simp only [received, List.mem_filterMap, List.mem_range]
  refine exists_congr fun k => and_congr_right fun _ => ?_
  cases source.poll k with
  | pending => simp [Poll.item]
  | ready answer => simp [Poll.item]

/-- A task that has come to the end has drained a stream that ends and has no item for the right half. -/
theorem of_chainRun_finished {n : Nat} (h : (chainRun source predicate n).status = .finished) :
    ∃ last, source.poll last = .ready none ∧
      (∀ item ∈ received source last, (predicate item).isLeft = true) ∧
      (chainRun source predicate n).halves.left = lefts source predicate last ∧
      (chainRun source predicate n).halves.right = [] := by
  classical
  -- the first poll at which the left half is not drained any more
  have hdrains : ∀ m, (∀ k < m, source.poll k ≠ .ready none ∧
      ∀ item, source.poll k = .ready (some item) → (predicate item).isLeft = true) →
        DrainsLeft source predicate (chainRun source predicate m) m := fun m hbefore =>
    drainsLeft_run (fun k hk => (hbefore k hk).2) fun k hk => (hbefore k hk).1
  by_cases hexists : ∃ k, ¬ (source.poll k ≠ .ready none ∧
      ∀ item, source.poll k = .ready (some item) → (predicate item).isLeft = true)
  · have hbefore := fun k => Nat.find_min hexists (m := k)
    have hfirst := Nat.find_spec hexists
    generalize Nat.find hexists = first at hbefore hfirst
    simp only [not_not] at hbefore
    have hlt : first < n := by
      by_contra hnot
      exact (hdrains n fun k hk => hbefore k (by omega)).not_finished h
    by_cases hend : source.poll first = .ready none
    · obtain ⟨hrunnable, hfinished, hleft, hright⟩ := (hdrains first hbefore).finish hend
      rw [← chainRun_succ] at hrunnable hfinished hleft hright
      rw [← chainRun_succ] at hfinished hleft hright
      have hle : first + 2 ≤ n := by
        by_contra hnot
        have hn : n = first + 1 := by omega
        rw [hn, hrunnable] at h
        exact absurd h (by simp)
      refine ⟨first, hend, ?_, ?_⟩
      · intro item hitem
        obtain ⟨k, hk, hpoll⟩ := mem_received_iff.1 hitem
        exact (hbefore k hk).2 item hpoll
      · rw [chainRun_finished hfinished hle]
        exact ⟨hleft, hright⟩
    · -- an item for the right half, at which the task gets stuck
      simp only [ne_eq, hend, not_false_eq_true, true_and, not_forall] at hfirst
      obtain ⟨item, hpoll, hright⟩ := hfirst
      have hstuck := (hdrains first hbefore).stuck hpoll (by simpa using hright)
      rw [← chainRun_succ] at hstuck
      rw [chainRun_stuck hstuck hlt, hstuck] at h
      exact absurd h (by simp)
  · simp only [not_exists, not_not] at hexists
    exact absurd h (hdrains n fun k _ => hexists k).not_finished

/-- A stream that ends and has no item for the right half before is drained. -/
theorem exists_chainRun_finished {last : Nat} (hend : source.poll last = .ready none)
    (hleft : ∀ item ∈ received source last, (predicate item).isLeft = true) :
    ∃ n, (chainRun source predicate n).status = .finished ∧
      (chainRun source predicate n).halves.left = lefts source predicate last ∧
      (chainRun source predicate n).halves.right = [] := by
  classical
  have hfinite : Finite source := ⟨last, hend⟩
  obtain ⟨hfirst, hbefore⟩ := And.intro (Nat.find_spec hfinite) fun k => Nat.find_min hfinite (m := k)
  have hle : Nat.find hfinite ≤ last := Nat.find_min' hfinite hend
  generalize Nat.find hfinite = first at hfirst hbefore hle
  have hsame : received source last = received source first := by
    have hnothing : received source (first + 1) = received source first := by
      rw [received_succ, hfirst]
      exact List.append_nil _
    rcases Nat.eq_or_lt_of_le hle with rfl | hlt
    · rfl
    · rw [← hnothing]
      exact received_of_ended ⟨first, by omega, hfirst⟩ hlt
  have hdrains : DrainsLeft source predicate (chainRun source predicate first) first := by
    apply drainsLeft_run
    · intro k hk item hpoll
      exact hleft item (mem_received_iff.2 ⟨k, by omega, hpoll⟩)
    · exact fun k hk => hbefore k hk
  obtain ⟨-, hfinished, hdrained, hright⟩ := hdrains.finish hfirst
  rw [← chainRun_succ, ← chainRun_succ] at hfinished hdrained hright
  refine ⟨first + 2, hfinished, ?_, hright⟩
  rw [hdrained, lefts, lefts, hsame]

/-- A stream that ends is drained, without getting stuck, exactly when it has no item for the right
half. -/
theorem drains_iff (source : Source ι) (predicate : ι → L ⊕ R) (hfinite : Finite source) :
    Drains source predicate ∧ NeverStuck source predicate ↔ OnlyLeft source predicate := by
  classical
  obtain ⟨hend, hbefore⟩ := And.intro (Nat.find_spec hfinite) fun k => Nat.find_min hfinite (m := k)
  generalize Nat.find hfinite = last at hend hbefore
  constructor
  · rintro ⟨-, hstuck⟩ n item hpoll
    by_contra hright
    -- the first item for the right half
    have hexists : ∃ n, ∃ item, source.poll n = .ready (some item) ∧
        (predicate item).isLeft = false := ⟨n, item, hpoll, by simpa using hright⟩
    obtain ⟨first, hfirst, hright'⟩ := Nat.find_spec hexists
    have hlt : Nat.find hexists < last := by
      by_contra hnot
      have hended := source.poll_of_ended hend (Nat.le_of_not_lt hnot)
      exact absurd (hended.symm.trans hfirst) (by simp)
    have hdrains : DrainsLeft source predicate (chainRun source predicate (Nat.find hexists))
        (Nat.find hexists) := by
      apply drainsLeft_run
      · intro k hk item hitem
        by_contra hnot
        exact Nat.find_min hexists hk ⟨item, hitem, by simpa using hnot⟩
      · intro k hk
        exact hbefore k (by omega)
    apply hstuck (Nat.find hexists + 1)
    rw [chainRun_succ]
    exact hdrains.stuck hfirst hright'
  · intro honly
    have hdrains : ∀ n ≤ last, DrainsLeft source predicate (chainRun source predicate n) n := by
      intro n hn
      apply drainsLeft_run
      · intro k _ item
        exact honly k item
      · intro k hk
        exact hbefore k (by omega)
    obtain ⟨hrunnable, hfinished, hleft, hright⟩ := (hdrains last le_rfl).finish hend
    rw [← chainRun_succ] at hrunnable hfinished hleft hright
    rw [← chainRun_succ] at hfinished hleft hright
    constructor
    · refine ⟨last + 2, hfinished, ?_⟩
      intro m hm
      have hle : last ≤ m := by
        by_contra hnot
        exact hbefore m (by omega) hm
      have hnothing : received source (last + 1) = received source last := by
        rw [received_succ, hend]
        exact List.append_nil _
      have hsame : received source m = received source last := by
        rcases Nat.eq_or_lt_of_le hle with rfl | hlt
        · rfl
        · rw [← hnothing]
          exact received_of_ended ⟨last, by omega, hend⟩ hlt
      rw [hright, rights_of_onlyLeft honly, hleft, lefts, lefts, hsame]
      exact ⟨rfl, rfl⟩
    · intro n
      rcases Nat.lt_or_ge last n with hlt | hle
      · rcases Nat.eq_or_lt_of_le hlt with rfl | hlt'
        · rw [hrunnable]
          simp
        · rw [chainRun_finished hfinished hlt', hfinished]
          simp
      · rcases (hdrains n hle).status with hstatus | hstatus
        · rw [hstatus]
          simp
        · rw [hstatus]
          simp

/-- A stream that has its items ready and then ends. -/
def Source.ofList (items : List ι) : Source ι where
  poll n := .ready items[n]?
  fused n h := by
    have hnone : items[n]? = none := Poll.ready.inj h
    rw [List.getElem?_eq_none_iff] at hnone
    rw [List.getElem?_eq_none_iff.2 (Nat.le_succ_of_le hnone)]

/-- Items for the left half and the end. -/
theorem drains_iff_two :
    Drains (Source.ofList [1, 2]) (.inl : Nat → Nat ⊕ Nat) ∧
        NeverStuck (Source.ofList [1, 2]) (.inl : Nat → Nat ⊕ Nat) ↔
      OnlyLeft (Source.ofList [1, 2]) (.inl : Nat → Nat ⊕ Nat) :=
  drains_iff (Source.ofList [1, 2]) .inl ⟨2, rfl⟩

/-- A stream of one item for the right half: the poll of the left half is pending, the stream has
registered no waker, and no task is woken. -/
theorem trailers_stuck :
    Finite (Source.ofList [0]) ∧
      (chainRun (Source.ofList [0]) (.inr : Nat → Nat ⊕ Nat) 1).status = .stuck ∧
      ¬ (Drains (Source.ofList [0]) (.inr : Nat → Nat ⊕ Nat) ∧
        NeverStuck (Source.ofList [0]) (.inr : Nat → Nat ⊕ Nat)) := by
  refine ⟨⟨1, rfl⟩, rfl, ?_⟩
  rintro ⟨-, hstuck⟩
  exact hstuck 1 rfl

end Ferron.Util.SplitStreamByMap
