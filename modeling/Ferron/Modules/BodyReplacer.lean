import Ferron.Http.Body
import Ferron.Lib.Occurrence

/-!
# The replacing body

`ReplaceBody` wraps a response body and replaces a search string in its data frames. It holds back
the end of the data seen so far, since a match can straddle two frames: `replaceData` searches the
held back bytes together with the next chunk.

The reference is replacement in the whole body (`replaceBody`). With `once` off, the wrapped body
yields it for every way of cutting the data into frames (`outputData_of_not_once`). With `once` on,
the bytes held back in the frame of the match are not released when the following frames are passed
through; they come out after all other data. The result is the reference exactly when this makes no
difference (`outputData_eq_replaceBody_iff`).
-/

set_option autoImplicit false

namespace Ferron.Modules.BodyReplacer

open Ferron.Http
open Ferron.Lib.Occurrence

/-- The substring searcher: it returns the position of the first occurrence. -/
structure Finder where
  find : Bytes → Bytes → Option Nat
  find_eq : ∀ searched haystack, find searched haystack = firstOccurrence searched haystack

/-- A searcher that compares at every position. -/
def Finder.naive : Finder := ⟨firstOccurrence, fun _ _ => rfl⟩

/-- The state of the wrapping body, without its inner body. -/
structure ReplaceBody where
  searched : Bytes
  replacement : Bytes
  once : Bool
  replaced : Bool
  buffer : Option Bytes
  deriving DecidableEq, Repr

/-- `BodyReplacer::wrap`: nothing replaced and nothing held back. -/
def wrap (searched replacement : Bytes) (once : Bool) : ReplaceBody :=
  ⟨searched, replacement, once, false, none⟩

/-- The bytes held back. -/
def ReplaceBody.held (this : ReplaceBody) : Bytes := this.buffer.getD []

/-- The search loop over the combined bytes: the output so far, the end of the last match and
whether something was replaced. With `once` it stops after one match. -/
def replaceLoop (finder : Finder) (this : ReplaceBody) (hsearched : this.searched ≠ [])
    (combined output : Bytes) (lastBegIndex : Nat) (replaced : Bool) : Bytes × Nat × Bool :=
  match _hfind : finder.find this.searched (combined.drop lastBegIndex) with
  | none => (output, lastBegIndex, replaced)
  | some index =>
      let output' := output ++ (combined.drop lastBegIndex).take index ++ this.replacement
      let lastBegIndex' := lastBegIndex + (index + this.searched.length)
      if this.once then (output', lastBegIndex', true)
      else replaceLoop finder this hsearched combined output' lastBegIndex' true
termination_by combined.length - lastBegIndex
decreasing_by
  have hle := firstOccurrence_add_length_le ((finder.find_eq _ _).symm.trans _hfind)
  have hpos := List.length_pos_of_ne_nil hsearched
  rw [List.length_drop] at hle
  omega

/-- What `poll_frame` does with a chunk of data: the new state and the data it returns. -/
def replaceData (finder : Finder) (this : ReplaceBody) (chunk : Bytes) : ReplaceBody × Bytes :=
  if hpass : (this.replaced = true ∧ this.once = true) ∨ this.searched = [] then (this, chunk)
  else
    let combined := this.held ++ chunk
    let (output, lastBegIndex, replaced) :=
      replaceLoop finder this (fun h => hpass (.inr h)) combined [] 0 this.replaced
    let rest := combined.drop lastBegIndex
    if rest.length < this.searched.length then
      ({ this with replaced := replaced, buffer := some rest }, output)
    else
      -- the last `searched.length` bytes wait for the next frame
      let keep := rest.length - this.searched.length
      ({ this with replaced := replaced, buffer := some (rest.drop keep) },
        output ++ rest.take keep)

/-- `ReplaceBody::poll_frame`, given the result of polling the inner body. -/
def pollFrame (finder : Finder) (this : ReplaceBody) : Polled → ReplaceBody × Polled
  | .pending => (this, .pending)
  | .ready (some (.error err)) => (this, .ready (some (.error err)))
  | .ready none =>
      match this.buffer with
      | some buffer => ({ this with buffer := none }, .ready (some (.ok (.data buffer))))
      | none => (this, .ready none)
  | .ready (some (.ok (.trailers headers))) => (this, .ready (some (.ok (.trailers headers))))
  | .ready (some (.ok (.data chunk))) =>
      let (this', output) := replaceData finder this chunk
      (this', .ready (some (.ok (.data output))))

/-- The data frames a wrapped body yields, concatenated. -/
def outputData (finder : Finder) (searched replacement : Bytes) (once : Bool)
    (body : List BodyEvent) : Bytes :=
  dataOf (polledFrames (runPolls (pollFrame finder) (wrap searched replacement once) (polls body)))

/-- The reference: replacement in the whole body. An empty search string is never replaced. -/
def replaceBody (searched replacement : Bytes) (once : Bool) (body : Bytes) : Bytes :=
  if searched = [] then body
  else if once then replaceFirst searched replacement body
  else replaceAll searched replacement body

/-! ## Only the data frames matter -/

/-- The output over a list of chunks: what is returned for each of them, and last what is still
held back. -/
def outputChunks (finder : Finder) : ReplaceBody → List Bytes → Bytes
  | this, [] => this.held
  | this, chunk :: chunks =>
      (replaceData finder this chunk).2 ++ outputChunks finder (replaceData finder this chunk).1 chunks

theorem outputChunks_eq (finder : Finder) : ∀ (body : List BodyEvent) (this : ReplaceBody),
    dataOf (polledFrames (runPolls (pollFrame finder) this (polls body))) =
      outputChunks finder this (chunksOf body)
  | [], this => by
      rcases this with ⟨searched, replacement, once, replaced, buffer⟩
      cases buffer with
      | none => rfl
      | some buffer =>
          show buffer ++ [] = buffer
          exact List.append_nil buffer
  | .pending :: body, this => outputChunks_eq finder body this
  | .frame (.trailers _) :: body, this => outputChunks_eq finder body this
  | .frame (.data chunk) :: body, this => by
      show (replaceData finder this chunk).2 ++ dataOf (polledFrames (runPolls (pollFrame finder)
        (replaceData finder this chunk).1 (polls body))) = _
      rw [outputChunks_eq finder body]
      rfl

/-- With an empty search string, or after the only replacement, chunks pass through and the bytes
held back come last. -/
theorem outputChunks_of_pass (finder : Finder) {this : ReplaceBody}
    (hpass : (this.replaced = true ∧ this.once = true) ∨ this.searched = []) :
    ∀ chunks : List Bytes, outputChunks finder this chunks = chunks.flatten ++ this.held
  | [] => rfl
  | chunk :: chunks => by
      have hdata : replaceData finder this chunk = (this, chunk) := dif_pos hpass
      rw [outputChunks, hdata, outputChunks_of_pass finder hpass chunks, List.flatten_cons,
        List.append_assoc]

/-! ## One chunk -/

/-- What is returned at once of the bytes after the last match. -/
def released (searched rest : Bytes) : Bytes := rest.take (rest.length - searched.length)

/-- What is held back of the bytes after the last match: as many as the search string has. -/
def retained (searched rest : Bytes) : Bytes := rest.drop (rest.length - searched.length)

theorem released_append_retained (searched rest : Bytes) :
    released searched rest ++ retained searched rest = rest :=
  List.take_append_drop _ rest

/-- No match starts in the released bytes of a rest without a match, whatever comes later. -/
theorem released_noOccurrence {searched rest : Bytes} (h : firstOccurrence searched rest = none)
    (later : Bytes) :
    NoOccurrence searched (released searched rest ++ (retained searched rest ++ later))
      (released searched rest).length := by
  intro j hj
  rw [← List.append_assoc, released_append_retained]
  refine noOccurrence_append_of_none h later j ?_
  rw [released, List.length_take] at hj
  omega

theorem firstOccurrence_retained {searched rest : Bytes}
    (h : firstOccurrence searched rest = none) :
    firstOccurrence searched (retained searched rest) = none := by
  have hmap := firstOccurrence_append_of_noOccurrence searched (released searched rest)
    (retained searched rest ++ []) (released_noOccurrence h [])
  rw [List.append_nil, released_append_retained, h] at hmap
  exact Option.map_eq_none_iff.1 hmap.symm

/-- Both branches at the end of `replaceData` split the bytes after the last match alike. -/
theorem replaceData_eq (finder : Finder) {this : ReplaceBody} (hsearched : this.searched ≠ [])
    (hnot : ¬ (this.replaced = true ∧ this.once = true)) {chunk output : Bytes}
    {lastBegIndex : Nat} {replaced : Bool}
    (hloop : replaceLoop finder this hsearched (this.held ++ chunk) [] 0 this.replaced =
      (output, lastBegIndex, replaced)) :
    replaceData finder this chunk =
      ({ this with
          replaced := replaced
          buffer := some (retained this.searched ((this.held ++ chunk).drop lastBegIndex)) },
        output ++ released this.searched ((this.held ++ chunk).drop lastBegIndex)) := by
  have hpass : ¬ ((this.replaced = true ∧ this.once = true) ∨ this.searched = []) := by
    rintro (h | h)
    · exact hnot h
    · exact hsearched h
  unfold replaceData
  rw [dif_neg hpass]
  simp only [hloop]
  split
  · next hshort =>
      have hkeep : ((this.held ++ chunk).drop lastBegIndex).length - this.searched.length = 0 := by
        omega
      simp only [retained, released, hkeep, List.drop_zero, List.take_zero, List.append_nil]
  · rfl

/-- The loop without a match. -/
theorem replaceLoop_of_none (finder : Finder) {this : ReplaceBody} (hsearched : this.searched ≠ [])
    {combined : Bytes} (output : Bytes) {lastBegIndex : Nat} (replaced : Bool)
    (h : firstOccurrence this.searched (combined.drop lastBegIndex) = none) :
    replaceLoop finder this hsearched combined output lastBegIndex replaced =
      (output, lastBegIndex, replaced) := by
  rw [← finder.find_eq] at h
  unfold replaceLoop
  split
  · rfl
  · next index hfind => simp [h] at hfind

/-- The loop at a match. -/
theorem replaceLoop_of_some (finder : Finder) {this : ReplaceBody} (hsearched : this.searched ≠ [])
    {combined : Bytes} (output : Bytes) {lastBegIndex index : Nat} (replaced : Bool)
    (h : firstOccurrence this.searched (combined.drop lastBegIndex) = some index) :
    replaceLoop finder this hsearched combined output lastBegIndex replaced =
      if this.once then
        (output ++ (combined.drop lastBegIndex).take index ++ this.replacement,
          lastBegIndex + (index + this.searched.length), true)
      else
        replaceLoop finder this hsearched combined
          (output ++ (combined.drop lastBegIndex).take index ++ this.replacement)
          (lastBegIndex + (index + this.searched.length)) true := by
  rw [← finder.find_eq] at h
  rw [replaceLoop.eq_def]
  split
  · next hfind => simp [h] at hfind
  · next index' hfind =>
      rw [h, Option.some.injEq] at hfind
      subst hfind
      rfl

/-- A chunk that completes no match: nothing is lost and nothing is replaced. -/
theorem replaceData_of_none (finder : Finder) {this : ReplaceBody} (hsearched : this.searched ≠ [])
    (hnot : ¬ (this.replaced = true ∧ this.once = true)) {chunk : Bytes}
    (h : firstOccurrence this.searched (this.held ++ chunk) = none) :
    replaceData finder this chunk =
      ({ this with buffer := some (retained this.searched (this.held ++ chunk)) },
        released this.searched (this.held ++ chunk)) :=
  replaceData_eq finder hsearched hnot (replaceLoop_of_none finder hsearched [] this.replaced h)

/-! ## Replacing every occurrence -/

/-- What the loop has done when it stops: the output grew by the replaced part, and no match is
left in the rest. -/
theorem replaceLoop_spec (finder : Finder) {this : ReplaceBody} (hsearched : this.searched ≠ [])
    (honce : this.once = false) (combined : Bytes) : ∀ (n lastBegIndex : Nat) (output : Bytes)
    (replaced : Bool), combined.length - lastBegIndex ≤ n →
      ∃ added lastBegIndex' replaced',
        replaceLoop finder this hsearched combined output lastBegIndex replaced =
          (output ++ added, lastBegIndex', replaced') ∧
        firstOccurrence this.searched (combined.drop lastBegIndex') = none ∧
        ∀ later, replaceAll this.searched this.replacement (combined.drop lastBegIndex ++ later) =
          added ++ replaceAll this.searched this.replacement (combined.drop lastBegIndex' ++ later) := by
  intro n
  induction n with
  | zero =>
      intro lastBegIndex output replaced hn
      have hdrop : combined.drop lastBegIndex = [] := List.drop_eq_nil_of_le (by omega)
      have hnone : firstOccurrence this.searched (combined.drop lastBegIndex) = none := by
        rw [hdrop, firstOccurrence, if_neg hsearched]
      refine ⟨[], lastBegIndex, replaced, ?_, hnone, fun later => rfl⟩
      rw [replaceLoop_of_none finder hsearched output replaced hnone, List.append_nil]
  | succ n ih =>
      intro lastBegIndex output replaced hn
      cases hfind : firstOccurrence this.searched (combined.drop lastBegIndex) with
      | none =>
          refine ⟨[], lastBegIndex, replaced, ?_, hfind, fun later => rfl⟩
          rw [replaceLoop_of_none finder hsearched output replaced hfind, List.append_nil]
      | some index =>
          have hpos := List.length_pos_of_ne_nil hsearched
          have hle := firstOccurrence_add_length_le hfind
          rw [List.length_drop] at hle
          -- the loop goes on behind the match
          rw [replaceLoop_of_some finder hsearched output replaced hfind, honce]
          obtain ⟨added, last', replaced', hloop, hnone, hall⟩ :=
            ih (lastBegIndex + (index + this.searched.length))
              (output ++ (combined.drop lastBegIndex).take index ++ this.replacement) true (by omega)
          refine ⟨(combined.drop lastBegIndex).take index ++ this.replacement ++ added, last',
            replaced', ?_, hnone, fun later => ?_⟩
          · simp only [Bool.false_eq_true, if_false]
            rw [hloop]
            simp only [List.append_assoc]
          · have hidx : index ≤ (combined.drop lastBegIndex).length := by
              rw [List.length_drop]
              omega
            have hidx' : index + this.searched.length ≤ (combined.drop lastBegIndex).length := by
              rw [List.length_drop]
              omega
            rw [replaceAll_of_some _ hsearched (firstOccurrence_append hfind later),
              List.take_append_of_le_length hidx, List.drop_append_of_le_length hidx',
              List.drop_drop, hall later]
            simp only [List.append_assoc]

/-- One chunk without `once`: the output together with the replacement of what is held back is the
replacement of what was held back before, whatever comes later. -/
theorem replaceData_spec (finder : Finder) {this : ReplaceBody} (hsearched : this.searched ≠ [])
    (honce : this.once = false) (chunk : Bytes) :
    ∃ output replaced buffer,
      replaceData finder this chunk =
        ({ this with replaced := replaced, buffer := some buffer }, output) ∧
      firstOccurrence this.searched buffer = none ∧
      ∀ later, replaceAll this.searched this.replacement (this.held ++ chunk ++ later) =
        output ++ replaceAll this.searched this.replacement (buffer ++ later) := by
  obtain ⟨added, last', replaced', hloop, hnone, hall⟩ :=
    replaceLoop_spec finder hsearched honce (this.held ++ chunk) _ 0 [] this.replaced le_rfl
  generalize hrest : (this.held ++ chunk).drop last' = rest at hnone hall
  refine ⟨added ++ released this.searched rest, replaced', retained this.searched rest, ?_,
    firstOccurrence_retained hnone, fun later => ?_⟩
  · rw [replaceData_eq finder hsearched (by simp [honce]) hloop, hrest, List.nil_append]
  · have hlater := hall later
    rw [List.drop_zero] at hlater
    rw [hlater]
    conv_lhs => rw [← released_append_retained this.searched rest]
    rw [List.append_assoc (released this.searched rest),
      replaceAll_append_of_noOccurrence _ _ _ _ (released_noOccurrence hnone later),
      List.append_assoc]

/-- A run without `once` over any chunks. -/
theorem outputChunks_of_not_once (finder : Finder) : ∀ (chunks : List Bytes) (this : ReplaceBody),
    this.searched ≠ [] → this.once = false → firstOccurrence this.searched this.held = none →
      outputChunks finder this chunks =
        replaceAll this.searched this.replacement (this.held ++ chunks.flatten)
  | [], this, _, _, hheld => by
      rw [outputChunks, List.flatten_nil, List.append_nil, replaceAll_of_none _ hheld]
  | chunk :: chunks, this, hsearched, honce, _ => by
      obtain ⟨output, replaced, buffer, hdata, hnone, hall⟩ :=
        replaceData_spec finder hsearched honce chunk
      have ih := outputChunks_of_not_once finder chunks
        { this with replaced := replaced, buffer := some buffer } hsearched honce hnone
      rw [outputChunks, hdata, ih, List.flatten_cons, ← List.append_assoc, hall]
      rfl

/-! ## Replacing once -/

theorem firstOccurrence_of_append_none {searched s t : Bytes}
    (h : firstOccurrence searched (s ++ t) = none) : firstOccurrence searched s = none := by
  cases hs : firstOccurrence searched s with
  | none => rfl
  | some i =>
      rw [firstOccurrence_append hs] at h
      exact absurd h (by simp)

/-- A run with `once` that meets no match returns its input. -/
theorem outputChunks_of_no_match (finder : Finder) : ∀ (chunks : List Bytes) (this : ReplaceBody),
    this.searched ≠ [] → this.replaced = false →
      firstOccurrence this.searched (this.held ++ chunks.flatten) = none →
        outputChunks finder this chunks = this.held ++ chunks.flatten
  | [], this, _, _, _ => by rw [outputChunks, List.flatten_nil, List.append_nil]
  | chunk :: chunks, this, hsearched, hreplaced, hnone => by
      rw [List.flatten_cons, ← List.append_assoc] at hnone ⊢
      have hfirst := firstOccurrence_of_append_none hnone
      rw [outputChunks, replaceData_of_none finder hsearched (by simp [hreplaced]) hfirst]
      have hrest : firstOccurrence this.searched
          (retained this.searched (this.held ++ chunk) ++ chunks.flatten) = none := by
        have hmap := firstOccurrence_append_of_noOccurrence this.searched
          (released this.searched (this.held ++ chunk)) _
          (released_noOccurrence hfirst chunks.flatten)
        rw [← List.append_assoc, released_append_retained, hnone] at hmap
        exact Option.map_eq_none_iff.1 hmap.symm
      have ih := outputChunks_of_no_match finder chunks
        { this with buffer := some (retained this.searched (this.held ++ chunk)) }
        hsearched hreplaced hrest
      rw [ih]
      show released this.searched (this.held ++ chunk) ++
        (retained this.searched (this.held ++ chunk) ++ chunks.flatten) = _
      rw [← List.append_assoc, released_append_retained]

/-- The chunk that completes the match with `once`: from here on the state passes chunks through,
and the end of the rest is held back. -/
theorem replaceData_of_match (finder : Finder) {this : ReplaceBody} (hsearched : this.searched ≠ [])
    (honce : this.once = true) (hreplaced : this.replaced = false) {chunk : Bytes} {i : Nat}
    (hsome : firstOccurrence this.searched (this.held ++ chunk) = some i) :
    ∃ this', replaceData finder this chunk =
        (this', (this.held ++ chunk).take i ++ this.replacement ++
          released this.searched ((this.held ++ chunk).drop (i + this.searched.length))) ∧
      this'.replaced = true ∧ this'.once = true ∧
      this'.held =
        retained this.searched ((this.held ++ chunk).drop (i + this.searched.length)) := by
  have hloop : replaceLoop finder this hsearched (this.held ++ chunk) [] 0 this.replaced = _ :=
    replaceLoop_of_some finder hsearched [] this.replaced hsome
  rw [if_pos honce, Nat.zero_add] at hloop
  exact ⟨_, replaceData_eq finder hsearched (by simp [hreplaced]) hloop, rfl, honce, rfl⟩

/-- A run with `once` whose first match is completed by `chunk`: the bytes held back at that point
come after all later chunks. -/
theorem outputChunks_of_match (finder : Finder) (chunk : Bytes) (after : List Bytes) :
    ∀ (before : List Bytes) (this : ReplaceBody) (i : Nat),
      this.searched ≠ [] → this.once = true → this.replaced = false →
      firstOccurrence this.searched (this.held ++ before.flatten) = none →
      firstOccurrence this.searched (this.held ++ before.flatten ++ chunk) = some i →
        outputChunks finder this (before ++ chunk :: after) =
          (this.held ++ before.flatten ++ chunk).take i ++ this.replacement ++
            released this.searched
              ((this.held ++ before.flatten ++ chunk).drop (i + this.searched.length)) ++
            after.flatten ++
            retained this.searched
              ((this.held ++ before.flatten ++ chunk).drop (i + this.searched.length))
  | [], this, i, hsearched, honce, hreplaced, _, hsome => by
      rw [List.flatten_nil, List.append_nil] at hsome ⊢
      obtain ⟨this', hdata, hreplaced', honce', hheld⟩ :=
        replaceData_of_match finder hsearched honce hreplaced hsome
      rw [List.nil_append, outputChunks, hdata,
        outputChunks_of_pass finder (Or.inl ⟨hreplaced', honce'⟩), hheld]
      simp only [List.append_assoc]
  | b :: before, this, i, hsearched, honce, hreplaced, hnone, hsome => by
      rw [List.flatten_cons, ← List.append_assoc] at hnone hsome ⊢
      have hfirst := firstOccurrence_of_append_none hnone
      have hfree := released_noOccurrence hfirst
      rw [List.cons_append, outputChunks,
        replaceData_of_none finder hsearched (by simp [hreplaced]) hfirst]
      -- what is released has no part of a match, so the match is in what is held and in the later chunks
      generalize hrel : released this.searched (this.held ++ b) = rel at hfree ⊢
      generalize hret : retained this.searched (this.held ++ b) = ret at hfree ⊢
      have hsplit : this.held ++ b = rel ++ ret := by
        rw [← hrel, ← hret, released_append_retained]
      rw [hsplit, List.append_assoc] at hnone
      rw [hsplit, List.append_assoc, List.append_assoc] at hsome
      have hnone' : firstOccurrence this.searched (ret ++ before.flatten) = none := by
        rw [firstOccurrence_append_of_noOccurrence _ _ _ (hfree before.flatten)] at hnone
        exact Option.map_eq_none_iff.1 hnone
      rw [firstOccurrence_append_of_noOccurrence _ _ _ (hfree (before.flatten ++ chunk)),
        Option.map_eq_some_iff] at hsome
      obtain ⟨k, hk, rfl⟩ := hsome
      have ih := outputChunks_of_match finder chunk after before
        { this with buffer := some ret } k hsearched honce hreplaced hnone'
        (by rw [List.append_assoc]; exact hk)
      rw [ih]
      have htake : (rel ++ ret ++ before.flatten ++ chunk).take (k + rel.length) =
          rel ++ (ret ++ before.flatten ++ chunk).take k := by
        rw [Nat.add_comm, List.append_assoc, List.append_assoc, List.take_length_add_append,
          List.append_assoc]
      have hdrop : (rel ++ ret ++ before.flatten ++ chunk).drop
          (k + rel.length + this.searched.length) =
          (ret ++ before.flatten ++ chunk).drop (k + this.searched.length) := by
        rw [show k + rel.length + this.searched.length =
          rel.length + (k + this.searched.length) by omega, List.append_assoc, List.append_assoc,
          List.drop_length_add_append, List.append_assoc]
      rw [hsplit, htake, hdrop]
      simp only [ReplaceBody.held, Option.getD_some, List.append_assoc]

/-- The chunk that completes the first match. -/
theorem exists_match_split {searched : Bytes} : ∀ (chunks : List Bytes) (held : Bytes),
    firstOccurrence searched held = none →
    firstOccurrence searched (held ++ chunks.flatten) ≠ none →
      ∃ before chunk after i, chunks = before ++ chunk :: after ∧
        firstOccurrence searched (held ++ before.flatten) = none ∧
        firstOccurrence searched (held ++ before.flatten ++ chunk) = some i
  | [], held, hheld, h => by
      rw [List.flatten_nil, List.append_nil] at h
      exact absurd hheld h
  | c :: chunks, held, hheld, h => by
      cases hc : firstOccurrence searched (held ++ c) with
      | some i =>
          refine ⟨[], c, chunks, i, rfl, ?_, ?_⟩
          · rw [List.flatten_nil, List.append_nil]
            exact hheld
          · rw [List.flatten_nil, List.append_nil]
            exact hc
      | none =>
          rw [List.flatten_cons, ← List.append_assoc] at h
          obtain ⟨before, chunk, after, i, rfl, hnone, hsome⟩ :=
            exists_match_split chunks (held ++ c) hc h
          refine ⟨c :: before, chunk, after, i, rfl, ?_, ?_⟩
          · rw [List.flatten_cons, ← List.append_assoc]
            exact hnone
          · rw [List.flatten_cons, ← List.append_assoc]
            exact hsome

/-- There is only one such chunk. -/
theorem match_split_unique {searched : Bytes} {before before' after after' : List Bytes}
    {chunk chunk' : Bytes} {i i' : Nat}
    (heq : before ++ chunk :: after = before' ++ chunk' :: after')
    (hnone : firstOccurrence searched before.flatten = none)
    (hsome : firstOccurrence searched (before.flatten ++ chunk) = some i)
    (hnone' : firstOccurrence searched before'.flatten = none)
    (hsome' : firstOccurrence searched (before'.flatten ++ chunk') = some i') :
    before = before' ∧ chunk = chunk' ∧ after = after' := by
  have hlonger : ∀ {x : List Bytes} {b : List Bytes} {c : Bytes} {k : Nat},
      firstOccurrence searched (b.flatten ++ c) = some k →
        firstOccurrence searched (b ++ c :: x).flatten ≠ none := by
    intro x b c k h hn
    rw [List.flatten_append, List.flatten_cons, ← List.append_assoc,
      firstOccurrence_append h] at hn
    exact absurd hn (by simp)
  rcases List.append_eq_append_iff.1 heq with ⟨mid, hmid, htail⟩ | ⟨mid, hmid, htail⟩
  · cases mid with
    | nil =>
        rw [List.append_nil] at hmid
        rw [List.nil_append, List.cons.injEq] at htail
        exact ⟨hmid.symm, htail⟩
    | cons m mid =>
        rw [List.cons_append, List.cons.injEq] at htail
        rw [hmid, ← htail.1] at hnone'
        exact absurd hnone' (hlonger hsome)
  · cases mid with
    | nil =>
        rw [List.append_nil] at hmid
        rw [List.nil_append, List.cons.injEq] at htail
        exact ⟨hmid, htail.1.symm, htail.2.symm⟩
    | cons m mid =>
        rw [List.cons_append, List.cons.injEq] at htail
        rw [hmid, ← htail.1] at hnone
        exact absurd hnone (hlonger hsome')

/-! ## The wrapped body against the reference -/

/-- Without `once` the wrapped body is the replaced body, however the data is cut into frames. -/
theorem outputData_of_not_once (finder : Finder) (searched replacement : Bytes)
    (body : List BodyEvent) :
    outputData finder searched replacement false body =
      replaceBody searched replacement false (dataOf (framesOf body)) := by
  rw [outputData, outputChunks_eq, dataOf_framesOf, replaceBody]
  by_cases hsearched : searched = []
  · rw [if_pos hsearched, outputChunks_of_pass finder (Or.inr hsearched)]
    exact List.append_nil _
  · rw [if_neg hsearched, outputChunks_of_not_once finder _ _ hsearched rfl]
    · rfl
    · show firstOccurrence searched [] = none
      rw [firstOccurrence, if_neg hsearched]

/-- At the chunk that completes the first match, the bytes held back may as well come after the
later chunks as before them. -/
def HeldBackCommutes (searched : Bytes) (chunks : List Bytes) : Prop :=
  ∀ (before : List Bytes) (chunk : Bytes) (after : List Bytes) (i : Nat),
    chunks = before ++ chunk :: after →
    firstOccurrence searched before.flatten = none →
    firstOccurrence searched (before.flatten ++ chunk) = some i →
      after.flatten ++
          retained searched ((before.flatten ++ chunk).drop (i + searched.length)) =
        retained searched ((before.flatten ++ chunk).drop (i + searched.length)) ++ after.flatten

/-- The wrapped body is the replaced body exactly when, with `once` on, the bytes held back at the
match may come last. -/
theorem outputData_eq_replaceBody_iff (finder : Finder) (searched replacement : Bytes)
    (once : Bool) (body : List BodyEvent) :
    outputData finder searched replacement once body =
        replaceBody searched replacement once (dataOf (framesOf body)) ↔
      (once = true → searched ≠ [] → HeldBackCommutes searched (chunksOf body)) := by
  cases once with
  | false => simp [outputData_of_not_once]
  | true =>
      rw [outputData, outputChunks_eq, dataOf_framesOf, replaceBody]
      by_cases hsearched : searched = []
      · rw [if_pos hsearched, outputChunks_of_pass finder (Or.inr hsearched)]
        simp [hsearched, wrap, ReplaceBody.held]
      · have hempty : firstOccurrence searched [] = none := by
          rw [firstOccurrence, if_neg hsearched]
        simp only [if_true, ne_eq, hsearched, not_false_iff, true_implies]
        cases hall : firstOccurrence searched (chunksOf body).flatten with
        | none =>
            -- nothing is replaced, and nothing is held back behind a match
            rw [outputChunks_of_no_match finder _ (wrap searched replacement true) hsearched rfl hall,
              replaceFirst_of_none _ hall]
            refine iff_of_true rfl ?_
            intro before chunk after i hchunks _ hsome
            rw [hchunks, List.flatten_append, List.flatten_cons, ← List.append_assoc,
              firstOccurrence_append hsome] at hall
            exact absurd hall (by simp)
        | some _ =>
            -- the chunk in which the first match ends
            obtain ⟨before, chunk, after, i, hchunks, hnone, hsome⟩ :=
              exists_match_split (chunksOf body) [] hempty (by simp [hall])
            rw [List.nil_append] at hnone hsome
            have hout := outputChunks_of_match finder chunk after before
              (wrap searched replacement true) i hsearched rfl rfl hnone hsome
            have hexpected : replaceFirst searched replacement (chunksOf body).flatten =
                (before.flatten ++ chunk).take i ++ replacement ++
                  (before.flatten ++ chunk).drop (i + searched.length) ++ after.flatten := by
              have hlen := firstOccurrence_add_length_le hsome
              rw [hchunks, List.flatten_append, List.flatten_cons, ← List.append_assoc,
                replaceFirst_of_some _ (firstOccurrence_append hsome after.flatten),
                List.take_append_of_le_length (by omega), List.drop_append_of_le_length hlen]
              simp only [List.append_assoc]
            rw [hexpected, hchunks, hout]
            simp only [wrap, ReplaceBody.held, Option.getD_none, List.nil_append, if_false]
            constructor
            · intro h before' chunk' after' i' hchunks' hnone' hsome'
              obtain ⟨rfl, rfl, rfl⟩ := match_split_unique hchunks' hnone hsome hnone' hsome'
              rw [hsome, Option.some.injEq] at hsome'
              subst hsome'
              generalize (before.flatten ++ chunk).drop (i + searched.length) = rest at h ⊢
              conv at h => rhs; rw [← released_append_retained searched rest]
              simpa only [List.append_assoc, List.append_cancel_left_eq] using h
            · intro h
              have hcomm := h before chunk after i rfl hnone hsome
              generalize (before.flatten ++ chunk).drop (i + searched.length) = rest at hcomm ⊢
              conv => rhs; rw [← released_append_retained searched rest]
              simp only [List.append_assoc, hcomm]

/-- With `once` on, the bytes held back at the match come after the next frame. -/
theorem outputData_once_reorders :
    outputData Finder.naive "foo".toUTF8.toList "bar".toUTF8.toList true
        [.frame (.data "foo test".toUTF8.toList), .frame (.data " end".toUTF8.toList)] ≠
      replaceBody "foo".toUTF8.toList "bar".toUTF8.toList true
        (dataOf (framesOf [.frame (.data "foo test".toUTF8.toList),
          .frame (.data " end".toUTF8.toList)])) := by
  decide +kernel

end Ferron.Modules.BodyReplacer
