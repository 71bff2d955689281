import Ferron.Modules.BodyReplacer

/-!
# Trailers behind a replaced body

`ReplaceBody` passes trailers on as they come. The bytes that it holds back come out at the end of the
inner body, which is behind the trailers. `replaced_trailers_last_iff` says when no data comes behind the
trailers: when there are none, or when nothing is held back, because the last match that is replaced ends
where the data does (with `once`, where its chunk does).
-/

set_option autoImplicit false

namespace Ferron.Modules.BodyReplacer

open Ferron.Http Ferron.Lib.Occurrence

/-! ## Frames and trailers -/

/-- A body whose trailers come after all data frames. -/
structure TrailedBody where
  front : List BodyEvent
  back : List BodyEvent
  front_data : ∀ headers, .frame (.trailers headers) ∉ front
  back_trailers : ∀ bytes, .frame (.data bytes) ∉ back

/-- The events of the body. -/
def TrailedBody.events (body : TrailedBody) : List BodyEvent := body.front ++ body.back

/-- The frames that a wrapped body yields. -/
def outputFrames (finder : Finder) (searched replacement : Bytes) (once : Bool)
    (body : List BodyEvent) : List Frame :=
  polledFrames (runPolls (pollFrame finder) (wrap searched replacement once) (polls body))

/-- The frames from the first trailers on. -/
def fromTrailers (frames : List Frame) : List Frame :=
  frames.dropWhile fun frame => frame.trailerMap.isNone

/-- One match after the other, from the left, and nothing behind the last one. -/
inductive CutsToEnd (searched : Bytes) : Bytes → Prop where
  | nil : CutsToEnd searched []
  | cut {s : Bytes} {i : Nat} (found : firstOccurrence searched s = some i)
      (rest : CutsToEnd searched (s.drop (i + searched.length))) : CutsToEnd searched s

/-- The chunk that completes the first match ends with it. -/
def MatchEndsChunk (searched : Bytes) (chunks : List Bytes) : Prop :=
  ∃ before chunk after i, chunks = before ++ chunk :: after ∧
    firstOccurrence searched before.flatten = none ∧
      firstOccurrence searched (before.flatten ++ chunk) = some i ∧
        i + searched.length = (before.flatten ++ chunk).length

/-- Nothing of the data stays behind the matches that are replaced. -/
def NothingBehindMatches (searched : Bytes) (once : Bool) (chunks : List Bytes) : Prop :=
  searched = [] ∨
    match once with
    | true => chunks.flatten = [] ∨ MatchEndsChunk searched chunks
    | false => CutsToEnd searched chunks.flatten

/-! ## The state behind the data -/

/-- The state after a list of chunks. -/
def afterChunks (finder : Finder) (this : ReplaceBody) (chunks : List Bytes) : ReplaceBody :=
  chunks.foldl (fun this chunk => (replaceData finder this chunk).1) this

theorem afterChunks_cons (finder : Finder) (this : ReplaceBody) (chunk : Bytes) (chunks : List Bytes) :
    afterChunks finder this (chunk :: chunks) =
      afterChunks finder (replaceData finder this chunk).1 chunks := rfl

theorem afterChunks_append (finder : Finder) (this : ReplaceBody) (before after : List Bytes) :
    afterChunks finder this (before ++ after) =
      afterChunks finder (afterChunks finder this before) after :=
  List.foldl_append

/-- A state that passes chunks through stays as it is. -/
theorem afterChunks_of_pass (finder : Finder) {this : ReplaceBody}
    (hpass : (this.replaced = true ∧ this.once = true) ∨ this.searched = []) (chunks : List Bytes) :
    afterChunks finder this chunks = this := by
  induction chunks with
  | nil => rfl
  | cons chunk chunks ih =>
      have hdata : replaceData finder this chunk = (this, chunk) := dif_pos hpass
      rw [afterChunks_cons, hdata]
      exact ih

theorem retained_eq_nil_iff {searched : Bytes} (hsearched : searched ≠ []) (rest : Bytes) :
    retained searched rest = [] ↔ rest = [] := by
  have hpos := List.length_pos_of_ne_nil hsearched
  rw [retained, List.drop_eq_nil_iff]
  constructor
  · intro hle
    rw [← List.length_eq_zero_iff]
    omega
  · rintro rfl
    exact Nat.zero_le _

theorem replaceData_once (finder : Finder) (this : ReplaceBody) (chunk : Bytes) :
    (replaceData finder this chunk).1.once = this.once := by
  unfold replaceData
  split
  · rfl
  · dsimp only
    split
    · rfl
    · rfl

theorem afterChunks_once (finder : Finder) (this : ReplaceBody) (chunks : List Bytes) :
    (afterChunks finder this chunks).once = this.once := by
  induction chunks generalizing this with
  | nil => rfl
  | cons chunk chunks ih =>
      rw [afterChunks_cons, ih, replaceData_once]

/-- Whenever chunks are searched, something is put into the buffer, be it empty. -/
theorem replaceData_buffer_isSome (finder : Finder) (this : ReplaceBody) (chunk : Bytes)
    (hnot : ¬ ((this.replaced = true ∧ this.once = true) ∨ this.searched = [])) :
    (replaceData finder this chunk).1.buffer.isSome = true := by
  unfold replaceData
  rw [dif_neg hnot]
  dsimp only
  split
  · rfl
  · rfl

theorem afterChunks_buffer_isSome (finder : Finder) (chunks : List Bytes) {this : ReplaceBody}
    (hbuffer : this.buffer.isSome = true) :
    (afterChunks finder this chunks).buffer.isSome = true := by
  induction chunks generalizing this with
  | nil => exact hbuffer
  | cons chunk chunks ih =>
      rw [afterChunks_cons]
      apply ih
      by_cases hpass : (this.replaced = true ∧ this.once = true) ∨ this.searched = []
      · have hdata : replaceData finder this chunk = (this, chunk) := dif_pos hpass
        rw [hdata]
        exact hbuffer
      · exact replaceData_buffer_isSome finder this chunk hpass

section Buffer

variable (finder : Finder) (searched replacement : Bytes) (once : Bool) (chunks : List Bytes)

/-- There is no buffer when no chunk was searched. -/
theorem afterChunks_buffer_eq_none_iff :
    (afterChunks finder (wrap searched replacement once) chunks).buffer = none ↔
      searched = [] ∨ chunks = [] := by
  by_cases hsearched : searched = []
  · rw [afterChunks_of_pass finder (Or.inr hsearched)]
    exact iff_of_true rfl (Or.inl hsearched)
  · cases chunks with
    | nil => exact iff_of_true rfl (Or.inr rfl)
    | cons chunk chunks =>
        have hnot : ¬ (((wrap searched replacement once).replaced = true ∧
            (wrap searched replacement once).once = true) ∨
              (wrap searched replacement once).searched = []) := by
          rintro (⟨hreplaced, -⟩ | hempty)
          · cases hreplaced
          · exact hsearched hempty
        have hsome := afterChunks_buffer_isSome finder chunks
          (replaceData_buffer_isSome finder _ chunk hnot)
        rw [afterChunks_cons]
        refine iff_of_false (fun hnone => ?_) ?_
        · rw [hnone] at hsome
          cases hsome
        · rintro (h | h)
          · exact hsearched h
          · cases h

end Buffer

/-! ## What is held back with `once` on -/

/-- All the data so far is searched and has no match: of its end as much is held back as a match can
start in. -/
structure Waiting (searched all : Bytes) (this : ReplaceBody) : Prop where
  searched_eq : this.searched = searched
  not_replaced : this.replaced = false
  none_found : firstOccurrence searched all = none
  split : ∃ released, all = released ++ this.held ∧ (this.held = [] → released = []) ∧
    ∀ later, NoOccurrence searched (released ++ (this.held ++ later)) released.length

theorem Waiting.nil {searched : Bytes} (hsearched : searched ≠ []) (replacement : Bytes) (once : Bool) :
    Waiting searched [] (wrap searched replacement once) := by
  refine ⟨rfl, rfl, ?_, [], rfl, fun _ => rfl, fun later j hj => absurd hj (Nat.not_lt_zero j)⟩
  rw [firstOccurrence, if_neg hsearched]

section Waiting

variable {searched all chunk : Bytes} {this : ReplaceBody} (finder : Finder)
  (hsearched : searched ≠ []) (h : Waiting searched all this)

include h in
/-- A match in all the data is one in the bytes that are held back and the next ones. -/
theorem Waiting.firstOccurrence_append (later : Bytes) : ∃ released, all = released ++ this.held ∧
    firstOccurrence searched (all ++ later) =
      (firstOccurrence searched (this.held ++ later)).map (· + released.length) := by
  obtain ⟨released, hall, -, hfree⟩ := h.split
  refine ⟨released, hall, ?_⟩
  rw [hall, List.append_assoc]
  exact firstOccurrence_append_of_noOccurrence searched released _ (hfree later)

include hsearched h in
/-- A chunk that completes no match. -/
theorem Waiting.step (hnone : firstOccurrence searched (all ++ chunk) = none) :
    Waiting searched (all ++ chunk) (replaceData finder this chunk).1 := by
  obtain ⟨rfl, hreplaced, -, dropped, hall, hempty, hfree⟩ := h
  have hheld : firstOccurrence this.searched (this.held ++ chunk) = none := by
    have hmap := firstOccurrence_append_of_noOccurrence this.searched dropped _ (hfree chunk)
    rw [← List.append_assoc, ← hall, hnone] at hmap
    exact Option.map_eq_none_iff.1 hmap.symm
  have hsplit := released_append_retained this.searched (this.held ++ chunk)
  rw [replaceData_of_none finder hsearched (by simp [hreplaced]) hheld]
  refine ⟨rfl, hreplaced, hnone, dropped ++ released this.searched (this.held ++ chunk), ?_, ?_, ?_⟩
  · change all ++ chunk = dropped ++ _ ++ retained this.searched (this.held ++ chunk)
    rw [List.append_assoc, hsplit, hall, List.append_assoc]
  · intro hretained
    have hnil := (retained_eq_nil_iff hsearched _).1 hretained
    rw [hnil, hempty (List.append_eq_nil_iff.1 hnil).1, List.nil_append]
    exact List.take_nil
  · intro later j hj
    change ¬ this.searched <+: (dropped ++ released this.searched (this.held ++ chunk) ++
      (retained this.searched (this.held ++ chunk) ++ later)).drop j
    rw [List.append_assoc, ← List.append_assoc (released this.searched _), hsplit]
    rcases Nat.lt_or_ge j dropped.length with hlt | hge
    · rw [List.append_assoc]
      exact hfree (chunk ++ later) j hlt
    · -- within the bytes that are released now
      obtain ⟨k, rfl⟩ := Nat.exists_eq_add_of_le hge
      rw [List.length_append] at hj
      have hlate := released_noOccurrence hheld later k (by omega)
      rw [← List.append_assoc, hsplit] at hlate
      rw [List.drop_length_add_append]
      exact hlate

include h in
theorem Waiting.held_eq_nil_iff : this.held = [] ↔ all = [] := by
  obtain ⟨released, hall, hempty, -⟩ := h.split
  constructor
  · intro hnil
    rw [hall, hnil, hempty hnil]
    rfl
  · intro hnil
    rw [hall] at hnil
    exact (List.append_eq_nil_iff.1 hnil).2

end Waiting

/-- Chunks that complete no match. -/
theorem Waiting.afterChunks {searched : Bytes} (finder : Finder) (hsearched : searched ≠ [])
    (chunks : List Bytes) {all : Bytes} {this : ReplaceBody} (h : Waiting searched all this)
    (hnone : firstOccurrence searched (all ++ chunks.flatten) = none) :
    Waiting searched (all ++ chunks.flatten) (afterChunks finder this chunks) := by
  induction chunks generalizing all this with
  | nil =>
      rw [List.flatten_nil, List.append_nil]
      exact h
  | cons chunk chunks ih =>
      rw [List.flatten_cons, ← List.append_assoc] at hnone ⊢
      exact ih (h.step finder hsearched (firstOccurrence_of_append_none hnone)) hnone

/-- With `once` on, nothing is held back when there was no data, or when the chunk of the match ended with
it. -/
theorem held_once_iff (finder : Finder) {searched : Bytes} (replacement : Bytes)
    (hsearched : searched ≠ []) (chunks : List Bytes) :
    (afterChunks finder (wrap searched replacement true) chunks).held = [] ↔
      chunks.flatten = [] ∨ MatchEndsChunk searched chunks := by
  have hstart := Waiting.nil hsearched replacement true
  cases hall : firstOccurrence searched chunks.flatten with
  | none =>
      have hwaiting := hstart.afterChunks finder hsearched chunks hall
      have hno : ¬ MatchEndsChunk searched chunks := by
        rintro ⟨before, chunk, after, i, rfl, -, hsome, -⟩
        rw [List.flatten_append, List.flatten_cons, ← List.append_assoc,
          firstOccurrence_append hsome] at hall
        cases hall
      rw [hwaiting.held_eq_nil_iff, or_iff_left hno]
      rfl
  | some first =>
      have hne : chunks.flatten ≠ [] := by
        intro hnil
        rw [hnil, firstOccurrence, if_neg hsearched] at hall
        cases hall
      obtain ⟨before, chunk, after, i, hchunks, hnone, hsome⟩ :=
        exists_match_split chunks [] hstart.none_found (by rw [List.nil_append, hall]; simp)
      rw [List.nil_append] at hnone hsome
      -- the state that the chunk of the match comes to
      have hwaiting := hstart.afterChunks finder hsearched before hnone
      rw [List.nil_append] at hwaiting
      obtain ⟨released, hbefore, hshift⟩ := hwaiting.firstOccurrence_append chunk
      have honce := afterChunks_once finder (wrap searched replacement true) before
      rw [hsome] at hshift
      obtain ⟨k, hk, rfl⟩ := Option.map_eq_some_iff.1 hshift.symm
      obtain ⟨hsearched', hreplaced, -, -⟩ := hwaiting
      obtain ⟨this', hdata, hreplaced', honce', hheld⟩ := replaceData_of_match finder
        (by rw [hsearched']; exact hsearched) honce hreplaced (by rw [hsearched']; exact hk)
      have hlength : before.flatten.length = released.length +
          (afterChunks finder (wrap searched replacement true) before).held.length := by
        rw [← List.length_append, ← hbefore]
      have hle := firstOccurrence_add_length_le hk
      rw [hchunks, afterChunks_append, afterChunks_cons, hdata,
        afterChunks_of_pass finder (Or.inl ⟨hreplaced', honce'⟩), hheld, hsearched',
        retained_eq_nil_iff hsearched, List.drop_eq_nil_iff, ← hchunks, or_iff_right hne]
      constructor
      · intro hend
        refine ⟨before, chunk, after, _, hchunks, hnone, hsome, ?_⟩
        rw [List.length_append] at hend hle ⊢
        omega
      · rintro ⟨before', chunk', after', i', hchunks', hnone', hsome', hend⟩
        rw [hchunks] at hchunks'
        obtain ⟨rfl, rfl, rfl⟩ := match_split_unique hchunks' hnone hsome hnone' hsome'
        rw [hsome, Option.some.injEq] at hsome'
        rw [← hsome'] at hend
        rw [List.length_append] at hend ⊢
        omega

/-! ## What is held back with `once` off -/

theorem cutsToEnd_of_none {searched s : Bytes} (h : firstOccurrence searched s = none) :
    CutsToEnd searched s ↔ s = [] := by
  constructor
  · intro hcuts
    cases hcuts with
    | nil => rfl
    | cut found rest =>
        rw [h] at found
        cases found
  · rintro rfl
    exact .nil

theorem cutsToEnd_of_some {searched s : Bytes} {i : Nat} (h : firstOccurrence searched s = some i) :
    CutsToEnd searched s ↔ CutsToEnd searched (s.drop (i + searched.length)) := by
  constructor
  · intro hcuts
    cases hcuts with
    | nil =>
        rw [List.drop_nil]
        exact .nil
    | cut found rest =>
        rw [h, Option.some.injEq] at found
        rw [found]
        exact rest
  · exact .cut h

/-- The bytes that are released behind the last match make no difference. -/
theorem cutsToEnd_retained {searched rest : Bytes} (hsearched : searched ≠ [])
    (hnone : firstOccurrence searched rest = none) (later : Bytes) :
    CutsToEnd searched (rest ++ later) ↔ CutsToEnd searched (retained searched rest ++ later) := by
  have hsplit := released_append_retained searched rest
  have hsplit' : released searched rest ++ (retained searched rest ++ later) = rest ++ later := by
    rw [← List.append_assoc, hsplit]
  have hmap := firstOccurrence_append_of_noOccurrence searched _ _ (released_noOccurrence hnone later)
  rw [hsplit'] at hmap
  cases hfind : firstOccurrence searched (retained searched rest ++ later) with
  | none =>
      rw [hfind] at hmap
      rw [cutsToEnd_of_none hmap, cutsToEnd_of_none hfind, List.append_eq_nil_iff,
        List.append_eq_nil_iff, retained_eq_nil_iff hsearched]
  | some i =>
      rw [hfind] at hmap
      have hdrop : (rest ++ later).drop (i + (released searched rest).length + searched.length) =
          (retained searched rest ++ later).drop (i + searched.length) := by
        rw [← hsplit', show i + (released searched rest).length + searched.length =
            (released searched rest).length + (i + searched.length) by omega,
          List.drop_length_add_append]
      rw [cutsToEnd_of_some hmap, cutsToEnd_of_some hfind, hdrop]

/-- The loop cuts off matches until there is none. -/
theorem replaceLoop_cutsToEnd (finder : Finder) {this : ReplaceBody} (hsearched : this.searched ≠ [])
    (honce : this.once = false) (combined : Bytes) (lastBegIndex : Nat) (output : Bytes)
    (replaced : Bool) :
    ∃ output' last' replaced',
      replaceLoop finder this hsearched combined output lastBegIndex replaced =
          (output', last', replaced') ∧
        firstOccurrence this.searched (combined.drop last') = none ∧
          ∀ later, CutsToEnd this.searched (combined.drop lastBegIndex ++ later) ↔
            CutsToEnd this.searched (combined.drop last' ++ later) := by
  induction hmeasure : combined.length - lastBegIndex using Nat.strong_induction_on
    generalizing lastBegIndex output replaced with
  | _ measure ih =>
      cases hfind : firstOccurrence this.searched (combined.drop lastBegIndex) with
      | none =>
          exact ⟨_, _, _, replaceLoop_of_none finder hsearched output replaced hfind, hfind,
            fun later => Iff.rfl⟩
      | some index =>
          have hpos := List.length_pos_of_ne_nil hsearched
          have hle := firstOccurrence_add_length_le hfind
          rw [List.length_drop] at hle
          obtain ⟨output', last', replaced', hloop, hnone, hcuts⟩ :=
            ih _ (by omega) (lastBegIndex + (index + this.searched.length))
              (output ++ (combined.drop lastBegIndex).take index ++ this.replacement) true rfl
          refine ⟨output', last', replaced', ?_, hnone, fun later => ?_⟩
          · rw [replaceLoop_of_some finder hsearched output replaced hfind, honce,
              if_neg Bool.false_ne_true, hloop]
          · have hlen : index + this.searched.length ≤ (combined.drop lastBegIndex).length := by
              rw [List.length_drop]
              exact hle
            rw [← hcuts later, cutsToEnd_of_some (firstOccurrence_append hfind later),
              List.drop_append_of_le_length hlen, List.drop_drop]

/-- One chunk. -/
theorem replaceData_cutsToEnd (finder : Finder) {this : ReplaceBody} (hsearched : this.searched ≠ [])
    (honce : this.once = false) (chunk : Bytes) :
    ∃ replaced buffer,
      (replaceData finder this chunk).1 = { this with replaced := replaced, buffer := some buffer } ∧
        firstOccurrence this.searched buffer = none ∧
          ∀ later, CutsToEnd this.searched (this.held ++ chunk ++ later) ↔
            CutsToEnd this.searched (buffer ++ later) := by
  obtain ⟨output, last, replaced, hloop, hnone, hcuts⟩ :=
    replaceLoop_cutsToEnd finder hsearched honce (this.held ++ chunk) 0 [] this.replaced
  refine ⟨replaced, retained this.searched ((this.held ++ chunk).drop last), ?_,
    firstOccurrence_retained hnone, fun later => ?_⟩
  · rw [replaceData_eq finder hsearched (by simp [honce]) hloop]
  · rw [← cutsToEnd_retained hsearched hnone later, ← hcuts later, List.drop_zero]

/-- A run over any chunks. -/
theorem afterChunks_cutsToEnd (finder : Finder) (chunks : List Bytes) {this : ReplaceBody}
    (hsearched : this.searched ≠ []) (honce : this.once = false)
    (hheld : firstOccurrence this.searched this.held = none) :
    (afterChunks finder this chunks).held = [] ↔
      CutsToEnd this.searched (this.held ++ chunks.flatten) := by
  induction chunks generalizing this with
  | nil =>
      rw [List.flatten_nil, List.append_nil, cutsToEnd_of_none hheld]
      rfl
  | cons chunk chunks ih =>
      obtain ⟨replaced, buffer, hdata, hnone, hcuts⟩ :=
        replaceData_cutsToEnd finder hsearched honce chunk
      rw [afterChunks_cons, hdata, List.flatten_cons, ← List.append_assoc, hcuts]
      exact ih hsearched honce hnone

/-- What is held back at the end, in terms of the data. -/
theorem held_eq_nil_iff (finder : Finder) (searched replacement : Bytes) (once : Bool)
    (chunks : List Bytes) :
    (afterChunks finder (wrap searched replacement once) chunks).held = [] ↔
      NothingBehindMatches searched once chunks := by
  by_cases hsearched : searched = []
  · rw [afterChunks_of_pass finder (Or.inr hsearched)]
    exact iff_of_true rfl (Or.inl hsearched)
  · cases once with
    | true =>
        change _ ↔ searched = [] ∨ (chunks.flatten = [] ∨ MatchEndsChunk searched chunks)
        rw [or_iff_right hsearched]
        exact held_once_iff finder replacement hsearched chunks
    | false =>
        change _ ↔ searched = [] ∨ CutsToEnd searched chunks.flatten
        rw [or_iff_right hsearched]
        exact afterChunks_cutsToEnd finder chunks hsearched rfl
          (Waiting.nil hsearched replacement false).none_found

/-! ## The frames -/

/-- The end of the inner body: what is held back comes out. -/
theorem polledFrames_end (finder : Finder) (this : ReplaceBody) :
    polledFrames (runPolls (pollFrame finder) this [.ready none, .ready none]) =
      (this.buffer.map Frame.data).toList := by
  rcases this with ⟨searched, replacement, once, replaced, buffer⟩
  cases buffer with
  | none => rfl
  | some buffer => rfl

/-- Behind events without trailers only data frames have come out. -/
theorem polledFrames_front (finder : Finder) (rest : List Polled) (front : List BodyEvent)
    (hfront : ∀ headers, BodyEvent.frame (.trailers headers) ∉ front) (this : ReplaceBody) :
    ∃ frames, (∀ frame ∈ frames, frame.trailerMap = none) ∧
      polledFrames (runPolls (pollFrame finder) this (front.map BodyEvent.polled ++ rest)) =
        frames ++
          polledFrames (runPolls (pollFrame finder) (afterChunks finder this (chunksOf front)) rest) := by
  induction front generalizing this with
  | nil => exact ⟨[], List.forall_mem_nil _, rfl⟩
  | cons event front ih =>
      have hlater : ∀ headers, BodyEvent.frame (.trailers headers) ∉ front := fun headers hmem =>
        hfront headers (List.mem_cons_of_mem _ hmem)
      cases event with
      | pending => exact ih hlater this
      | frame frame =>
          cases frame with
          | data chunk =>
              obtain ⟨frames, hframes, hpolled⟩ := ih hlater (replaceData finder this chunk).1
              refine ⟨.data (replaceData finder this chunk).2 :: frames, ?_, ?_⟩
              · exact List.forall_mem_cons.2 ⟨rfl, hframes⟩
              · exact congrArg (Frame.data (replaceData finder this chunk).2 :: ·) hpolled
          | trailers headers => exact absurd List.mem_cons_self (hfront headers)

/-- Events without data come out as they are and leave the state. -/
theorem polledFrames_back (finder : Finder) (rest : List Polled) (back : List BodyEvent)
    (hback : ∀ bytes, BodyEvent.frame (.data bytes) ∉ back) (this : ReplaceBody) :
    polledFrames (runPolls (pollFrame finder) this (back.map BodyEvent.polled ++ rest)) =
      (trailersOf (framesOf back)).map Frame.trailers ++
        polledFrames (runPolls (pollFrame finder) this rest) := by
  induction back with
  | nil => rfl
  | cons event back ih =>
      have hlater : ∀ bytes, BodyEvent.frame (.data bytes) ∉ back := fun bytes hmem =>
        hback bytes (List.mem_cons_of_mem _ hmem)
      cases event with
      | pending => exact ih hlater
      | frame frame =>
          cases frame with
          | data bytes => exact absurd List.mem_cons_self (hback bytes)
          | trailers headers => exact congrArg (Frame.trailers headers :: ·) (ih hlater)

theorem chunksOf_of_no_data {back : List BodyEvent}
    (hback : ∀ bytes, BodyEvent.frame (.data bytes) ∉ back) : chunksOf back = [] := by
  rw [chunksOf, List.filterMap_eq_nil_iff]
  intro event hevent
  cases event with
  | pending => rfl
  | frame frame =>
      cases frame with
      | data bytes => exact absurd hevent (hback bytes)
      | trailers headers => rfl

theorem trailersOf_of_no_trailers {front : List BodyEvent}
    (hfront : ∀ headers, BodyEvent.frame (.trailers headers) ∉ front) :
    trailersOf (framesOf front) = [] := by
  rw [trailersOf, framesOf, List.filterMap_filterMap, List.filterMap_eq_nil_iff]
  intro event hevent
  cases event with
  | pending => rfl
  | frame frame =>
      cases frame with
      | data bytes => rfl
      | trailers headers => exact absurd hevent (hfront headers)

theorem dataOf_map_trailers (headers : List HeaderMap) : dataOf (headers.map Frame.trailers) = [] := by
  induction headers with
  | nil => rfl
  | cons _ headers ih => exact ih

/-- From the first trailers on there are the trailers, and what was held back. -/
theorem fromTrailers_outputFrames (finder : Finder) (searched replacement : Bytes) (once : Bool)
    (body : TrailedBody) :
    fromTrailers (outputFrames finder searched replacement once body.events) =
      if trailersOf (framesOf body.events) = [] then []
      else (trailersOf (framesOf body.events)).map Frame.trailers ++
        ((afterChunks finder (wrap searched replacement once) (chunksOf body.events)).buffer.map
          Frame.data).toList := by
  obtain ⟨front, back, hfront, hback⟩ := body
  have htrailers : trailersOf (framesOf (front ++ back)) = trailersOf (framesOf back) := by
    rw [framesOf, List.filterMap_append, trailersOf, List.filterMap_append]
    exact congrArg (· ++ _) (trailersOf_of_no_trailers hfront)
  have hchunks : chunksOf (front ++ back) = chunksOf front := by
    rw [chunksOf, List.filterMap_append]
    exact (congrArg (_ ++ ·) (chunksOf_of_no_data hback)).trans (List.append_nil _)
  obtain ⟨frames, hframes, hpolled⟩ := polledFrames_front finder
    (back.map BodyEvent.polled ++ [.ready none, .ready none]) front hfront
    (wrap searched replacement once)
  rw [TrailedBody.events, htrailers, hchunks, outputFrames, polls, List.map_append, List.append_assoc,
    hpolled, polledFrames_back finder _ back hback, polledFrames_end, fromTrailers,
    List.dropWhile_append_of_pos fun frame hframe => by rw [hframes frame hframe]; rfl]
  cases trailersOf (framesOf back) with
  | nil =>
      rw [if_pos rfl]
      cases (afterChunks finder (wrap searched replacement once) (chunksOf front)).buffer with
      | none => rfl
      | some buffer => rfl
  | cons headers others =>
      rw [if_neg (List.cons_ne_nil _ _)]
      rfl

/-- No data comes behind the trailers exactly when there are no trailers or nothing of the data stays
behind the matches that are replaced; no data frame does, not even an empty one, exactly when there are no
trailers, nothing is searched for or there are no data frames. -/
theorem replaced_trailers_last_iff (finder : Finder) (searched replacement : Bytes) (once : Bool)
    (body : TrailedBody) :
    (dataOf (fromTrailers (outputFrames finder searched replacement once body.events)) = [] ↔
        trailersOf (framesOf body.events) = [] ∨
          NothingBehindMatches searched once (chunksOf body.events)) ∧
      ((∀ bytes, Frame.data bytes ∉
          fromTrailers (outputFrames finder searched replacement once body.events)) ↔
        trailersOf (framesOf body.events) = [] ∨ searched = [] ∨ chunksOf body.events = []) := by
  rw [fromTrailers_outputFrames, ← held_eq_nil_iff finder searched replacement once,
    ← afterChunks_buffer_eq_none_iff finder searched replacement once, ReplaceBody.held]
  by_cases htrailers : trailersOf (framesOf body.events) = []
  · rw [if_pos htrailers]
    refine ⟨iff_of_true rfl (Or.inl htrailers), iff_of_true ?_ (Or.inl htrailers)⟩
    intro bytes hbytes
    cases hbytes
  · rw [if_neg htrailers, or_iff_right htrailers, or_iff_right htrailers, dataOf_append,
      dataOf_map_trailers, List.nil_append]
    cases (afterChunks finder (wrap searched replacement once) (chunksOf body.events)).buffer with
    | none =>
        refine ⟨Iff.rfl, iff_of_true ?_ rfl⟩
        intro bytes hbytes
        rw [Option.map_none, Option.toList_none, List.append_nil] at hbytes
        obtain ⟨headers, -, hheaders⟩ := List.mem_map.1 hbytes
        cases hheaders
    | some buffer =>
        refine ⟨?_, iff_of_false ?_ (Option.some_ne_none buffer)⟩
        · change buffer ++ [] = [] ↔ buffer = []
          rw [List.append_nil]
        · intro hnone
          exact hnone buffer (List.mem_append_right _ List.mem_cons_self)

/-- A chunk that the searched text could start in, and trailers behind it. -/
def heldBack : TrailedBody where
  front := [.frame (.data "fo".toUTF8.toList)]
  back := [.frame (.trailers [])]
  front_data := by
    intro headers h
    cases List.mem_singleton.1 h
  back_trailers := by
    intro bytes h
    cases List.mem_singleton.1 h

/-- The chunk comes out behind the trailers. -/
theorem heldBack_behind_trailers : ¬ ∀ (finder : Finder) (searched replacement : Bytes) (once : Bool)
    (body : TrailedBody),
    dataOf (fromTrailers (outputFrames finder searched replacement once body.events)) = [] := by
  intro h
  have hheld := h Finder.naive "foo".toUTF8.toList "bar".toUTF8.toList false heldBack
  revert hheld
  decide +kernel

end Ferron.Modules.BodyReplacer
