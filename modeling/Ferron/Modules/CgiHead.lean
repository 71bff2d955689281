import Ferron.Modules.CgiResponse

/-!
# Heads of CGI responses, however they arrive

The head of a response is what comes up to the end of the first separator. `get_head` looks for it among
at most 16384 bytes, in a stream that may arrive in any pieces.

The search at the new bytes agrees with a search from the start (`searchHeaderBodySeparator_window`). The
limit depends on the pieces: it applies to all that the reads have brought, not to the head. So the head
may be missed that ends within the limit, when the stream is longer than the limit, and then it depends
on the pieces whether it is (`getHead_independent_iff`).
-/

set_option autoImplicit false

namespace Ferron.Modules.CgiResponse

open Ferron.Lib.Delimiter

/-! ## Independence of the pieces -/

/-- The head of the bytes: up to the end of the first separator within the capacity, else nothing. -/
def IsHead (bytes head : Bytes) : Prop :=
  (∃ e ≤ responseBufferCapacity, FirstEnd separators bytes e ∧ head = bytes.take e) ∨
    (∀ e ≤ responseBufferCapacity, ¬ FirstEnd separators bytes e) ∧ head = []

/-- What a search returned, moved by the position at which the search began. -/
def movedBy (beginSearch : Nat) (found : Nat × Nat) : Nat × Nat := (beginSearch + found.1, found.2)

/-- The head does not depend on the pieces in which the bytes arrive. -/
structure Independent (bytes : Bytes) : Prop where
  same : ∀ stream₁ stream₂ : Reader, stream₁.remaining = bytes → stream₂.remaining = bytes →
    (new stream₁).getHead.1 = (new stream₂).getHead.1
  first : ∀ stream : Reader, stream.remaining = bytes → IsHead bytes (new stream).getHead.1
  incremental : ∀ responseBuf tempBuf : Bytes, responseBuf ++ tempBuf <+: bytes →
    searchHeaderBodySeparator responseBuf = none →
      (searchHeaderBodySeparator ((responseBuf ++ tempBuf).drop (responseBuf.length - 3))).map
          (movedBy (responseBuf.length - 3)) =
        searchHeaderBodySeparator (responseBuf ++ tempBuf)

theorem two_le_length_separator : ∀ d ∈ separators, 2 ≤ d.length := by
  rintro d (rfl | rfl | rfl | rfl) <;> decide

/-! ## The separator that a search finds -/

/-- A separator of the returned length ends where the returned position and length say. -/
def FindsSeparator (slice : Bytes) : Option (Nat × Nat) → Prop
  | some (i, n) => ∃ d ∈ separators, d.length = n ∧ d <:+ slice.take (i + n)
  | none => True

/-- A line break that repeats the one before. -/
theorem Passed.repeated {slice lastChars rest : Bytes} {index : Nat} {ch : UInt8}
    (h : Passed slice index lastChars) (hunread : slice.drop index = ch :: rest)
    (hch : ch = cr ∨ ch = lf) (hrepeat : lastChars.getLast? = some ch) :
    [ch, ch] ∈ separators ∧ [ch, ch] <:+ slice.take (index + 1) := by
  obtain ⟨⟨before, hbefore, -⟩, -⟩ := h.tracks
  obtain ⟨init, hinit⟩ := List.getLast?_eq_some_iff.1 hrepeat
  constructor
  · rcases hch with rfl | rfl
    · exact Or.inr (Or.inl rfl)
    · exact Or.inl rfl
  · rw [take_succ_eq hunread, hbefore, hinit]
    exact ⟨before ++ init, by simp⟩

/-- The fourth line break of an alternation. -/
theorem Passed.alternated {slice lastChars rest : Bytes} {index : Nat} {ch : UInt8}
    (h : Passed slice index lastChars) (hunread : slice.drop index = ch :: rest)
    (hch : ch = cr ∨ ch = lf) (hrepeat : lastChars.getLast? ≠ some ch) (hthree : lastChars.length = 3) :
    lastChars ++ [ch] ∈ separators ∧ lastChars ++ [ch] <:+ slice.take (index + 1) := by
  obtain ⟨⟨before, hbefore, -⟩, hlast⟩ := h.tracks
  constructor
  · simp only [List.mem_cons, List.not_mem_nil, or_false] at hlast
    rcases hlast with rfl | rfl | rfl | rfl | rfl | rfl | rfl <;> try cases hthree
    · rcases hch with rfl | rfl
      · exact absurd rfl hrepeat
      · exact Or.inr (Or.inr (Or.inl rfl))
    · rcases hch with rfl | rfl
      · exact Or.inr (Or.inr (Or.inr rfl))
      · exact absurd rfl hrepeat
  · rw [take_succ_eq hunread, hbefore]
    exact ⟨before, by rw [List.append_assoc]⟩

theorem searchLoop_findsSeparator {slice lastChars : Bytes} {index : Nat}
    (h : Passed slice index lastChars) : FindsSeparator slice (searchLoop slice index lastChars) := by
  refine searchLoop_rule ?_ ?_ ?_ h
  · intro index lastChars ch rest hpassed hunread hch hrepeat
    have hpos := hpassed.pos_of_repeat hrepeat
    have hposition : index - 1 + 2 = index + 1 := by
      omega
    obtain ⟨hmem, hsuffix⟩ := hpassed.repeated hunread hch hrepeat
    exact ⟨[ch, ch], hmem, rfl, hposition ▸ hsuffix⟩
  · intro index lastChars ch rest hpassed hunread hch hrepeat hthree
    have hlength := hpassed.length_le
    have hposition : index - 3 + 4 = index + 1 := by
      omega
    obtain ⟨hmem, hsuffix⟩ := hpassed.alternated hunread hch hrepeat hthree
    refine ⟨lastChars ++ [ch], hmem, ?_, hposition ▸ hsuffix⟩
    rw [List.length_append, hthree]
    rfl
  · exact fun _ _ => trivial

theorem searchHeaderBodySeparator_findsSeparator (slice : Bytes) :
    FindsSeparator slice (searchHeaderBodySeparator slice) := by
  rw [searchHeaderBodySeparator]
  by_cases hshort : slice.length < 2
  · rw [if_pos hshort]
    exact trivial
  · rw [if_neg hshort]
    exact searchLoop_findsSeparator (passed_zero slice)

/-- Two separators that end at the same place have the same length. -/
theorem length_separator_unique {d₁ d₂ s : Bytes} (h₁ : d₁ ∈ separators) (h₂ : d₂ ∈ separators)
    (hs₁ : d₁ <:+ s) (hs₂ : d₂ <:+ s) : d₁.length = d₂.length := by
  rcases List.suffix_or_suffix_of_suffix hs₁ hs₂ with h | h <;>
    rcases h₁ with rfl | rfl | rfl | rfl <;> rcases h₂ with rfl | rfl | rfl | rfl <;>
      first
        | rfl
        | exact absurd h (by decide)

/-- When the old bytes have no separator, the search at the new ones and the last three old ones returns
what a search from the start does. -/
theorem searchHeaderBodySeparator_window {responseBuf : Bytes}
    (hnone : searchHeaderBodySeparator responseBuf = none) (tempBuf : Bytes) :
    (searchHeaderBodySeparator ((responseBuf ++ tempBuf).drop (responseBuf.length - 3))).map
        (movedBy (responseBuf.length - 3)) =
      searchHeaderBodySeparator (responseBuf ++ tempBuf) := by
  have hno : ¬ Occurs separators responseBuf := by
    have hfinds := searchHeaderBodySeparator_finds responseBuf
    rw [hnone] at hfinds
    exact hfinds
  have hwhole := searchHeaderBodySeparator_finds (responseBuf ++ tempBuf)
  cases hsearch : searchHeaderBodySeparator ((responseBuf ++ tempBuf).drop (responseBuf.length - 3)) with
  | none =>
      have hnot := searchHeaderBodySeparator_window_none hno hsearch
      cases hstart : searchHeaderBodySeparator (responseBuf ++ tempBuf) with
      | none => rfl
      | some found =>
          rw [hstart] at hwhole
          exact absurd (FirstEnd.occurs hwhole) hnot
  | some found =>
      obtain ⟨i, n⟩ := found
      have hfirst := searchHeaderBodySeparator_window_some hno hsearch
      have hseparator := searchHeaderBodySeparator_findsSeparator
        ((responseBuf ++ tempBuf).drop (responseBuf.length - 3))
      rw [hsearch] at hseparator
      obtain ⟨d, hd, rfl, hsuffix⟩ := hseparator
      cases hstart : searchHeaderBodySeparator (responseBuf ++ tempBuf) with
      | none =>
          rw [hstart] at hwhole
          exact absurd hfirst.occurs hwhole
      | some found' =>
          obtain ⟨i', n'⟩ := found'
          have hseparator' := searchHeaderBodySeparator_findsSeparator (responseBuf ++ tempBuf)
          rw [hstart] at hwhole hseparator'
          obtain ⟨d', hd', rfl, hsuffix'⟩ := hseparator'
          -- both end at the same place
          have hend : responseBuf.length - 3 + i + d.length = i' + d'.length := hfirst.unique hwhole
          have hsuffix'' : d <:+ (responseBuf ++ tempBuf).take (i' + d'.length) := by
            rw [← hend, Nat.add_assoc, List.take_add]
            exact hsuffix.trans (List.suffix_append _ _)
          have hlength := length_separator_unique hd hd' hsuffix'' hsuffix'
          rw [Option.map_some, movedBy, Option.some.injEq, Prod.mk.injEq]
          exact ⟨by omega, hlength⟩

/-! ## The head that is found -/

/-- The bytes that are read are those of the stream. -/
theorem flatten_reads (stream : Reader) : (reads stream).flatten = stream.remaining := by
  induction hmeasure : stream.remaining.length using Nat.strong_induction_on generalizing stream with
  | _ measure ih =>
      have happend := stream.read_append_remaining responseBufferCapacity
      have hlength := stream.length_remaining_read responseBufferCapacity
      rw [reads]
      by_cases hend : (stream.read responseBufferCapacity).1 = []
      · rw [dif_pos hend]
        exact ((stream.read_eq_nil_iff (by decide)).1 hend).symm
      · have hpos := List.length_pos_iff.2 hend
        rw [dif_neg hend, List.flatten_cons, ih _ (by omega) _ rfl, happend]

/-- When the reads fit until there is a separator, the head is found; else it is empty. -/
theorem getHead_spec (this : CgiResponse) (hno : ¬ Occurs separators this.responseBuf) :
    (FitsUntilSeparator this.responseBuf (reads this.stream) →
        (∃ e ≤ responseBufferCapacity,
            FirstEnd separators (this.responseBuf ++ this.stream.remaining) e ∧
              this.getHead.1 = (this.responseBuf ++ this.stream.remaining).take e) ∨
          ¬ Occurs separators (this.responseBuf ++ this.stream.remaining) ∧ this.getHead.1 = []) ∧
      (¬ FitsUntilSeparator this.responseBuf (reads this.stream) → this.getHead.1 = []) := by
  induction hmeasure : this.stream.remaining.length using Nat.strong_induction_on
    generalizing this with
  | _ measure ih =>
      have happend := this.stream.read_append_remaining responseBufferCapacity
      have hlength := this.stream.length_remaining_read responseBufferCapacity
      have hnil := this.stream.read_eq_nil_iff (show 0 < responseBufferCapacity by decide)
      rw [getHead, reads]
      generalize this.stream.read responseBufferCapacity = result at *
      obtain ⟨tempBuf, stream⟩ := result
      dsimp only at *
      by_cases hend : tempBuf = []
      · rw [dif_pos hend, dif_pos hend, hnil.1 hend, List.append_nil]
        exact ⟨fun _ => Or.inr ⟨hno, rfl⟩, fun _ => rfl⟩
      · have hpos := List.length_pos_iff.2 hend
        rw [dif_neg hend, dif_neg hend, fitsUntilSeparator_cons_iff hno, List.length_append]
        by_cases hover : responseBufferCapacity < this.responseBuf.length + tempBuf.length
        · rw [if_pos hover]
          exact ⟨fun hfits => absurd hfits.1 (Nat.not_le_of_lt hover), fun _ => rfl⟩
        · rw [if_neg hover, and_iff_right (Nat.le_of_not_lt hover), ← happend, ← List.append_assoc]
          cases hsearch : searchHeaderBodySeparator
              ((this.responseBuf ++ tempBuf).drop (this.responseBuf.length - 3)) with
          | some found =>
              obtain ⟨separatorIndex, separatorLen⟩ := found
              have hfirst := searchHeaderBodySeparator_window_some hno hsearch
              have hle := hfirst.1
              rw [List.length_append] at hle
              have hfits := fitsUntilSeparator_of_occurs hfirst.occurs (reads stream)
              refine ⟨fun _ => Or.inl ⟨_, by omega, hfirst.append _, ?_⟩, fun h => absurd hfits h⟩
              exact (List.take_append_of_le_length hfirst.1).symm
          | none =>
              have hno' := searchHeaderBodySeparator_window_none hno hsearch
              exact ih stream.remaining.length (by omega)
                { this with stream := stream, responseBuf := this.responseBuf ++ tempBuf } hno' rfl

theorem not_occurs_nil : ¬ Occurs separators [] := (passed_zero []).not_occurs (Nat.zero_le _)

/-- A head is not empty. -/
theorem take_ne_nil_of_firstEnd {bytes : Bytes} {e : Nat} (h : FirstEnd separators bytes e) :
    bytes.take e ≠ [] := by
  intro hnil
  have hends := h.2.1
  rw [hnil] at hends
  exact not_occurs_nil ((occurs_iff_exists_take []).2 ⟨0, le_rfl, hends⟩)

theorem IsHead.unique {bytes head₁ head₂ : Bytes} (h₁ : IsHead bytes head₁)
    (h₂ : IsHead bytes head₂) : head₁ = head₂ := by
  rcases h₁ with ⟨e₁, hle₁, hfirst₁, rfl⟩ | ⟨hnone₁, rfl⟩
  · rcases h₂ with ⟨e₂, hle₂, hfirst₂, rfl⟩ | ⟨hnone₂, rfl⟩
    · rw [hfirst₁.unique hfirst₂]
    · exact absurd hfirst₁ (hnone₂ e₁ hle₁)
  · rcases h₂ with ⟨e₂, hle₂, hfirst₂, rfl⟩ | ⟨-, rfl⟩
    · exact absurd hfirst₂ (hnone₁ e₂ hle₂)
    · rfl

/-- The head is missed exactly when there is one and a read before its end overfills the buffer. -/
theorem getHead_isHead_iff (stream : Reader) :
    IsHead stream.remaining (new stream).getHead.1 ↔
      (∀ e ≤ responseBufferCapacity, ¬ FirstEnd separators stream.remaining e) ∨
        FitsUntilSeparator [] (reads stream) := by
  obtain ⟨hfits, hover⟩ := getHead_spec (new stream) not_occurs_nil
  change (FitsUntilSeparator [] (reads stream) → _) at hfits
  change (¬ FitsUntilSeparator [] (reads stream) → _) at hover
  rw [show (new stream).responseBuf = [] from rfl, show (new stream).stream = stream from rfl,
    List.nil_append] at hfits
  by_cases hread : FitsUntilSeparator [] (reads stream)
  · refine iff_of_true ?_ (Or.inr hread)
    rcases hfits hread with hfound | ⟨hno, hempty⟩
    · exact Or.inl hfound
    · exact Or.inr ⟨fun e _ hfirst => hno hfirst.occurs, hempty⟩
  · rw [or_iff_left hread, hover hread]
    constructor
    · rintro (⟨e, hle, hfirst, hempty⟩ | ⟨hnone, -⟩)
      · exact absurd hempty.symm (take_ne_nil_of_firstEnd hfirst)
      · exact hnone
    · intro hnone
      exact Or.inr ⟨hnone, rfl⟩

/-! ## All the ways to arrive -/

/-- Reads that are short enough together fit. -/
theorem fitsUntilSeparator_of_length_le {stream : Reader}
    (hlength : stream.remaining.length ≤ responseBufferCapacity) :
    FitsUntilSeparator [] (reads stream) := by
  intro k _ _
  have hprefix : ((reads stream).take (k + 1)).flatten <+: stream.remaining := by
    rw [← flatten_reads stream]
    exact (List.take_prefix _ _).flatten
  rw [List.nil_append]
  exact hprefix.length_le.trans hlength

/-- The first byte alone, and the others behind it. -/
def firstByteAlone (byte other : UInt8) (others : Bytes) : Reader :=
  ⟨[[byte], other :: others], by
    intro piece hpiece
    rcases List.mem_cons.1 hpiece with rfl | hpiece
    · exact List.cons_ne_nil _ _
    · rcases List.mem_singleton.1 hpiece with rfl
      exact List.cons_ne_nil _ _⟩

theorem remaining_firstByteAlone (byte other : UInt8) (others : Bytes) :
    (firstByteAlone byte other others).remaining = byte :: other :: others := by
  rw [Reader.remaining, firstByteAlone, List.flatten_cons, List.flatten_singleton,
    List.singleton_append]

/-- Then the second read overfills the buffer, if there is more than fits. -/
theorem not_fitsUntilSeparator_firstByteAlone {byte other : UInt8} {others : Bytes}
    (hlong : responseBufferCapacity < (byte :: other :: others).length) :
    ¬ FitsUntilSeparator [] (reads (firstByteAlone byte other others)) := by
  have hone : ¬ Occurs separators ([] ++ [byte]) := by
    rintro ⟨d, hd, hinside⟩
    have htwo := two_le_length_separator d hd
    have hone := hinside.length_le
    rw [List.nil_append, List.length_singleton] at hone
    omega
  have hbyte : [byte].length ≤ responseBufferCapacity := by
    rw [List.length_singleton]
    decide
  rw [List.length_cons] at hlong
  obtain ⟨hfirst, hrest⟩ := @Reader.read_of_pieces (firstByteAlone byte other others) _ _
    responseBufferCapacity rfl
  obtain ⟨hsecond, -⟩ := Reader.read_of_pieces responseBufferCapacity (hrest hbyte)
  have htake : (other :: others).take responseBufferCapacity ≠ [] := List.cons_ne_nil _ _
  rw [reads, hfirst, List.take_of_length_le hbyte, dif_neg (List.cons_ne_nil _ _),
    fitsUntilSeparator_cons_iff not_occurs_nil, reads, hsecond, dif_neg htake,
    fitsUntilSeparator_cons_iff hone]
  rintro ⟨-, hover, -⟩
  rw [List.length_append, List.length_append, List.length_take, List.length_nil,
    List.length_singleton] at hover
  omega

/-- The head is the first one within the capacity, however the bytes arrive, exactly when there is none
within the capacity or all the bytes fit into it. A single way to arrive finds the head exactly when
there is none within the capacity or no read before its end overfills the buffer. -/
theorem getHead_independent_iff (bytes : Bytes) :
    (Independent bytes ↔
        (∀ e ≤ responseBufferCapacity, ¬ FirstEnd separators bytes e) ∨
          bytes.length ≤ responseBufferCapacity) ∧
      ∀ stream : Reader, stream.remaining = bytes →
        (IsHead bytes (new stream).getHead.1 ↔
          (∀ e ≤ responseBufferCapacity, ¬ FirstEnd separators bytes e) ∨
            FitsUntilSeparator [] (reads stream)) := by
  refine ⟨⟨fun h => ?_, fun h => ?_⟩, ?_⟩
  · -- a long stream whose first byte arrives alone
    by_contra hboth
    obtain ⟨hhead, hlong⟩ := not_or.1 hboth
    obtain ⟨byte, other, others, rfl⟩ : ∃ byte other others, bytes = byte :: other :: others := by
      rcases bytes with _ | ⟨byte, _ | ⟨other, others⟩⟩
      · exact absurd (Nat.zero_le _) hlong
      · exact absurd (show 1 ≤ responseBufferCapacity by decide) hlong
      · exact ⟨byte, other, others, rfl⟩
    have hremaining := remaining_firstByteAlone byte other others
    have hisHead := h.first _ hremaining
    rw [← hremaining, getHead_isHead_iff, hremaining] at hisHead
    rcases hisHead with hnone | hfits
    · exact hhead hnone
    · exact not_fitsUntilSeparator_firstByteAlone (Nat.lt_of_not_le hlong) hfits
  · have hfirst : ∀ stream : Reader, stream.remaining = bytes →
        IsHead bytes (new stream).getHead.1 := by
      rintro stream rfl
      exact (getHead_isHead_iff stream).2 (h.imp_right fitsUntilSeparator_of_length_le)
    refine ⟨fun stream₁ stream₂ h₁ h₂ => (hfirst stream₁ h₁).unique (hfirst stream₂ h₂), hfirst, ?_⟩
    intro responseBuf tempBuf _ hnone
    exact searchHeaderBodySeparator_window hnone tempBuf
  · rintro stream rfl
    exact getHead_isHead_iff stream

/-- A head of two line feeds, with a body behind it. -/
def shortHead : Bytes := lf :: lf :: List.replicate responseBufferCapacity 65

theorem shortHead_firstEnd : FirstEnd separators shortHead 2 := by
  have hhead : FirstEnd separators [lf, lf] 2 := by
    refine ⟨le_rfl, ⟨[lf, lf], Or.inl rfl, List.suffix_rfl⟩, ?_⟩
    rintro e he ⟨d, hd, hsuffix⟩
    have htwo := two_le_length_separator d hd
    have hlength := hsuffix.length_le.trans (List.length_take_le e _)
    omega
  exact hhead.append _

/-- When its first byte arrives alone, the head is not found. -/
theorem shortHead_not_independent : ¬ ∀ bytes : Bytes, Independent bytes := by
  intro h
  have hremaining : (firstByteAlone lf lf (List.replicate responseBufferCapacity 65)).remaining =
      shortHead := remaining_firstByteAlone _ _ _
  have hisHead := (h shortHead).first _ hremaining
  rw [← hremaining, getHead_isHead_iff, hremaining] at hisHead
  rcases hisHead with hnone | hfits
  · exact hnone 2 (by decide) shortHead_firstEnd
  · refine not_fitsUntilSeparator_firstByteAlone ?_ hfits
    rw [List.length_cons, List.length_cons, List.length_replicate]
    omega

end Ferron.Modules.CgiResponse
