import Ferron.Lib.Delimiter
import Ferron.Rust.Reader

/-!
# Responses of CGI programs

`getHead` reads a stream into a buffer of fixed capacity until the buffer has a separator between
head and body, and `pollRead` then gives out what is left in the buffer and after it the stream. The
search looks at the new bytes and the last three old ones, which finds every separator
(`searchHeaderBodySeparator_window_some`, `searchHeaderBodySeparator_window_none`).

A stream that ends without a separator is given out whole as a body. A read that would overfill the
buffer is dropped, although what is in the buffer and what follows in the stream is given out. So
head and body together are the stream exactly when no read overfills the buffer before an earlier
one has completed a separator (`getHead_append_readToEnd_iff`).
-/

set_option autoImplicit false

namespace Ferron.Modules

/-- A response, which wraps a read stream. -/
structure CgiResponse where
  stream : Reader
  responseBuf : Bytes
  responseHeadLength : Option Nat

namespace CgiResponse

open Ferron.Lib.Delimiter

def responseBufferCapacity : Nat := 16384

/-- `b'\r'`. -/
def cr : UInt8 := 0x0d

/-- `b'\n'`. -/
def lf : UInt8 := 0x0a

/-! ## The search for the separator -/

/-- `memchr2`: the first position of one of two bytes. -/
def memchr2 (a b : UInt8) (s : Bytes) : Option Nat := s.findIdx? fun c => c = a ∨ c = b

/-- The loop of `search_header_body_separator`. -/
def searchLoop (slice : Bytes) (index : Nat) (lastChars : List UInt8) : Option (Nat × Nat) :=
  match memchr2 cr lf (slice.drop index) with
  | none => none
  | some foundIndex =>
      let lastChars := if 0 < foundIndex then [] else lastChars
      let ch := slice.getD (index + foundIndex) 0
      -- "\n\n" or "\r\r"
      if lastChars.getLast? = some ch then some (index + foundIndex - 1, 2)
      -- "\r\n\r\n" or "\n\r\n\r"
      else if (lastChars ++ [ch]).length = 4 then some (index + foundIndex - 3, 4)
      else if _h : slice.length ≤ index + foundIndex + 1 then none
      else searchLoop slice (index + foundIndex + 1) (lastChars ++ [ch])
  termination_by slice.length - index
  decreasing_by omega

/-- `search_header_body_separator`: the position and the length of the separator. -/
def searchHeaderBodySeparator (slice : Bytes) : Option (Nat × Nat) :=
  if slice.length < 2 then none else searchLoop slice 0 []

/-- The separators between head and body. -/
def separators : Set Bytes := {[lf, lf], [cr, cr], [cr, lf, cr, lf], [lf, cr, lf, cr]}

theorem length_separator_le : ∀ d ∈ separators, d.length ≤ 3 + 1 := by
  rintro d (rfl | rfl | rfl | rfl) <;> decide

/-- What the loop remembers of the bytes it has passed: the line breaks at their end, which
alternate. -/
def Tracks (passed lastChars : Bytes) : Prop :=
  (∃ before, passed = before ++ lastChars ∧ ∀ c ∈ before.getLast?, c ≠ cr ∧ c ≠ lf) ∧
    lastChars ∈ [[], [cr], [lf], [cr, lf], [lf, cr], [cr, lf, cr], [lf, cr, lf]]

theorem tracks_nil : Tracks [] [] := by
  refine ⟨⟨[], rfl, ?_⟩, List.mem_cons_self⟩
  intro c hc
  exact absurd hc (by simp)

theorem endsWith_separators_iff (s : Bytes) :
    EndsWith separators s ↔ [lf, lf] <+: s.reverse ∨ [cr, cr] <+: s.reverse ∨
      [lf, cr, lf, cr] <+: s.reverse ∨ [cr, lf, cr, lf] <+: s.reverse := by
  have hreverse : ∀ d : Bytes, d <:+ s ↔ d.reverse <+: s.reverse := fun d =>
    List.reverse_prefix.symm
  unfold EndsWith separators
  simp only [Set.mem_insert_iff, Set.mem_singleton_iff, exists_eq_or_imp, exists_eq_left, hreverse]
  rfl

/-- No separator ends with a byte that is not a line break. -/
theorem not_endsWith_of_ne {passed : Bytes} {c : UInt8} (hcr : c ≠ cr) (hlf : c ≠ lf) :
    ¬ EndsWith separators (passed ++ [c]) := by
  rw [endsWith_separators_iff, List.reverse_append]
  simp only [List.reverse_cons, List.reverse_nil, List.nil_append, List.singleton_append,
    List.cons_prefix_cons]
  rintro (h | h | h | h)
  · exact hlf h.1.symm
  · exact hcr h.1.symm
  · exact hlf h.1.symm
  · exact hcr h.1.symm

/-- A line break completes a separator when it repeats the one before, or is the fourth of an
alternation. -/
theorem endsWith_concat_iff {passed lastChars : Bytes} {ch : UInt8} (h : Tracks passed lastChars)
    (hch : ch = cr ∨ ch = lf) :
    EndsWith separators (passed ++ [ch]) ↔ lastChars.getLast? = some ch ∨ lastChars.length = 3 := by
  obtain ⟨⟨before, rfl, hbefore⟩, hlast⟩ := h
  have hhead : ∀ c ∈ before.reverse.head?, c ≠ cr ∧ c ≠ lf := by
    rw [List.head?_reverse]
    exact hbefore
  rw [endsWith_separators_iff, List.reverse_append, List.reverse_append]
  have hne : cr ≠ lf := by decide
  simp only [List.mem_cons, List.not_mem_nil, or_false] at hlast
  generalize before.reverse = earlier at hhead ⊢
  cases earlier with
  | nil =>
      rcases hch with rfl | rfl <;> rcases hlast with rfl | rfl | rfl | rfl | rfl | rfl | rfl <;>
        simp [List.cons_prefix_cons, hne, hne.symm]
  | cons c earlier =>
      obtain ⟨hcr, hlf⟩ := hhead c rfl
      rcases hch with rfl | rfl <;> rcases hlast with rfl | rfl | rfl | rfl | rfl | rfl | rfl <;>
        simp [List.cons_prefix_cons, hne, hne.symm, hcr.symm, hlf.symm]

/-- The loop forgets the line breaks when it passes other bytes. -/
theorem tracks_append_skipped {passed lastChars skipped : Bytes} (h : Tracks passed lastChars)
    (hskipped : ∀ c ∈ skipped, c ≠ cr ∧ c ≠ lf) :
    Tracks (passed ++ skipped) (if 0 < skipped.length then [] else lastChars) := by
  rcases List.eq_nil_or_concat' skipped with rfl | ⟨init, c, rfl⟩
  · simpa using h
  · rw [if_pos (by simp)]
    refine ⟨⟨_, (List.append_nil _).symm, ?_⟩, List.mem_cons_self⟩
    intro c' hc'
    rw [← List.append_assoc, List.getLast?_concat, Option.mem_some_iff] at hc'
    exact hc' ▸ hskipped c (by simp)

/-- The loop remembers a line break that completes no separator. -/
theorem tracks_concat {passed lastChars : Bytes} {ch : UInt8} (h : Tracks passed lastChars)
    (hch : ch = cr ∨ ch = lf) (hends : ¬ EndsWith separators (passed ++ [ch])) :
    Tracks (passed ++ [ch]) (lastChars ++ [ch]) := by
  rw [endsWith_concat_iff h hch, not_or] at hends
  obtain ⟨⟨before, rfl, hbefore⟩, hlast⟩ := h
  refine ⟨⟨before, List.append_assoc _ _ _, hbefore⟩, ?_⟩
  obtain ⟨hrepeat, hlength⟩ := hends
  simp only [List.mem_cons, List.not_mem_nil, or_false] at hlast
  rcases hch with rfl | rfl <;> rcases hlast with rfl | rfl | rfl | rfl | rfl | rfl | rfl <;>
    first
      | exact absurd rfl hrepeat
      | exact absurd rfl hlength
      | decide

theorem memchr2_eq_none {a b : UInt8} {s : Bytes} (h : memchr2 a b s = none) :
    ∀ c ∈ s, c ≠ a ∧ c ≠ b := by
  intro c hc
  have hnot := List.findIdx?_eq_none_iff.1 h c hc
  simpa using hnot

theorem memchr2_eq_some {a b : UInt8} {s : Bytes} {i : Nat} (h : memchr2 a b s = some i) :
    ∃ skipped ch rest, s = skipped ++ ch :: rest ∧ skipped.length = i ∧ (ch = a ∨ ch = b) ∧
      ∀ c ∈ skipped, c ≠ a ∧ c ≠ b := by
  obtain ⟨hi, hfound, hbefore⟩ := List.findIdx?_eq_some_iff_getElem.1 h
  refine ⟨s.take i, s[i], s.drop (i + 1), ?_, ?_, by simpa using hfound, ?_⟩
  · rw [← List.drop_eq_getElem_cons hi, List.take_append_drop]
  · rw [List.length_take]
    exact Nat.min_eq_left hi.le
  · intro c hc
    obtain ⟨j, hj, rfl⟩ := List.mem_iff_getElem.1 hc
    rw [List.length_take] at hj
    have hnot := hbefore j (by omega)
    simpa using hnot

/-- What the loop knows of the bytes before its index: no separator ends there, and it remembers
their last line breaks. -/
structure Passed (slice : Bytes) (index : Nat) (lastChars : Bytes) : Prop where
  index_le : index ≤ slice.length
  tracks : Tracks (slice.take index) lastChars
  not_endsWith : ∀ e ≤ index, ¬ EndsWith separators (slice.take e)

theorem Passed.length_le {slice lastChars : Bytes} {index : Nat} (h : Passed slice index lastChars) :
    lastChars.length ≤ index := by
  obtain ⟨⟨before, heq, -⟩, -⟩ := h.tracks
  have hlength := congrArg List.length heq
  rw [List.length_append, List.length_take] at hlength
  omega

/-- Bytes that are not line breaks complete no separator. -/
theorem Passed.skip {slice lastChars skipped rest : Bytes} {index : Nat}
    (h : Passed slice index lastChars) (hunread : slice.drop index = skipped ++ rest)
    (hskipped : ∀ c ∈ skipped, c ≠ cr ∧ c ≠ lf) :
    Passed slice (index + skipped.length) (if 0 < skipped.length then [] else lastChars) := by
  have htake : ∀ j ≤ skipped.length,
      slice.take (index + j) = slice.take index ++ skipped.take j := by
    intro j hj
    rw [List.take_add, hunread, List.take_append_of_le_length hj]
  refine ⟨?_, ?_, ?_⟩
  · have hlength := congrArg List.length hunread
    rw [List.length_drop, List.length_append] at hlength
    have hindex := h.index_le
    omega
  · rw [htake _ le_rfl, List.take_length]
    exact tracks_append_skipped h.tracks hskipped
  · intro e he
    rcases Nat.le_total e index with hle | hge
    · exact h.not_endsWith e hle
    · obtain ⟨j, rfl⟩ := Nat.exists_eq_add_of_le hge
      have hj : j ≤ skipped.length := by omega
      rw [htake j hj]
      rcases List.eq_nil_or_concat' (skipped.take j) with hnil | ⟨init, c, hconcat⟩
      · rw [hnil, List.append_nil]
        exact h.not_endsWith index le_rfl
      · have hc : c ∈ skipped := List.mem_of_mem_take (i := j) (by rw [hconcat]; simp)
        rw [hconcat, ← List.append_assoc]
        exact not_endsWith_of_ne (hskipped c hc).1 (hskipped c hc).2

section LineBreak

variable {slice lastChars rest : Bytes} {index : Nat} {ch : UInt8}
  (h : Passed slice index lastChars) (hunread : slice.drop index = ch :: rest)
  (hch : ch = cr ∨ ch = lf)

include hunread in
theorem take_succ_eq : slice.take (index + 1) = slice.take index ++ [ch] := by
  rw [List.take_add, hunread]
  rfl

include hunread in
theorem succ_le_length : index + 1 ≤ slice.length := by
  have hlength := congrArg List.length hunread
  rw [List.length_drop, List.length_cons] at hlength
  omega

include h hunread hch in
/-- The separator that the next line break completes is the first one to end. -/
theorem Passed.firstEnd (hends : lastChars.getLast? = some ch ∨ lastChars.length = 3) :
    FirstEnd separators slice (index + 1) := by
  refine ⟨succ_le_length hunread, ?_, ?_⟩
  · rw [take_succ_eq hunread]
    exact (endsWith_concat_iff h.tracks hch).2 hends
  · intro e he
    exact h.not_endsWith e (by omega)

include h hunread hch in
/-- A line break that completes no separator is remembered. -/
theorem Passed.remember (hrepeat : lastChars.getLast? ≠ some ch) (hlength : lastChars.length ≠ 3) :
    Passed slice (index + 1) (lastChars ++ [ch]) := by
  have hnot : ¬ EndsWith separators (slice.take index ++ [ch]) := by
    rw [endsWith_concat_iff h.tracks hch]
    rintro (hlast | hthree)
    · exact hrepeat hlast
    · exact hlength hthree
  refine ⟨succ_le_length hunread, ?_, ?_⟩
  · rw [take_succ_eq hunread]
    exact tracks_concat h.tracks hch hnot
  · intro e he
    rcases Nat.lt_or_eq_of_le he with hlt | rfl
    · exact h.not_endsWith e (by omega)
    · rw [take_succ_eq hunread]
      exact hnot

end LineBreak

theorem Passed.not_occurs {slice lastChars : Bytes} {index : Nat} (h : Passed slice index lastChars)
    (hend : slice.length ≤ index) : ¬ Occurs separators slice := by
  rw [occurs_iff_exists_take]
  rintro ⟨e, he, hends⟩
  exact h.not_endsWith e (by omega) hends

/-- What a search in a slice should return. -/
def Finds (slice : Bytes) : Option (Nat × Nat) → Prop
  | some (i, n) => FirstEnd separators slice (i + n)
  | none => ¬ Occurs separators slice

/-- A rule for the loop: its result has a property that a separator of two line breaks has where the last
one repeats the one before, that one of four has where the last one is the fourth of an alternation, and
that the end of the slice has. -/
theorem searchLoop_rule {slice : Bytes} {Returns : Option (Nat × Nat) → Prop}
    (htwo : ∀ {index : Nat} {lastChars : List UInt8} {ch : UInt8} {rest : Bytes},
      Passed slice index lastChars → slice.drop index = ch :: rest → ch = cr ∨ ch = lf →
      lastChars.getLast? = some ch → Returns (some (index - 1, 2)))
    (hfour : ∀ {index : Nat} {lastChars : List UInt8} {ch : UInt8} {rest : Bytes},
      Passed slice index lastChars → slice.drop index = ch :: rest → ch = cr ∨ ch = lf →
      lastChars.getLast? ≠ some ch → lastChars.length = 3 → Returns (some (index - 3, 4)))
    (hend : ∀ {index : Nat} {lastChars : List UInt8}, Passed slice index lastChars →
      slice.length ≤ index → Returns none)
    {lastChars : List UInt8} {index : Nat} (h : Passed slice index lastChars) :
    Returns (searchLoop slice index lastChars) := by
  -- the unread part gets shorter with each line break
  induction hmeasure : slice.length - index using Nat.strong_induction_on
    generalizing index lastChars with
  | _ measure ih =>
      rw [searchLoop]
      cases hfound : memchr2 cr lf (slice.drop index) with
      | none =>
          -- no line break is left
          refine hend (h.skip (List.append_nil _).symm (memchr2_eq_none hfound)) ?_
          rw [List.length_drop]
          omega
      | some found =>
          obtain ⟨skipped, ch, rest, hunread, rfl, hch, hskipped⟩ := memchr2_eq_some hfound
          have hpassed := h.skip hunread hskipped
          have hunread' : slice.drop (index + skipped.length) = ch :: rest := by
            rw [← List.drop_drop, hunread, List.drop_left]
          have hget : slice.getD (index + skipped.length) 0 = ch := by
            rw [List.getD_eq_getElem?_getD, ← List.head?_drop, hunread']
            rfl
          dsimp only
          rw [hget]
          generalize (if 0 < skipped.length then [] else lastChars) = remembered at *
          by_cases hrepeat : remembered.getLast? = some ch
          · rw [if_pos hrepeat]
            exact htwo hpassed hunread' hch hrepeat
          · rw [if_neg hrepeat]
            by_cases hlong : (remembered ++ [ch]).length = 4
            · rw [if_pos hlong]
              rw [List.length_append, List.length_singleton] at hlong
              exact hfour hpassed hunread' hch hrepeat (by omega)
            · rw [if_neg hlong]
              rw [List.length_append, List.length_singleton] at hlong
              have hnext := hpassed.remember hunread' hch hrepeat (by omega)
              by_cases hlast : slice.length ≤ index + skipped.length + 1
              · rw [dif_pos hlast]
                exact hend hnext hlast
              · rw [dif_neg hlast]
                exact ih _ (by omega) hnext rfl

/-- The line break before the position is read, when it is repeated there. -/
theorem Passed.pos_of_repeat {slice lastChars : Bytes} {index : Nat} {ch : UInt8}
    (h : Passed slice index lastChars) (hrepeat : lastChars.getLast? = some ch) : 0 < index := by
  have hpos : 0 < lastChars.length := by
    rw [List.length_pos_iff]
    rintro rfl
    cases hrepeat
  exact hpos.trans_le h.length_le

/-- The loop finds the separator that ends first. -/
theorem searchLoop_finds {slice lastChars : Bytes} {index : Nat}
    (h : Passed slice index lastChars) : Finds slice (searchLoop slice index lastChars) := by
  refine searchLoop_rule ?_ ?_ ?_ h
  · intro index lastChars ch rest hpassed hunread hch hrepeat
    have hpos := hpassed.pos_of_repeat hrepeat
    have hposition : index - 1 + 2 = index + 1 := by
      omega
    rw [Finds, hposition]
    exact hpassed.firstEnd hunread hch (Or.inl hrepeat)
  · intro index lastChars ch rest hpassed hunread hch _ hthree
    have hlength := hpassed.length_le
    have hposition : index - 3 + 4 = index + 1 := by
      omega
    rw [Finds, hposition]
    exact hpassed.firstEnd hunread hch (Or.inr hthree)
  · exact fun hpassed hend => hpassed.not_occurs hend

theorem passed_zero (slice : Bytes) : Passed slice 0 [] := by
  refine ⟨Nat.zero_le _, tracks_nil, ?_⟩
  intro e he
  obtain rfl := Nat.le_zero.1 he
  rintro ⟨d, hd, hsuffix⟩
  rw [List.take_zero, List.suffix_nil] at hsuffix
  rcases hd with rfl | rfl | rfl | rfl <;> exact absurd hsuffix (by decide)

/-- The search finds the separator that ends first. -/
theorem searchHeaderBodySeparator_finds (slice : Bytes) :
    Finds slice (searchHeaderBodySeparator slice) := by
  unfold searchHeaderBodySeparator
  split
  · -- no separator is that short
    rename_i hshort
    rintro ⟨d, hd, hinside⟩
    have hlength := hinside.length_le
    rcases hd with rfl | rfl | rfl | rfl <;> simp only [List.length_cons, List.length_nil] at hlength
    all_goals omega
  · exact searchLoop_finds (passed_zero slice)

/-! ## Looking at the new bytes only -/

section Window

variable {buffer new : Bytes} (hno : ¬ Occurs separators buffer)

include hno in
/-- What the search finds in the window is the separator that ends first in the buffer. -/
theorem searchHeaderBodySeparator_window_some {i n : Nat}
    (h : searchHeaderBodySeparator ((buffer ++ new).drop (buffer.length - 3)) = some (i, n)) :
    FirstEnd separators (buffer ++ new) (buffer.length - 3 + i + n) := by
  have hfinds := searchHeaderBodySeparator_finds ((buffer ++ new).drop (buffer.length - 3))
  rw [h] at hfinds
  rw [firstEnd_window_iff length_separator_le hno]
  exact ⟨i + n, hfinds, Nat.add_assoc _ _ _⟩

include hno in
/-- When the search finds nothing in the window, the buffer has no separator. -/
theorem searchHeaderBodySeparator_window_none
    (h : searchHeaderBodySeparator ((buffer ++ new).drop (buffer.length - 3)) = none) :
    ¬ Occurs separators (buffer ++ new) := by
  have hfinds := searchHeaderBodySeparator_finds ((buffer ++ new).drop (buffer.length - 3))
  rw [h] at hfinds
  rw [← occurs_window_iff length_separator_le hno]
  exact hfinds

end Window

/-! ## The response -/

/-- `new`. -/
def new (stream : Reader) : CgiResponse := ⟨stream, [], none⟩

/-- `get_head`. The function reads again and again, so the stream is shorter every time. -/
def getHead (this : CgiResponse) : Bytes × CgiResponse :=
  let tempBuf := (this.stream.read responseBufferCapacity).1
  let stream := (this.stream.read responseBufferCapacity).2
  if _h : tempBuf = [] then ([], { this with stream := stream, responseHeadLength := some 0 })
  else if responseBufferCapacity < this.responseBuf.length + tempBuf.length then
    -- the bytes that were read are neither in the buffer nor in the stream
    ([], { this with stream := stream, responseHeadLength := some 0 })
  else
    let beginSearch := this.responseBuf.length - 3
    let responseBuf := this.responseBuf ++ tempBuf
    match searchHeaderBodySeparator (responseBuf.drop beginSearch) with
    | some (separatorIndex, separatorLen) =>
        let toParseLength := beginSearch + separatorIndex + separatorLen
        (responseBuf.take toParseLength, ⟨stream, responseBuf, some toParseLength⟩)
    | none => getHead { this with stream := stream, responseBuf := responseBuf }
  termination_by this.stream.remaining.length
  decreasing_by
    have hlength := this.stream.length_remaining_read responseBufferCapacity
    have hread : (this.stream.read responseBufferCapacity).1 ≠ [] := _h
    have hpos := List.length_pos_iff.2 hread
    omega

/-- `poll_read` into a buffer of this size. -/
def pollRead (this : CgiResponse) (size : Nat) : Bytes × CgiResponse :=
  let fromStream := ((this.stream.read size).1, { this with stream := (this.stream.read size).2 })
  match this.responseHeadLength with
  | some responseHeadLength =>
      if responseHeadLength < this.responseBuf.length then
        let remainingData := this.responseBuf.drop responseHeadLength
        let toRead := min remainingData.length size
        (remainingData.take toRead,
          { this with responseHeadLength := some (responseHeadLength + toRead) })
      else fromStream
  | none => fromStream

/-- The bytes that `poll_read` has still to give out. -/
def unread (this : CgiResponse) : Bytes :=
  match this.responseHeadLength with
  | some responseHeadLength => this.responseBuf.drop responseHeadLength ++ this.stream.remaining
  | none => this.stream.remaining

theorem unread_some (stream : Reader) (responseBuf : Bytes) (headLength : Nat) :
    unread ⟨stream, responseBuf, some headLength⟩ =
      responseBuf.drop headLength ++ stream.remaining := rfl

/-- A read gives out the first of the bytes. -/
theorem pollRead_append_unread (this : CgiResponse) (size : Nat) :
    (this.pollRead size).1 ++ (this.pollRead size).2.unread = this.unread := by
  obtain ⟨stream, responseBuf, responseHeadLength⟩ := this
  cases responseHeadLength with
  | none => exact stream.read_append_remaining size
  | some headLength =>
      unfold pollRead
      dsimp only
      split
      · rw [unread_some, unread_some, ← List.append_assoc, ← List.drop_drop, List.take_append_drop]
      · rename_i hempty
        have hdrop : responseBuf.drop headLength = [] := by
          rw [List.drop_eq_nil_iff]
          omega
        rw [unread_some, unread_some, hdrop, List.nil_append, List.nil_append,
          stream.read_append_remaining size]

/-- A read into a buffer that is not empty returns nothing only at the end. -/
theorem pollRead_eq_nil_iff (this : CgiResponse) {size : Nat} (hsize : 0 < size) :
    (this.pollRead size).1 = [] ↔ this.unread = [] := by
  obtain ⟨stream, responseBuf, responseHeadLength⟩ := this
  cases responseHeadLength with
  | none => exact stream.read_eq_nil_iff hsize
  | some headLength =>
      unfold pollRead
      dsimp only
      split
      · rename_i hlt
        have hdrop : responseBuf.drop headLength ≠ [] := by
          rw [Ne, List.drop_eq_nil_iff]
          omega
        refine iff_of_false ?_ ?_
        · rw [List.take_eq_nil_iff]
          rintro (hzero | hnil)
          · rw [List.length_drop] at hzero
            omega
          · exact hdrop hnil
        · exact List.append_ne_nil_of_left_ne_nil hdrop _
      · rename_i hempty
        have hdrop : responseBuf.drop headLength = [] := by
          rw [List.drop_eq_nil_iff]
          omega
        rw [unread_some, hdrop, List.nil_append, stream.read_eq_nil_iff hsize]

/-- Reads to the end; the buffer of the read number `i` has room for `sizes i` bytes and one more. -/
def readToEnd (this : CgiResponse) (sizes : Nat → Nat) (i : Nat) : Bytes :=
  let bytes := (this.pollRead (sizes i + 1)).1
  if _h : bytes = [] then [] else bytes ++ readToEnd (this.pollRead (sizes i + 1)).2 sizes (i + 1)
  termination_by this.unread.length
  decreasing_by
    have hlength := congrArg List.length (this.pollRead_append_unread (sizes i + 1))
    have hread : (this.pollRead (sizes i + 1)).1 ≠ [] := _h
    have hpos := List.length_pos_iff.2 hread
    rw [List.length_append] at hlength
    omega

/-- Reading to the end gives out what is left, whatever the sizes of the buffers are. -/
theorem readToEnd_eq (this : CgiResponse) (sizes : Nat → Nat) (i : Nat) :
    this.readToEnd sizes i = this.unread := by
  induction hmeasure : this.unread.length using Nat.strong_induction_on generalizing this i with
  | _ measure ih =>
      rw [readToEnd]
      have happend := this.pollRead_append_unread (sizes i + 1)
      have hnil := this.pollRead_eq_nil_iff (Nat.succ_pos (sizes i))
      split
      · rename_i hend
        exact (hnil.1 hend).symm
      · rename_i hmore
        have hpos := List.length_pos_iff.2 hmore
        have hlength := congrArg List.length happend
        rw [List.length_append] at hlength
        rw [ih _ (by omega) _ _ rfl, happend]

/-! ## What is given out -/

/-- The reads of `get_head` from a stream, up to its end. -/
def reads (stream : Reader) : List Bytes :=
  let bytes := (stream.read responseBufferCapacity).1
  if _h : bytes = [] then [] else bytes :: reads (stream.read responseBufferCapacity).2
  termination_by stream.remaining.length
  decreasing_by
    have hlength := stream.length_remaining_read responseBufferCapacity
    have hread : (stream.read responseBufferCapacity).1 ≠ [] := _h
    have hpos := List.length_pos_iff.2 hread
    omega

/-- Pieces that fit into the buffer are read one by one. -/
theorem reads_eq_pieces (stream : Reader)
    (h : ∀ piece ∈ stream.pieces, piece.length ≤ responseBufferCapacity) :
    reads stream = stream.pieces := by
  obtain ⟨pieces, hnonempty⟩ := stream
  induction pieces with
  | nil =>
      rw [reads]
      exact dif_pos rfl
  | cons piece pieces ih =>
      have hread : Reader.read ⟨piece :: pieces, hnonempty⟩ responseBufferCapacity =
          (piece, ⟨pieces, fun p hp => hnonempty p (List.mem_cons_of_mem _ hp)⟩) :=
        dif_pos (h piece List.mem_cons_self)
      rw [reads, hread]
      dsimp only
      rw [dif_neg (hnonempty piece List.mem_cons_self), ih]
      intro p hp
      exact h p (List.mem_cons_of_mem _ hp)

/-- Behind these bytes, no read overfills the buffer unless a separator came before it. -/
def FitsUntilSeparator (buffer : Bytes) (reads : List Bytes) : Prop :=
  ∀ k < reads.length, ¬ Occurs separators (buffer ++ (reads.take k).flatten) →
    (buffer ++ (reads.take (k + 1)).flatten).length ≤ responseBufferCapacity

/-- The next read, when there is no separator yet. -/
theorem fitsUntilSeparator_cons_iff {buffer : Bytes} (hno : ¬ Occurs separators buffer)
    (bytes : Bytes) (reads : List Bytes) :
    FitsUntilSeparator buffer (bytes :: reads) ↔
      (buffer ++ bytes).length ≤ responseBufferCapacity ∧
        FitsUntilSeparator (buffer ++ bytes) reads := by
  constructor
  · intro h
    refine ⟨by simpa using h 0 (Nat.succ_pos _) (by simpa using hno), ?_⟩
    intro k hk hsep
    have hnext := h (k + 1) (Nat.succ_lt_succ hk)
    simp only [List.take_succ_cons, List.flatten_cons, ← List.append_assoc] at hnext
    exact hnext hsep
  · rintro ⟨hfirst, hrest⟩ k hk hsep
    cases k with
    | zero => simpa using hfirst
    | succ k =>
        simp only [List.take_succ_cons, List.flatten_cons, ← List.append_assoc] at hsep ⊢
        exact hrest k (Nat.lt_of_succ_lt_succ hk) hsep

/-- After a separator, every read fits. -/
theorem fitsUntilSeparator_of_occurs {buffer : Bytes} (h : Occurs separators buffer)
    (reads : List Bytes) : FitsUntilSeparator buffer reads := by
  intro k _ hno
  obtain ⟨d, hd, hinside⟩ := h
  exact absurd ⟨d, hd, hinside.trans (List.prefix_append _ _).isInfix⟩ hno

/-- The head and what is left are the buffer and the stream, exactly when the reads fit. -/
theorem getHead_append_unread_iff (this : CgiResponse)
    (hno : ¬ Occurs separators this.responseBuf) :
    this.getHead.1 ++ this.getHead.2.unread = this.responseBuf ++ this.stream.remaining ↔
      FitsUntilSeparator this.responseBuf (reads this.stream) := by
  induction hmeasure : this.stream.remaining.length using Nat.strong_induction_on
    generalizing this with
  | _ measure ih =>
      have happend := this.stream.read_append_remaining responseBufferCapacity
      have hlength := this.stream.length_remaining_read responseBufferCapacity
      rw [getHead, reads]
      generalize this.stream.read responseBufferCapacity = result at *
      obtain ⟨tempBuf, stream⟩ := result
      dsimp only at *
      by_cases hend : tempBuf = []
      · -- the stream ended: everything is left to be read
        subst hend
        rw [dif_pos rfl, dif_pos rfl, List.nil_append, ← happend]
        refine iff_of_true rfl ?_
        intro k hk
        exact absurd hk (Nat.not_lt_zero k)
      · have hpos := List.length_pos_iff.2 hend
        rw [dif_neg hend, dif_neg hend, fitsUntilSeparator_cons_iff hno]
        by_cases hover : responseBufferCapacity < this.responseBuf.length + tempBuf.length
        · -- the bytes of this read are lost
          rw [if_pos hover]
          refine iff_of_false ?_ ?_
          · intro heq
            have hshort := congrArg List.length heq
            dsimp only at hshort
            rw [List.nil_append, unread_some, List.drop_zero, List.length_append,
              List.length_append] at hshort
            omega
          · rintro ⟨hfits, -⟩
            rw [List.length_append] at hfits
            omega
        · rw [if_neg hover, List.length_append, and_iff_right (Nat.le_of_not_lt hover)]
          cases hsearch : searchHeaderBodySeparator
              ((this.responseBuf ++ tempBuf).drop (this.responseBuf.length - 3)) with
          | some found =>
              obtain ⟨separatorIndex, separatorLen⟩ := found
              have hfirst := searchHeaderBodySeparator_window_some hno hsearch
              refine iff_of_true ?_ (fitsUntilSeparator_of_occurs hfirst.occurs _)
              dsimp only
              rw [unread_some, ← List.append_assoc, List.take_append_drop, List.append_assoc, happend]
          | none =>
              -- the bytes are kept, and the next read goes on behind them
              have hno' := searchHeaderBodySeparator_window_none hno hsearch
              have hnext := ih stream.remaining.length (by omega)
                { this with stream := stream, responseBuf := this.responseBuf ++ tempBuf } hno' rfl
              dsimp only at hnext ⊢
              rw [← hnext, List.append_assoc, happend]

/-- The head, with its separator, and the bytes read afterwards are the stream exactly when no read
overfills the buffer before an earlier one has completed a separator. -/
theorem getHead_append_readToEnd_iff (stream : Reader) (sizes : Nat → Nat) :
    (new stream).getHead.1 ++ (new stream).getHead.2.readToEnd sizes 0 =
        stream.remaining ↔
      FitsUntilSeparator [] (reads stream) := by
  have hno : ¬ Occurs separators (new stream).responseBuf :=
    (passed_zero []).not_occurs (Nat.zero_le _)
  rw [readToEnd_eq]
  exact getHead_append_unread_iff (new stream) hno

/-- A stream that sends as many bytes as the buffer holds, none of them a line break, and then one
more. -/
def longLine : Reader where
  pieces := [List.replicate responseBufferCapacity 65, [66]]
  pieces_nonempty := by
    intro piece hpiece
    rcases List.mem_cons.1 hpiece with rfl | hpiece
    · exact List.ne_nil_of_length_pos (by rw [List.length_replicate]; decide)
    · rcases List.mem_singleton.1 hpiece with rfl
      exact List.cons_ne_nil _ _

/-- The byte behind the full buffer is lost. -/
theorem getHead_drops_read :
    ¬ (new longLine).getHead.1 ++ (new longLine).getHead.2.readToEnd (fun _ => 0) 0 =
      longLine.remaining := by
  have hreads : reads longLine = longLine.pieces := by
    apply reads_eq_pieces
    intro piece hpiece
    rcases List.mem_cons.1 hpiece with rfl | hpiece
    · rw [List.length_replicate]
    · rcases List.mem_singleton.1 hpiece with rfl
      decide
  have hno : ¬ Occurs separators [] := (passed_zero []).not_occurs (Nat.zero_le _)
  have hnoLine : ¬ Occurs separators ([] ++ List.replicate responseBufferCapacity 65) := by
    rw [List.nil_append]
    rintro ⟨d, hd, hinside⟩
    have hbyte : ∀ c ∈ d, c = 65 := fun c hc => List.eq_of_mem_replicate (hinside.subset hc)
    rcases hd with rfl | rfl | rfl | rfl <;>
      exact absurd (hbyte _ List.mem_cons_self) (by decide)
  rw [readToEnd_eq]
  intro heq
  have hfits : FitsUntilSeparator [] [List.replicate responseBufferCapacity 65, [66]] := by
    have h := (getHead_append_unread_iff (new longLine) hno).1 heq
    rw [show (new longLine).stream = longLine from rfl, hreads] at h
    exact h
  obtain ⟨hover, -⟩ := (fitsUntilSeparator_cons_iff hnoLine _ _).1
    ((fitsUntilSeparator_cons_iff hno _ _).1 hfits).2
  rw [List.nil_append, List.length_append, List.length_replicate, List.length_singleton] at hover
  omega

end CgiResponse

end Ferron.Modules
