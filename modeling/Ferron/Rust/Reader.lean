import Ferron.Rust.Text
import Mathlib.Tactic

/-!
# Streams that are read in pieces

A `Reader` is a stream of bytes together with the way in which it arrives: a read takes from the
first piece that is not read yet, as much as the buffer of the caller holds. No piece is empty, so a
read into a buffer that is not empty returns nothing only at the end of the stream.
-/

set_option autoImplicit false

namespace Ferron

/-- A stream of bytes, cut into the pieces in which it arrives. -/
structure Reader where
  pieces : List Bytes
  pieces_nonempty : ∀ piece ∈ pieces, piece ≠ []

namespace Reader

/-- The bytes that are not read yet. -/
def remaining (reader : Reader) : Bytes := reader.pieces.flatten

/-- `read` into a buffer of this size. -/
def read (reader : Reader) (size : Nat) : Bytes × Reader :=
  match reader with
  | ⟨[], h⟩ => ([], ⟨[], h⟩)
  | ⟨piece :: pieces, h⟩ =>
      if hsize : piece.length ≤ size then
        (piece, ⟨pieces, fun p hp => h p (List.mem_cons_of_mem _ hp)⟩)
      else
        (piece.take size, ⟨piece.drop size :: pieces, by
          intro p hp
          rcases List.mem_cons.1 hp with rfl | hp
          · rw [Ne, List.drop_eq_nil_iff]
            exact hsize
          · exact h p (List.mem_cons_of_mem _ hp)⟩)

/-- Reading moves bytes from the front of the stream to the caller. -/
theorem read_append_remaining (reader : Reader) (size : Nat) :
    (reader.read size).1 ++ (reader.read size).2.remaining = reader.remaining := by
  obtain ⟨pieces, h⟩ := reader
  cases pieces with
  | nil => rfl
  | cons piece pieces =>
      unfold read
      dsimp only
      split
      · rfl
      · rw [remaining, remaining, List.flatten_cons, List.flatten_cons, ← List.append_assoc,
          List.take_append_drop]

theorem length_read_le (reader : Reader) (size : Nat) : (reader.read size).1.length ≤ size := by
  obtain ⟨pieces, h⟩ := reader
  cases pieces with
  | nil => exact Nat.zero_le _
  | cons piece pieces =>
      unfold read
      dsimp only
      split
      · assumption
      · rw [List.length_take]
        exact Nat.min_le_left _ _

/-- A read into a buffer that is not empty returns nothing only at the end. -/
theorem read_eq_nil_iff (reader : Reader) {size : Nat} (hsize : 0 < size) :
    (reader.read size).1 = [] ↔ reader.remaining = [] := by
  obtain ⟨pieces, h⟩ := reader
  cases pieces with
  | nil => exact ⟨fun _ => rfl, fun _ => rfl⟩
  | cons piece pieces =>
      have hpiece : piece ≠ [] := h piece List.mem_cons_self
      have hremaining : remaining ⟨piece :: pieces, h⟩ ≠ [] := by
        rw [remaining, List.flatten_cons]
        exact List.append_ne_nil_of_left_ne_nil hpiece _
      have hread : (read ⟨piece :: pieces, h⟩ size).1 ≠ [] := by
        unfold read
        dsimp only
        split
        · exact hpiece
        · rw [Ne, List.take_eq_nil_iff]
          rintro (hzero | hnil)
          · omega
          · exact hpiece hnil
      exact iff_of_false hread hremaining

/-- A read that returns something makes the stream shorter. -/
theorem length_remaining_read (reader : Reader) (size : Nat) :
    (reader.read size).2.remaining.length + (reader.read size).1.length =
      reader.remaining.length := by
  rw [← read_append_remaining reader size, List.length_append, Nat.add_comm]

/-- A read takes from the first piece that is left. -/
theorem read_of_pieces {reader : Reader} {piece : Bytes} {pieces : List Bytes} (size : Nat)
    (h : reader.pieces = piece :: pieces) :
    (reader.read size).1 = piece.take size ∧
      (piece.length ≤ size → (reader.read size).2.pieces = pieces) := by
  obtain ⟨_, hnonempty⟩ := reader
  obtain rfl := h
  rw [read]
  by_cases hsize : piece.length ≤ size
  · rw [dif_pos hsize]
    exact ⟨(List.take_of_length_le hsize).symm, fun _ => rfl⟩
  · rw [dif_neg hsize]
    exact ⟨rfl, fun hle => absurd hle hsize⟩

/-! ## Reading an exact number of bytes -/

/-- `read_exact`: reads until the buffer is full. There is no result when the stream ends before. -/
def readExact (reader : Reader) (size : Nat) : Option (Bytes × Reader) :=
  if size = 0 then some ([], reader)
  else
    if (reader.read size).1 = [] then none
    else
      ((reader.read size).2.readExact (size - (reader.read size).1.length)).map fun rest =>
        ((reader.read size).1 ++ rest.1, rest.2)
termination_by size
decreasing_by
  rename_i hzero hbytes
  have hpos := List.length_pos_iff.2 hbytes
  omega

/-- However the stream is cut, the bytes are the next ones of the stream. -/
theorem readExact_eq_some (reader : Reader) {size : Nat} (hsize : size ≤ reader.remaining.length) :
    ∃ rest, reader.readExact size = some (reader.remaining.take size, rest) ∧
      rest.remaining = reader.remaining.drop size := by
  induction size using Nat.strong_induction_on generalizing reader with
  | _ size ih =>
      rw [readExact]
      by_cases hzero : size = 0
      · rw [if_pos hzero, hzero]
        exact ⟨reader, rfl, rfl⟩
      · have hnonempty : reader.remaining ≠ [] := List.length_pos_iff.1 (by omega)
        have hbytes : (reader.read size).1 ≠ [] := fun hnil =>
          hnonempty ((reader.read_eq_nil_iff (Nat.pos_of_ne_zero hzero)).1 hnil)
        have hpos := List.length_pos_iff.2 hbytes
        have hle := reader.length_read_le size
        have hlength := reader.length_remaining_read size
        obtain ⟨rest, hrest, hremaining⟩ :=
          ih (size - (reader.read size).1.length) (by omega) (reader.read size).2 (by omega)
        have hsplit := reader.read_append_remaining size
        rw [if_neg hzero, if_neg hbytes, hrest]
        refine ⟨rest, ?_, ?_⟩
        · rw [Option.map_some, ← hsplit, List.take_append, List.take_of_length_le hle]
        · rw [hremaining, ← hsplit, List.drop_append, List.drop_of_length_le hle, List.nil_append]

theorem readExact_eq_none (reader : Reader) {size : Nat} (hsize : reader.remaining.length < size) :
    reader.readExact size = none := by
  induction size using Nat.strong_induction_on generalizing reader with
  | _ size ih =>
      rw [readExact, if_neg (by omega)]
      by_cases hbytes : (reader.read size).1 = []
      · rw [if_pos hbytes]
      · have hpos := List.length_pos_iff.2 hbytes
        have hlength := reader.length_remaining_read size
        rw [if_neg hbytes, ih _ (by omega) _ (by omega)]
        rfl

/-- What has been read and what remains are what there was. -/
theorem of_readExact {reader rest : Reader} {size : Nat} {bytes : Bytes}
    (h : reader.readExact size = some (bytes, rest)) :
    bytes.length = size ∧ reader.remaining = bytes ++ rest.remaining := by
  rcases Nat.lt_or_ge reader.remaining.length size with hlt | hle
  · rw [reader.readExact_eq_none hlt] at h
    cases h
  · obtain ⟨rest', hrest, hremaining⟩ := reader.readExact_eq_some hle
    rw [h, Option.some.injEq, Prod.mk.injEq] at hrest
    obtain ⟨rfl, rfl⟩ := hrest
    rw [hremaining, List.take_append_drop, List.length_take]
    exact ⟨Nat.min_eq_left hle, rfl⟩

end Reader

end Ferron
