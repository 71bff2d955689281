import Mathlib.Data.List.Basic
import Mathlib.Tactic

/-!
# Items in a stream

An `ItemReader` takes one item off the front of an input. `readAll` takes items until nothing is left,
and gives back what was written, item by item (`readAll_flatMap`).

`chunksFrom` cuts an input into chunks of a given size, as a loop with an offset does.
-/

set_option autoImplicit false

namespace Ferron.Lib.Framing

/-! ## Reading items -/

/-- A reader of items in `ι` from inputs of elements in `β`. An item takes something from the input. -/
structure ItemReader (β ι : Type) where
  read : List β → Option (ι × List β)
  shorter : ∀ {input : List β} {item : ι} {rest : List β},
    read input = some (item, rest) → rest.length < input.length

namespace ItemReader

variable {β ι : Type} (reader : ItemReader β ι)

/-- Reads items until nothing is left. -/
def readAll (input : List β) : Option (List ι) :=
  if input = [] then some []
  else
    match _h : reader.read input with
    | none => none
    | some (item, rest) => (readAll rest).map (item :: ·)
  termination_by input.length
  decreasing_by exact reader.shorter _h

theorem readAll_nil : reader.readAll [] = some [] := by
  rw [readAll, if_pos rfl]

variable {reader}

theorem readAll_of_read {input rest : List β} {item : ι}
    (h : reader.read input = some (item, rest)) :
    reader.readAll input = (reader.readAll rest).map (item :: ·) := by
  have hne : input ≠ [] := by
    rintro rfl
    exact absurd (reader.shorter h) (Nat.not_lt_zero _)
  rw [readAll, if_neg hne]
  split
  · rename_i hnone
    rw [h] at hnone
    cases hnone
  · rename_i item' rest' hsome
    rw [h, Option.some.injEq, Prod.mk.injEq] at hsome
    rw [hsome.1, hsome.2]

/-- Nothing is read when the first item is not. -/
theorem readAll_of_read_eq_none {input : List β} (hne : input ≠ []) (h : reader.read input = none) :
    reader.readAll input = none := by
  rw [readAll, if_neg hne]
  split
  · rfl
  · rename_i item rest hsome
    rw [h] at hsome
    cases hsome

/-- Items that are read back one by one, whatever comes behind, are read back all together. -/
theorem readAll_flatMap {encode : ι → List β} {items : List ι}
    (h : ∀ item ∈ items, ∀ rest, reader.read (encode item ++ rest) = some (item, rest)) :
    reader.readAll (items.flatMap encode) = some items := by
  induction items with
  | nil => exact reader.readAll_nil
  | cons item items ih =>
      obtain ⟨hitem, hitems⟩ := List.forall_mem_cons.1 h
      rw [List.flatMap_cons, readAll_of_read (hitem _), ih hitems]
      rfl

end ItemReader

/-! ## Cutting into chunks -/

variable {α : Type}

/-- The chunks behind an offset: while there is something left, as much of it as the size allows. -/
def chunksFrom (size : Nat) (s : List α) (offset : Nat) : List (List α) :=
  if _h : 0 < size ∧ offset < s.length then
    let chunkSize := min size (s.length - offset)
    (s.drop offset).take chunkSize :: chunksFrom size s (offset + chunkSize)
  else []
  termination_by s.length - offset
  decreasing_by omega

section Chunks

variable {size : Nat} (hsize : 0 < size)

include hsize

/-- Nothing is lost. -/
theorem flatten_chunksFrom (s : List α) (offset : Nat) :
    (chunksFrom size s offset).flatten = s.drop offset := by
  induction hmeasure : s.length - offset using Nat.strong_induction_on generalizing offset with
  | _ measure ih =>
      rw [chunksFrom]
      by_cases hmore : offset < s.length
      · rw [dif_pos ⟨hsize, hmore⟩]
        dsimp only
        rw [List.flatten_cons, ih _ (by omega) _ rfl, ← List.drop_drop, List.take_append_drop]
      · rw [dif_neg (fun h => hmore h.2), List.drop_eq_nil_of_le (Nat.le_of_not_lt hmore)]
        rfl

omit hsize in
/-- No chunk is empty or too long. -/
theorem length_of_mem_chunksFrom {s chunk : List α} {offset : Nat}
    (h : chunk ∈ chunksFrom size s offset) : chunk ≠ [] ∧ chunk.length ≤ size := by
  induction hmeasure : s.length - offset using Nat.strong_induction_on generalizing offset with
  | _ measure ih =>
      rw [chunksFrom] at h
      by_cases hmore : 0 < size ∧ offset < s.length
      · rw [dif_pos hmore] at h
        rcases List.mem_cons.1 h with rfl | hlater
        · rw [← List.length_pos_iff, List.length_take, List.length_drop]
          omega
        · exact ih _ (by omega) hlater rfl
      · rw [dif_neg hmore] at h
        cases h

/-- The first chunk is as long as may be. -/
theorem chunksFrom_eq_cons {s : List α} {offset : Nat} (hlong : size ≤ s.length - offset) :
    ∃ chunks, chunksFrom size s offset = (s.drop offset).take size :: chunks := by
  rw [chunksFrom, dif_pos ⟨hsize, by omega⟩]
  dsimp only
  rw [Nat.min_eq_left hlong]
  exact ⟨_, rfl⟩

end Chunks

end Ferron.Lib.Framing
