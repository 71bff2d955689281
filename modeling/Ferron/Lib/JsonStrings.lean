import Mathlib.Data.List.Basic
import Mathlib.Tactic

/-!
# Arrays of strings in JSON

What is written for a list of strings is read again (`readArray_writeArray`), and the text does not get
shorter with one more string (`sublist_writeArray`). Control characters are written as they are.
-/

set_option autoImplicit false

namespace Ferron.Lib.JsonStrings

/-! ## Strings -/

/-- A character in a string. -/
def escape (c : Char) : List Char := if c = '"' ∨ c = '\\' then ['\\', c] else [c]

/-- The rest of a string, and what is behind it. -/
def readString : List Char → Option (List Char × List Char)
  | [] => none
  | '"' :: rest => some ([], rest)
  | '\\' :: c :: rest => (readString rest).map fun found => (c :: found.1, found.2)
  | c :: rest => (readString rest).map fun found => (c :: found.1, found.2)

/-- A string is read up to its end. -/
theorem readString_escape (text rest : List Char) :
    readString (text.flatMap escape ++ '"' :: rest) = some (text, rest) := by
  induction text with
  | nil => rfl
  | cons c text ih =>
      rw [List.flatMap_cons, List.append_assoc, escape]
      split
      · rw [List.cons_append, List.cons_append, List.nil_append, readString, ih]
        rfl
      · rename_i hplain
        rw [not_or] at hplain
        rw [List.cons_append, List.nil_append, readString, ih]
        · rfl
        · exact hplain.1
        · exact fun _ _ heq => absurd heq hplain.2

/-! ## Arrays -/

/-- The strings of an array behind the first one. -/
def writeRest : List (List Char) → List Char
  | [] => [']']
  | text :: texts => ',' :: '"' :: (text.flatMap escape ++ '"' :: writeRest texts)

/-- An array. -/
def writeArray : List (List Char) → List Char
  | [] => ['[', ']']
  | text :: texts => '[' :: '"' :: (text.flatMap escape ++ '"' :: writeRest texts)

/-- Reads the strings of an array behind the first one, as many as there may be. -/
def readRest : Nat → List Char → Option (List (List Char))
  | _, [']'] => some []
  | fuel + 1, ',' :: '"' :: rest =>
      (readString rest).bind fun found => (readRest fuel found.2).map (found.1 :: ·)
  | _, _ => none

/-- Reads an array. -/
def readArray : List Char → Option (List (List Char))
  | ['[', ']'] => some []
  | '[' :: '"' :: rest =>
      (readString rest).bind fun found => (readRest found.2.length found.2).map (found.1 :: ·)
  | _ => none

theorem readRest_writeRest {fuel : Nat} {texts : List (List Char)} (h : texts.length ≤ fuel) :
    readRest fuel (writeRest texts) = some texts := by
  induction texts generalizing fuel with
  | nil => cases fuel <;> rfl
  | cons text texts ih =>
      cases fuel with
      | zero => cases h
      | succ fuel =>
          rw [writeRest, readRest, readString_escape, Option.bind_some, ih (Nat.le_of_succ_le_succ h)]
          rfl

theorem length_le_length_writeRest (texts : List (List Char)) : texts.length ≤ (writeRest texts).length := by
  induction texts with
  | nil => exact Nat.zero_le _
  | cons text texts ih =>
      simp only [writeRest, List.length_cons, List.length_append]
      omega

/-- What is written is read again. -/
theorem readArray_writeArray (texts : List (List Char)) : readArray (writeArray texts) = some texts := by
  cases texts with
  | nil => rfl
  | cons text texts =>
      rw [writeArray, readArray, readString_escape, Option.bind_some,
        readRest_writeRest (length_le_length_writeRest texts)]
      rfl

/-- One more string makes the text longer. -/
theorem sublist_writeRest (texts : List (List Char)) (text : List Char) :
    (writeRest texts).Sublist (writeRest (texts ++ [text])) := by
  induction texts with
  | nil =>
      rw [List.nil_append, writeRest, writeRest, writeRest]
      refine List.singleton_sublist.2 ?_
      simp
  | cons first texts ih =>
      rw [List.cons_append, writeRest, writeRest]
      exact ((ih.cons_cons '"').append_left _).cons_cons '"' |>.cons_cons ','

theorem sublist_writeArray (texts : List (List Char)) (text : List Char) :
    (writeArray texts).Sublist (writeArray (texts ++ [text])) := by
  cases texts with
  | nil =>
      rw [List.nil_append, writeArray, writeArray, writeRest]
      refine List.Sublist.cons_cons '[' (List.singleton_sublist.2 ?_)
      simp
  | cons first texts =>
      rw [List.cons_append, writeArray, writeArray]
      exact (((sublist_writeRest texts text).cons_cons '"').append_left _).cons_cons '"' |>.cons_cons '['

end Ferron.Lib.JsonStrings
