import Ferron.Rust.Text
import Mathlib.Data.List.Basic
import Mathlib.Tactic

/-!
# Strings as their bytes

Where the server works on `as_bytes`, a `String` is its bytes with the invariant that they are UTF-8.
An ASCII byte stands for itself and is no part of another character, so UTF-8 can be cut and put
together at ASCII bytes (`isUtf8_append_ascii_iff`).
-/

set_option autoImplicit false

namespace Ferron

/-- The bytes are the encoding of some characters. -/
def IsUtf8 (bytes : Bytes) : Prop := ∃ chars : Str, chars.flatMap String.utf8EncodeChar = bytes

theorem isUtf8_iff_isValidUTF8 (bytes : Bytes) :
    IsUtf8 bytes ↔ bytes.toByteArray.IsValidUTF8 := by
  constructor
  · rintro ⟨chars, rfl⟩
    exact ⟨chars, rfl⟩
  · rintro ⟨chars, h⟩
    exact ⟨chars, (List.toByteArray_inj.1 h).symm⟩

instance (bytes : Bytes) : Decidable (IsUtf8 bytes) :=
  decidable_of_iff' _ (isUtf8_iff_isValidUTF8 bytes)

/-- A byte that is a character of its own. -/
def IsAscii (b : UInt8) : Prop := b < 0x80

instance (b : UInt8) : Decidable (IsAscii b) := inferInstanceAs (Decidable (b < 0x80))

/-- ASCII bytes, to be checked one by one. -/
theorem forall_isAscii {bytes : Bytes} (h : (bytes.all fun b => decide (IsAscii b)) = true) :
    ∀ b ∈ bytes, IsAscii b := by
  simpa using h

/-- A character is one ASCII byte or has no ASCII byte. -/
theorem utf8EncodeChar_ascii_or (c : Char) :
    (∃ b, IsAscii b ∧ String.utf8EncodeChar c = [b]) ∨
      ∀ b ∈ String.utf8EncodeChar c, ¬ IsAscii b := by
  have hval : c.toNat = c.val.toNat := rfl
  unfold String.utf8EncodeChar IsAscii
  simp only [UInt8.lt_iff_toNat_lt]
  split
  · left
    refine ⟨_, ?_, rfl⟩
    simp
    omega
  · right
    split
    · simp
      omega
    · split
      · simp
        omega
      · simp
        omega

theorem isUtf8_nil : IsUtf8 [] := ⟨[], rfl⟩

theorem IsUtf8.append {xs ys : Bytes} (hxs : IsUtf8 xs) (hys : IsUtf8 ys) : IsUtf8 (xs ++ ys) := by
  obtain ⟨front, rfl⟩ := hxs
  obtain ⟨back, rfl⟩ := hys
  exact ⟨front ++ back, List.flatMap_append⟩

/-- An ASCII byte is the encoding of its character. -/
theorem utf8EncodeChar_ofUInt8 {b : UInt8} (hb : IsAscii b) :
    String.utf8EncodeChar (Char.ofUInt8 b) = [b] := by
  have hlt : b.toNat < 128 := UInt8.lt_iff_toNat_lt.1 hb
  have hval : (Char.ofUInt8 b).val.toNat = b.toNat := by
    change b.toUInt32.toNat = b.toNat
    simp
  unfold String.utf8EncodeChar
  simp only [hval]
  rw [if_pos (by omega)]
  simp

theorem isUtf8_ascii {xs : Bytes} (h : ∀ b ∈ xs, IsAscii b) : IsUtf8 xs := by
  induction xs with
  | nil => exact isUtf8_nil
  | cons b xs ih =>
      have hb : IsUtf8 [b] := ⟨[Char.ofUInt8 b], by
        rw [List.flatMap_cons, utf8EncodeChar_ofUInt8 (h b List.mem_cons_self)]
        rfl⟩
      exact hb.append (ih fun c hc => h c (List.mem_cons_of_mem _ hc))

/-- UTF-8 can be cut at an ASCII byte. -/
theorem IsUtf8.of_append_cons {xs ys : Bytes} {a : UInt8} (ha : IsAscii a)
    (h : IsUtf8 (xs ++ a :: ys)) : IsUtf8 xs ∧ IsUtf8 ys := by
  obtain ⟨chars, h⟩ := h
  induction chars generalizing xs with
  | nil => simp at h
  | cons c chars ih =>
      have hc : IsUtf8 (String.utf8EncodeChar c) := ⟨[c], by simp⟩
      rw [List.flatMap_cons] at h
      rcases List.append_eq_append_iff.1 h with ⟨middle, rfl, hrest⟩ | ⟨middle, hchar, hrest⟩
      · obtain ⟨hmiddle, hys⟩ := ih hrest
        exact ⟨hc.append hmiddle, hys⟩
      · rcases middle with - | ⟨b, middle⟩
        · obtain ⟨-, hys⟩ := @ih [] hrest.symm
          rw [List.append_nil] at hchar
          exact ⟨hchar ▸ hc, hys⟩
        · -- the ASCII byte is in the encoding of this character, so it is all of it
          obtain ⟨rfl, hys⟩ := List.cons.inj hrest
          rcases utf8EncodeChar_ascii_or c with ⟨b, -, hb⟩ | hnone
          · rw [hb] at hchar
            obtain ⟨rfl, -, rfl⟩ : xs = [] ∧ b = a ∧ middle = [] := by
              rcases xs with - | ⟨x, xs⟩
              · simpa using hchar
              · simp at hchar
            exact ⟨isUtf8_nil, chars, hys.symm⟩
          · exact absurd ha (hnone a (by rw [hchar]; simp))

/-- UTF-8 around ASCII bytes is UTF-8 before and behind them. -/
theorem isUtf8_append_ascii_iff {xs ascii ys : Bytes} (hne : ascii ≠ [])
    (hascii : ∀ b ∈ ascii, IsAscii b) :
    IsUtf8 (xs ++ (ascii ++ ys)) ↔ IsUtf8 xs ∧ IsUtf8 ys := by
  constructor
  · intro h
    induction ascii generalizing xs with
    | nil => exact absurd rfl hne
    | cons a ascii ih =>
        obtain ⟨hxs, hrest⟩ := IsUtf8.of_append_cons (hascii a List.mem_cons_self) h
        rcases ascii with - | ⟨b, ascii⟩
        · exact ⟨hxs, hrest⟩
        · have hys := @ih [] (by simp) (fun c hc => hascii c (List.mem_cons_of_mem _ hc)) hrest
          exact ⟨hxs, hys.2⟩
  · rintro ⟨hxs, hys⟩
    exact hxs.append ((isUtf8_ascii hascii).append hys)

/-- A `String` or `&str` as its bytes. -/
structure Utf8String where
  bytes : Bytes
  isUtf8 : IsUtf8 bytes

namespace Utf8String

/-- `String::from_utf8`, with the error dropped. -/
def fromUtf8 (bytes : Bytes) : Option Utf8String :=
  if h : IsUtf8 bytes then some ⟨bytes, h⟩ else none

/-- A text. -/
def ofStr (s : Str) : Utf8String := ⟨s.flatMap String.utf8EncodeChar, s, rfl⟩

end Utf8String

end Ferron
