import Mathlib.Data.List.Basic

/-!
# Text and bytes

A Rust `String` or `&str` is the list of its characters, and a byte string is the list of its
bytes. Every separator the server compares against is one ASCII character, so slicing at byte
offsets next to a separator is slicing between characters.
-/

set_option autoImplicit false

namespace Ferron

/-- The text of a `String` or `&str`. -/
abbrev Str := List Char

instance : LawfulBEq Str := inferInstance

/-- The contents of a `Vec<u8>`, `&[u8]` or `Bytes`. -/
abbrev Bytes := List UInt8

/-- The bytes of an ASCII text. -/
def asciiBytes (s : Str) : Bytes := s.map fun c => UInt8.ofNat c.toNat

end Ferron
