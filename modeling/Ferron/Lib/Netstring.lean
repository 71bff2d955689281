import Ferron.Lib.Framing

/-!
# Netstrings and terminated texts

A netstring tells its length in decimal digits, then a colon, its bytes and a comma. It is read back
whatever comes behind it (`read_encode`). A terminated text is what comes up to the first terminator
(`readTerminated_append`).
-/

set_option autoImplicit false

namespace Ferron.Lib.Netstring

/-! ## Terminated texts -/

section Terminated

variable {α : Type} [DecidableEq α] {stop : α} {text rest input : List α}

/-- Reads up to the first terminator, which is read, too. -/
def readTerminated (stop : α) (input : List α) : Option (List α × List α) :=
  match input.dropWhile (· ≠ stop) with
  | [] => none
  | _ :: rest => some (input.takeWhile (· ≠ stop), rest)

/-- A text without the terminator is read back. -/
theorem readTerminated_append (htext : stop ∉ text) (rest : List α) :
    readTerminated stop (text ++ stop :: rest) = some (text, rest) := by
  have hinside : ∀ a ∈ text, decide (a ≠ stop) = true := by
    intro a ha
    apply decide_eq_true
    rintro rfl
    exact htext ha
  have hdrop : (stop :: rest).dropWhile (fun a => decide (a ≠ stop)) = stop :: rest :=
    List.dropWhile_cons_of_neg (by simp)
  have htake : (stop :: rest).takeWhile (fun a => decide (a ≠ stop)) = [] :=
    List.takeWhile_cons_of_neg (by simp)
  rw [readTerminated, List.dropWhile_append_of_pos hinside, List.takeWhile_append_of_pos hinside, hdrop,
    htake, List.append_nil]

theorem readTerminated_shorter (h : readTerminated stop input = some (text, rest)) :
    rest.length < input.length := by
  rw [readTerminated] at h
  split at h
  · cases h
  · rename_i first rest' hdrop
    have hle := (List.dropWhile_sublist (· ≠ stop) (l := input)).length_le
    rw [hdrop, List.length_cons] at hle
    obtain ⟨-, rfl⟩ := Prod.mk.inj (Option.some.inj h)
    exact hle

end Terminated

/-! ## Netstrings -/

/-- The colon behind the length. -/
def colon : UInt8 := 0x3a

/-- The comma behind the bytes. -/
def comma : UInt8 := 0x2c

/-- The decimal digits of a number. -/
def decimal (n : Nat) : List UInt8 := (Nat.toDigits 10 n).map fun c => UInt8.ofNat c.toNat

/-- The netstring of some bytes. -/
def encode (payload : List UInt8) : List UInt8 :=
  decimal payload.length ++ colon :: (payload ++ [comma])

/-- Reads a length as `decimal` writes it, without additional zeros. -/
def readDecimal (digits : List UInt8) : Option Nat :=
  let text := digits.map fun b => Char.ofNat b.toNat
  let n := Nat.ofDigitChars 10 text 0
  if Nat.toDigits 10 n = text then some n else none

/-- Reads a netstring. -/
def read (input : List UInt8) : Option (List UInt8 × List UInt8) :=
  (readTerminated colon input).bind fun (digits, behind) =>
    (readDecimal digits).bind fun length =>
      if behind[length]? = some comma then some (behind.take length, behind.drop (length + 1)) else none

theorem char_of_digit {c : Char} (h : c.isDigit = true) :
    Char.ofNat (UInt8.ofNat c.toNat).toNat = c ∧ UInt8.ofNat c.toNat ≠ colon := by
  have hle : c.toNat ≤ 57 := by
    rw [Char.isDigit, Bool.and_eq_true, decide_eq_true_eq, decide_eq_true_eq] at h
    exact h.2
  -- a digit is an ASCII character and comes before the colon
  have hbyte : (UInt8.ofNat c.toNat).toNat = c.toNat := by
    rw [UInt8.toNat_ofNat']
    omega
  constructor
  · rw [hbyte, Char.ofNat_toNat]
  · intro hcolon
    rw [hcolon] at hbyte
    have hvalue : colon.toNat = 58 := rfl
    omega

theorem readDecimal_decimal (n : Nat) : readDecimal (decimal n) = some n := by
  have htext : (decimal n).map (fun b => Char.ofNat b.toNat) = Nat.toDigits 10 n := by
    rw [decimal, List.map_map]
    calc (Nat.toDigits 10 n).map ((fun b : UInt8 => Char.ofNat b.toNat) ∘ fun c => UInt8.ofNat c.toNat)
        = (Nat.toDigits 10 n).map id := by
          apply List.map_congr_left
          intro c hc
          exact (char_of_digit (Nat.isDigit_of_mem_toDigits (by decide) (by decide) hc)).1
      _ = Nat.toDigits 10 n := List.map_id _
  rw [readDecimal, htext, Nat.ofDigitChars_ten_toDigits, if_pos rfl]

theorem colon_not_mem_decimal (n : Nat) : colon ∉ decimal n := by
  rw [decimal, List.mem_map]
  rintro ⟨c, hc, hcolon⟩
  exact (char_of_digit (Nat.isDigit_of_mem_toDigits (by decide) (by decide) hc)).2 hcolon

/-- A netstring is read back, whatever comes behind it. -/
theorem read_encode (payload rest : List UInt8) : read (encode payload ++ rest) = some (payload, rest) := by
  have hinput : encode payload ++ rest =
      decimal payload.length ++ colon :: (payload ++ comma :: rest) := by
    rw [encode, List.append_assoc, List.cons_append, List.append_assoc]
    rfl
  -- the length has no colon, so it is read as it was written
  rw [hinput, read, readTerminated_append (colon_not_mem_decimal _), Option.bind_some]
  dsimp only
  rw [readDecimal_decimal,
    Option.bind_some, List.getElem?_append_right le_rfl, Nat.sub_self, List.getElem?_cons_zero,
    if_pos rfl, List.take_left, ← List.drop_drop, List.drop_left]
  rfl

end Ferron.Lib.Netstring
