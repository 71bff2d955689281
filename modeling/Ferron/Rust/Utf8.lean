import Ferron.Rust.Text
import Mathlib.Tactic

/-!
# UTF-8

`decodeNext` reads one character off a byte string, or the bytes of an ill-formed sequence: the
longest beginning of a character that is there, or one byte. `fromUtf8` accepts the byte strings
without an ill-formed sequence, and `fromUtf8Lossy` puts a replacement character for each. What is
read as a character is the encoding of it (`decodeNext_some`), and the encoding of a text is read as
this text (`decodeAll_encode`).
-/

set_option autoImplicit false

namespace Ferron.Utf8

/-- A continuation byte. -/
def isCont (b : UInt8) : Bool := 0x80 ≤ b && b ≤ 0xbf

/-- The second bytes that may follow a first byte of a three-byte sequence. -/
def secondOfThree (b₀ b₁ : UInt8) : Bool :=
  if b₀ = 0xe0 then 0xa0 ≤ b₁ && b₁ ≤ 0xbf
  else if b₀ = 0xed then 0x80 ≤ b₁ && b₁ ≤ 0x9f
  else isCont b₁

/-- The second bytes that may follow a first byte of a four-byte sequence. -/
def secondOfFour (b₀ b₁ : UInt8) : Bool :=
  if b₀ = 0xf0 then 0x90 ≤ b₁ && b₁ ≤ 0xbf
  else if b₀ = 0xf4 then 0x80 ≤ b₁ && b₁ ≤ 0x8f
  else isCont b₁

/-- The code point with these payload bits, the first byte's bits first. -/
def codePoint (lead : Nat) (conts : List UInt8) : Char :=
  Char.ofNat (conts.foldl (fun acc b => acc * 64 + b.toNat % 64) lead)

/-- The first character of a byte string with its length, or the length of the ill-formed sequence
there. -/
def decodeNext : Bytes → Option Char × Nat
  | [] => (none, 1)
  | b₀ :: rest =>
      if b₀ < 0x80 then (some (Char.ofNat b₀.toNat), 1)
      else if 0xc2 ≤ b₀ ∧ b₀ ≤ 0xdf then
        match rest with
        | b₁ :: _ => if isCont b₁ then (some (codePoint (b₀.toNat % 32) [b₁]), 2) else (none, 1)
        | _ => (none, 1)
      else if 0xe0 ≤ b₀ ∧ b₀ ≤ 0xef then
        match rest with
        | b₁ :: b₂ :: _ =>
            if secondOfThree b₀ b₁ then
              if isCont b₂ then (some (codePoint (b₀.toNat % 16) [b₁, b₂]), 3) else (none, 2)
            else (none, 1)
        | [b₁] => if secondOfThree b₀ b₁ then (none, 2) else (none, 1)
        | [] => (none, 1)
      else if 0xf0 ≤ b₀ ∧ b₀ ≤ 0xf4 then
        match rest with
        | b₁ :: b₂ :: b₃ :: _ =>
            if secondOfFour b₀ b₁ then
              if isCont b₂ then
                if isCont b₃ then (some (codePoint (b₀.toNat % 8) [b₁, b₂, b₃]), 4) else (none, 3)
              else (none, 2)
            else (none, 1)
        | [b₁, b₂] =>
            if secondOfFour b₀ b₁ then (if isCont b₂ then (none, 3) else (none, 2)) else (none, 1)
        | [b₁] => if secondOfFour b₀ b₁ then (none, 2) else (none, 1)
        | [] => (none, 1)
      else (none, 1)

/-- Every step reads at least one byte. -/
theorem decodeNext_pos (bytes : Bytes) : 0 < (decodeNext bytes).2 := by
  unfold decodeNext
  repeat' split
  all_goals simp

/-- The characters of a byte string, `none` for each ill-formed sequence. -/
def decodeAll (bytes : Bytes) : List (Option Char) :=
  if _h : bytes = [] then []
  else (decodeNext bytes).1 :: decodeAll (bytes.drop (decodeNext bytes).2)
  termination_by bytes.length
  decreasing_by
    have hpos := decodeNext_pos bytes
    have hlength := List.length_pos_iff.2 _h
    rw [List.length_drop]
    omega

/-- `String::from_utf8`, with the error dropped. -/
def fromUtf8 (bytes : Bytes) : Option Str := (decodeAll bytes).mapM id

/-- `String::from_utf8_lossy`. -/
def fromUtf8Lossy (bytes : Bytes) : Str := (decodeAll bytes).map fun c => c.getD (Char.ofNat 0xfffd)

/-! ## Encoding and reading back -/

theorem val_ofNat {n : Nat} (h : n.isValidChar) : (Char.ofNat n).val.toNat = n := by
  rw [Char.ofNat, dif_pos h]
  rfl

/-- A continuation byte as a number. -/
def Cont (b : UInt8) : Prop := 0x80 ≤ b.toNat ∧ b.toNat ≤ 0xbf

theorem isCont_iff (b : UInt8) : isCont b = true ↔ Cont b := by
  simp [isCont, Cont, UInt8.le_iff_toNat_le]

/-- Two bytes are the encoding of their code point. -/
theorem utf8EncodeChar_two {b₀ b₁ : UInt8} (h₀ : 0xc2 ≤ b₀.toNat ∧ b₀.toNat ≤ 0xdf) (h₁ : Cont b₁) :
    String.utf8EncodeChar (codePoint (b₀.toNat % 32) [b₁]) = [b₀, b₁] := by
  obtain ⟨hlow, hhigh⟩ := h₁
  have hvalid : (b₀.toNat % 32 * 64 + b₁.toNat % 64).isValidChar := Or.inl (by omega)
  have hval : (codePoint (b₀.toNat % 32) [b₁]).val.toNat = b₀.toNat % 32 * 64 + b₁.toNat % 64 :=
    val_ofNat hvalid
  unfold String.utf8EncodeChar
  simp only [hval]
  rw [if_neg (by omega), if_pos (by omega)]
  simp only [List.cons.injEq, ← UInt8.toNat_inj, UInt8.toNat_ofNat', and_true]
  omega

/-- Three bytes are the encoding of their code point. -/
theorem utf8EncodeChar_three {b₀ b₁ b₂ : UInt8} (h₀ : 0xe0 ≤ b₀.toNat ∧ b₀.toNat ≤ 0xef)
    (h₁ : Cont b₁) (hlong : b₀.toNat = 0xe0 → 0xa0 ≤ b₁.toNat)
    (hsurrogate : b₀.toNat = 0xed → b₁.toNat ≤ 0x9f) (h₂ : Cont b₂) :
    String.utf8EncodeChar (codePoint (b₀.toNat % 16) [b₁, b₂]) = [b₀, b₁, b₂] := by
  obtain ⟨hlow₁, hhigh₁⟩ := h₁
  obtain ⟨hlow₂, hhigh₂⟩ := h₂
  have hvalid : ((b₀.toNat % 16 * 64 + b₁.toNat % 64) * 64 + b₂.toNat % 64).isValidChar := by
    unfold Nat.isValidChar
    omega
  have hval : (codePoint (b₀.toNat % 16) [b₁, b₂]).val.toNat =
      (b₀.toNat % 16 * 64 + b₁.toNat % 64) * 64 + b₂.toNat % 64 := val_ofNat hvalid
  unfold String.utf8EncodeChar
  simp only [hval]
  rw [if_neg (by omega), if_neg (by omega), if_pos (by omega)]
  simp only [List.cons.injEq, ← UInt8.toNat_inj, UInt8.toNat_ofNat', and_true]
  omega

/-- Four bytes are the encoding of their code point. -/
theorem utf8EncodeChar_four {b₀ b₁ b₂ b₃ : UInt8} (h₀ : 0xf0 ≤ b₀.toNat ∧ b₀.toNat ≤ 0xf4)
    (h₁ : Cont b₁) (hlong : b₀.toNat = 0xf0 → 0x90 ≤ b₁.toNat)
    (hlast : b₀.toNat = 0xf4 → b₁.toNat ≤ 0x8f) (h₂ : Cont b₂) (h₃ : Cont b₃) :
    String.utf8EncodeChar (codePoint (b₀.toNat % 8) [b₁, b₂, b₃]) = [b₀, b₁, b₂, b₃] := by
  obtain ⟨hlow₁, hhigh₁⟩ := h₁
  obtain ⟨hlow₂, hhigh₂⟩ := h₂
  obtain ⟨hlow₃, hhigh₃⟩ := h₃
  have hvalid : (((b₀.toNat % 8 * 64 + b₁.toNat % 64) * 64 + b₂.toNat % 64) * 64 +
      b₃.toNat % 64).isValidChar := by
    unfold Nat.isValidChar
    omega
  have hval : (codePoint (b₀.toNat % 8) [b₁, b₂, b₃]).val.toNat =
      ((b₀.toNat % 8 * 64 + b₁.toNat % 64) * 64 + b₂.toNat % 64) * 64 + b₃.toNat % 64 :=
    val_ofNat hvalid
  unfold String.utf8EncodeChar
  simp only [hval]
  rw [if_neg (by omega), if_neg (by omega), if_neg (by omega)]
  simp only [List.cons.injEq, ← UInt8.toNat_inj, UInt8.toNat_ofNat', and_true]
  omega

theorem secondOfThree_iff {b₀ b₁ : UInt8} : secondOfThree b₀ b₁ = true ↔
    Cont b₁ ∧ (b₀.toNat = 0xe0 → 0xa0 ≤ b₁.toNat) ∧ (b₀.toNat = 0xed → b₁.toNat ≤ 0x9f) := by
  simp only [secondOfThree, Cont, isCont, ← UInt8.toNat_inj, UInt8.le_iff_toNat_le,
    UInt8.reduceToNat]
  split
  · simp
    omega
  · split
    · simp
      omega
    · simp
      omega

theorem secondOfFour_iff {b₀ b₁ : UInt8} : secondOfFour b₀ b₁ = true ↔
    Cont b₁ ∧ (b₀.toNat = 0xf0 → 0x90 ≤ b₁.toNat) ∧ (b₀.toNat = 0xf4 → b₁.toNat ≤ 0x8f) := by
  simp only [secondOfFour, Cont, isCont, ← UInt8.toNat_inj, UInt8.le_iff_toNat_le,
    UInt8.reduceToNat]
  split
  · simp
    omega
  · split
    · simp
      omega
    · simp
      omega

/-- What is read as a character is its encoding. -/
theorem decodeNext_some {bytes : Bytes} {c : Char} (h : (decodeNext bytes).1 = some c) :
    String.utf8EncodeChar c <+: bytes := by
  cases bytes with
  | nil => exact absurd h (by simp [decodeNext])
  | cons b₀ rest =>
      -- the lead byte tells how many bytes there are; a sequence that breaks off gives no character
      unfold decodeNext at h
      dsimp only at h
      split at h
      · next hascii =>
          rw [UInt8.lt_iff_toNat_lt] at hascii
          have hlt : b₀.toNat < 128 := hascii
          have hval : (Char.ofNat b₀.toNat).val.toNat = b₀.toNat := val_ofNat (Or.inl (by omega))
          rw [← Option.some.inj h, String.utf8EncodeChar, hval, if_pos (by omega), UInt8.ofNat_toNat]
          exact ⟨rest, rfl⟩
      · split at h
        · next htwo =>
            rw [UInt8.le_iff_toNat_le, UInt8.le_iff_toNat_le] at htwo
            split at h
            · split at h
              · next b₁ rest h₁ =>
                  rw [← Option.some.inj h, utf8EncodeChar_two htwo ((isCont_iff _).1 h₁)]
                  exact ⟨rest, rfl⟩
              · cases h
            · cases h
        · split at h
          · next hthree =>
              rw [UInt8.le_iff_toNat_le, UInt8.le_iff_toNat_le] at hthree
              split at h
              · split at h
                · split at h
                  · next b₁ b₂ rest h₁ h₂ =>
                      obtain ⟨hcont, hlong, hsurrogate⟩ := secondOfThree_iff.1 h₁
                      rw [← Option.some.inj h, utf8EncodeChar_three hthree hcont hlong hsurrogate
                        ((isCont_iff _).1 h₂)]
                      exact ⟨rest, rfl⟩
                  · cases h
                · cases h
              · split at h
                · cases h
                · cases h
              · cases h
          · split at h
            · next hfour =>
                rw [UInt8.le_iff_toNat_le, UInt8.le_iff_toNat_le] at hfour
                split at h
                · split at h
                  · split at h
                    · split at h
                      · next b₁ b₂ b₃ rest h₁ h₂ h₃ =>
                          obtain ⟨hcont, hlong, hlast⟩ := secondOfFour_iff.1 h₁
                          rw [← Option.some.inj h, utf8EncodeChar_four hfour hcont hlong hlast
                            ((isCont_iff _).1 h₂) ((isCont_iff _).1 h₃)]
                          exact ⟨rest, rfl⟩
                      · cases h
                    · cases h
                  · cases h
                · split at h
                  · split at h
                    · cases h
                    · cases h
                  · cases h
                · split at h
                  · cases h
                  · cases h
                · cases h
            · cases h

/-- The bytes of a code point, as numbers. -/
theorem toNat_ofNat_lt {n : Nat} (h : n < 256) : (UInt8.ofNat n).toNat = n := by
  rw [UInt8.toNat_ofNat']
  omega

theorem decodeNext_one {n : Nat} (h : n < 0x80) (rest : Bytes) :
    decodeNext (UInt8.ofNat n :: rest) = (some (Char.ofNat n), 1) := by
  have h₀ := toNat_ofNat_lt (show n < 256 by omega)
  unfold decodeNext
  dsimp only
  rw [if_pos (UInt8.lt_iff_toNat_lt.2 (by rw [h₀]; exact h)), h₀]

theorem decodeNext_two {n : Nat} (hlow : 0x7f < n) (hhigh : n ≤ 0x7ff) (rest : Bytes) :
    decodeNext (UInt8.ofNat (n / 64 % 32 + 0xc0) :: UInt8.ofNat (n % 64 + 0x80) :: rest) =
      (some (Char.ofNat n), 2) := by
  have h₀ := toNat_ofNat_lt (show n / 64 % 32 + 0xc0 < 256 by omega)
  have h₁ := toNat_ofNat_lt (show n % 64 + 0x80 < 256 by omega)
  have hpoint : codePoint ((UInt8.ofNat (n / 64 % 32 + 0xc0)).toNat % 32)
      [UInt8.ofNat (n % 64 + 0x80)] = Char.ofNat n := by
    unfold codePoint
    rw [List.foldl_cons, List.foldl_nil, h₀, h₁]
    congr 1
    omega
  unfold decodeNext
  simp only [UInt8.lt_iff_toNat_lt, UInt8.le_iff_toNat_le, UInt8.reduceToNat]
  rw [if_neg (by omega), if_pos (by omega), if_pos ((isCont_iff _).2 ⟨by omega, by omega⟩), hpoint]

theorem decodeNext_three {n : Nat} (hlow : 0x7ff < n) (hhigh : n ≤ 0xffff) (hvalid : n.isValidChar)
    (rest : Bytes) :
    decodeNext (UInt8.ofNat (n / 4096 % 16 + 0xe0) :: UInt8.ofNat (n / 64 % 64 + 0x80) ::
      UInt8.ofNat (n % 64 + 0x80) :: rest) = (some (Char.ofNat n), 3) := by
  have h₀ := toNat_ofNat_lt (show n / 4096 % 16 + 0xe0 < 256 by omega)
  have h₁ := toNat_ofNat_lt (show n / 64 % 64 + 0x80 < 256 by omega)
  have h₂ := toNat_ofNat_lt (show n % 64 + 0x80 < 256 by omega)
  have hpoint : codePoint ((UInt8.ofNat (n / 4096 % 16 + 0xe0)).toNat % 16)
      [UInt8.ofNat (n / 64 % 64 + 0x80), UInt8.ofNat (n % 64 + 0x80)] = Char.ofNat n := by
    unfold codePoint
    rw [List.foldl_cons, List.foldl_cons, List.foldl_nil, h₀, h₁, h₂]
    congr 1
    omega
  unfold Nat.isValidChar at hvalid
  unfold decodeNext
  simp only [UInt8.lt_iff_toNat_lt, UInt8.le_iff_toNat_le, UInt8.reduceToNat]
  rw [if_neg (by omega), if_neg (by omega), if_pos (by omega),
    if_pos (secondOfThree_iff.2 ⟨⟨by omega, by omega⟩, by omega, by omega⟩),
    if_pos ((isCont_iff _).2 ⟨by omega, by omega⟩), hpoint]

theorem decodeNext_four {n : Nat} (hlow : 0xffff < n) (hhigh : n < 0x110000) (rest : Bytes) :
    decodeNext (UInt8.ofNat (n / 262144 % 8 + 0xf0) :: UInt8.ofNat (n / 4096 % 64 + 0x80) ::
      UInt8.ofNat (n / 64 % 64 + 0x80) :: UInt8.ofNat (n % 64 + 0x80) :: rest) =
        (some (Char.ofNat n), 4) := by
  have h₀ := toNat_ofNat_lt (show n / 262144 % 8 + 0xf0 < 256 by omega)
  have h₁ := toNat_ofNat_lt (show n / 4096 % 64 + 0x80 < 256 by omega)
  have h₂ := toNat_ofNat_lt (show n / 64 % 64 + 0x80 < 256 by omega)
  have h₃ := toNat_ofNat_lt (show n % 64 + 0x80 < 256 by omega)
  have hpoint : codePoint ((UInt8.ofNat (n / 262144 % 8 + 0xf0)).toNat % 8)
      [UInt8.ofNat (n / 4096 % 64 + 0x80), UInt8.ofNat (n / 64 % 64 + 0x80),
        UInt8.ofNat (n % 64 + 0x80)] = Char.ofNat n := by
    unfold codePoint
    rw [List.foldl_cons, List.foldl_cons, List.foldl_cons, List.foldl_nil, h₀, h₁, h₂, h₃]
    congr 1
    omega
  unfold decodeNext
  simp only [UInt8.lt_iff_toNat_lt, UInt8.le_iff_toNat_le, UInt8.reduceToNat]
  rw [if_neg (by omega), if_neg (by omega), if_neg (by omega), if_pos (by omega),
    if_pos (secondOfFour_iff.2 ⟨⟨by omega, by omega⟩, by omega, by omega⟩),
    if_pos ((isCont_iff _).2 ⟨by omega, by omega⟩), if_pos ((isCont_iff _).2 ⟨by omega, by omega⟩),
    hpoint]

/-- The encoding of a character is read as this character. -/
theorem decodeNext_utf8EncodeChar (c : Char) (rest : Bytes) :
    decodeNext (String.utf8EncodeChar c ++ rest) =
      (some c, (String.utf8EncodeChar c).length) := by
  have hvalid : c.val.toNat.isValidChar := c.valid
  have hchar : Char.ofNat c.val.toNat = c := Char.ofNat_toNat c
  have hlt : c.val.toNat < 0x110000 := by
    unfold Nat.isValidChar at hvalid
    omega
  unfold String.utf8EncodeChar
  dsimp only
  by_cases hone : c.val.toNat ≤ 0x7f
  · rw [if_pos hone]
    exact (decodeNext_one (by omega) rest).trans (by rw [hchar]; rfl)
  · rw [if_neg hone]
    by_cases htwo : c.val.toNat ≤ 0x7ff
    · rw [if_pos htwo]
      exact (decodeNext_two (by omega) htwo rest).trans (by rw [hchar]; rfl)
    · rw [if_neg htwo]
      by_cases hthree : c.val.toNat ≤ 0xffff
      · rw [if_pos hthree]
        exact (decodeNext_three (by omega) hthree hvalid rest).trans (by rw [hchar]; rfl)
      · rw [if_neg hthree]
        exact (decodeNext_four (by omega) hlt rest).trans (by rw [hchar]; rfl)

/-- The encoding of a text is read as this text. -/
theorem decodeAll_encode (text : Str) :
    decodeAll (text.flatMap String.utf8EncodeChar) = text.map some := by
  induction text with
  | nil => rw [List.flatMap_nil, decodeAll, dif_pos rfl, List.map_nil]
  | cons c text ih =>
      have hne : String.utf8EncodeChar c ++ text.flatMap String.utf8EncodeChar ≠ [] := by
        intro h
        have hnil := (List.append_eq_nil_iff.1 h).1
        have hlength := String.length_utf8EncodeChar c
        rw [hnil, List.length_nil] at hlength
        exact absurd hlength.symm (Nat.ne_of_gt (Char.utf8Size_pos c))
      rw [List.flatMap_cons, decodeAll, dif_neg hne, decodeNext_utf8EncodeChar, List.drop_left, ih,
        List.map_cons]

theorem fromUtf8Lossy_encode (text : Str) :
    fromUtf8Lossy (text.flatMap String.utf8EncodeChar) = text := by
  rw [fromUtf8Lossy, decodeAll_encode, List.map_map]
  exact List.map_id' text

/-- ASCII bytes are read one by one. -/
theorem decodeAll_ascii {bytes : Bytes} (h : ∀ b ∈ bytes, b.toNat < 0x80) :
    decodeAll bytes = bytes.map fun b => some (Char.ofNat b.toNat) := by
  induction bytes with
  | nil => rw [decodeAll, dif_pos rfl, List.map_nil]
  | cons b bytes ih =>
      have hread : decodeNext (b :: bytes) = (some (Char.ofNat b.toNat), 1) := by
        have hone := decodeNext_one (h b List.mem_cons_self) bytes
        rwa [UInt8.ofNat_toNat] at hone
      rw [decodeAll, dif_neg (List.cons_ne_nil b bytes), hread, List.drop_one, List.tail_cons,
        List.map_cons]
      rw [ih fun other hother => h other (List.mem_cons_of_mem b hother)]

theorem fromUtf8Lossy_ascii {bytes : Bytes} (h : ∀ b ∈ bytes, b.toNat < 0x80) :
    fromUtf8Lossy bytes = bytes.map fun b => Char.ofNat b.toNat := by
  rw [fromUtf8Lossy, decodeAll_ascii h, List.map_map]
  rfl

/-- What is read as characters stands in the bytes. -/
theorem utf8EncodeChar_subset {bytes : Bytes} {c : Char} (h : some c ∈ decodeAll bytes) :
    String.utf8EncodeChar c ⊆ bytes := by
  induction bytes using decodeAll.induct with
  | case1 =>
      rw [decodeAll, dif_pos rfl] at h
      exact absurd h List.not_mem_nil
  | case2 bytes hne ih =>
      rw [decodeAll, dif_neg hne] at h
      rcases List.mem_cons.1 h with hhead | htail
      · exact (decodeNext_some hhead.symm).subset
      · exact fun b hb => List.mem_of_mem_drop (ih htail hb)

/-- The bytes of a decoded text are those that were there or those of replacement characters. -/
theorem mem_encode_fromUtf8Lossy {bytes : Bytes} {b : UInt8}
    (h : b ∈ (fromUtf8Lossy bytes).flatMap String.utf8EncodeChar) :
    b ∈ bytes ∨ b ∈ String.utf8EncodeChar (Char.ofNat 0xfffd) := by
  obtain ⟨c, hc, hb⟩ := List.mem_flatMap.1 h
  obtain ⟨read, hread, rfl⟩ := List.mem_map.1 hc
  cases read with
  | none => exact Or.inr hb
  | some c => exact Or.inl (utf8EncodeChar_subset hread hb)

/-- A text without a line feed has no line break when it is decoded. -/
theorem fromUtf8Lossy_newline {bytes : Bytes} (h : 10 ∉ bytes) : '\n' ∉ fromUtf8Lossy bytes := by
  intro hmem
  have hfeed : 10 ∈ (fromUtf8Lossy bytes).flatMap String.utf8EncodeChar :=
    List.mem_flatMap.2 ⟨'\n', hmem, by decide⟩
  rcases mem_encode_fromUtf8Lossy hfeed with hold | hreplaced
  · exact h hold
  · exact absurd hreplaced (by decide)

end Ferron.Utf8
