import Ferron.Util.UrlSanitizer

/-!
# Reading a request path

A request path is read as a list of path bytes: plain bytes and escapes that stay. The combined pass
of the sanitizer spells what is read (`decodePass_eq`), and it keeps UTF-8
(`isUtf8_spell_readPath`).
-/

set_option autoImplicit false

namespace Ferron.Util.UrlSanitizer

/-! ## Path bytes -/

/-- A byte of a path as it is written: plain, or as an escape with its two digits. -/
inductive PathByte where
  | plain (byte : UInt8)
  | escape (hi lo : UInt8)
  deriving DecidableEq

namespace PathByte

/-- The byte that is meant. -/
def value : PathByte → UInt8
  | plain byte => byte
  | escape hi lo => (hexVal hi).getD 0 <<< 4 ||| (hexVal lo).getD 0

/-- The bytes that are written. -/
def spell : PathByte → Bytes
  | plain byte => [byte]
  | escape hi lo => [percent, hi, lo]

/-- A path byte that the combined pass can leave: an escape has two digits and means no safe byte, and
a plain percent sign does not occur. -/
def Kept : PathByte → Prop
  | plain byte => byte ≠ percent
  | escape hi lo => isAsciiHexdigit hi = true ∧ isAsciiHexdigit lo = true ∧
      safeChars (escape hi lo).value = false

/-- A path byte that is read as it is spelled. -/
def Stable : PathByte → Prop
  | plain byte => byte ≠ 0 ∧ byte ≠ percent ∧ needsEncoding byte = false
  | escape hi lo => isAsciiHexdigit hi = true ∧ isAsciiHexdigit lo = true ∧
      (escape hi lo).value ≠ 0xc0 ∧ (escape hi lo).value ≠ 0xc1 ∧ (escape hi lo).value < 0xfe ∧
      (escape hi lo).value ≠ 0 ∧ safeChars (escape hi lo).value = false

theorem Stable.kept {b : PathByte} (h : b.Stable) : b.Kept := by
  cases b with
  | plain byte => exact h.2.1
  | escape hi lo => exact ⟨h.1, h.2.1, h.2.2.2.2.2.2⟩

end PathByte

/-- The bytes of a list of path bytes. -/
def spell (path : List PathByte) : Bytes := path.flatMap PathByte.spell

@[simp] theorem spell_nil : spell [] = [] := rfl

@[simp] theorem spell_cons (b : PathByte) (path : List PathByte) :
    spell (b :: path) = b.spell ++ spell path := rfl

@[simp] theorem spell_append (front back : List PathByte) :
    spell (front ++ back) = spell front ++ spell back := List.flatMap_append

/-- A plain slash. -/
def slashByte : PathByte := .plain slash

/-- A plain dot. -/
def dotByte : PathByte := .plain dot

/-- Reads a request path: nulls are dropped, safe bytes are plain, and the escapes of other bytes
stay. It fails on a malformed escape. -/
def readPath : Bytes → Option (List PathByte)
  | [] => some []
  | byte :: rest =>
      if byte = 0 then readPath rest
      else if byte = percent then
        match rest with
        | hi :: lo :: rest =>
            let value := (PathByte.escape hi lo).value
            if isAsciiHexdigit hi = true ∧ isAsciiHexdigit lo = true ∧ value ≠ 0xc0 ∧ value ≠ 0xc1 ∧
                value < 0xfe then
              (readPath rest).map fun path =>
                if value = 0 then path
                else if safeChars value then .plain value :: path
                else .escape hi lo :: path
            else none
        | _ => none
      else
        (readPath rest).map fun path =>
          if needsEncoding byte then .escape (hexChar (byte >>> 4)) (hexChar (byte &&& 0xf)) :: path
          else .plain byte :: path

theorem hexVal_isSome (c : UInt8) : (hexVal c).isSome = isAsciiHexdigit c := by
  unfold hexVal isAsciiHexdigit
  cases h₁ : (decide (0x30 ≤ c) && decide (c ≤ 0x39)) <;>
    cases h₂ : (decide (0x61 ≤ c) && decide (c ≤ 0x66)) <;>
      cases h₃ : (decide (0x41 ≤ c) && decide (c ≤ 0x46)) <;> simp

theorem hexToByteFast_eq {hi lo : UInt8} (hhi : isAsciiHexdigit hi = true)
    (hlo : isAsciiHexdigit lo = true) :
    hexToByteFast hi lo = .ok (PathByte.escape hi lo).value := by
  rw [← hexVal_isSome] at hhi hlo
  obtain ⟨h, hh⟩ := Option.isSome_iff_exists.1 hhi
  obtain ⟨l, hl⟩ := Option.isSome_iff_exists.1 hlo
  simp [hexToByteFast, PathByte.value, hh, hl]

/-- The combined pass spells what is read. -/
theorem decodePass_eq : ∀ bytes : Bytes,
    decodePass bytes = match readPath bytes with
      | some path => .ok (spell path)
      | none => .error "URI malformed"
  | [] => rfl
  | byte :: rest => by
      rw [decodePass.eq_def, readPath.eq_def]
      dsimp only
      by_cases hnull : byte = 0
      · rw [if_pos hnull, if_pos hnull]
        exact decodePass_eq rest
      rw [if_neg hnull, if_neg hnull]
      by_cases hpercent : byte = percent
      · rw [if_pos hpercent, if_pos hpercent]
        rcases rest with - | ⟨hi, - | ⟨lo, rest⟩⟩
        · rfl
        · rfl
        · dsimp only
          -- the pass rejects bad digits first, and then the bytes that UTF-8 does not have
          by_cases hhex : isAsciiHexdigit hi = true ∧ isAsciiHexdigit lo = true
          · rw [hexToByteFast_eq hhex.1 hhex.2]
            simp only [hhex.1, hhex.2, Bool.not_true, Bool.or_self, Bool.false_eq_true, if_false,
              true_and]
            by_cases hrange : (PathByte.escape hi lo).value ≠ 0xc0 ∧
                (PathByte.escape hi lo).value ≠ 0xc1 ∧ (PathByte.escape hi lo).value < 0xfe
            · have hnot : ¬ ((PathByte.escape hi lo).value = 0xc0 ∨
                  (PathByte.escape hi lo).value = 0xc1 ∨ 0xfe ≤ (PathByte.escape hi lo).value) := by
                rintro (h | h | h)
                · exact hrange.1 h
                · exact hrange.2.1 h
                · exact absurd hrange.2.2 (UInt8.not_lt.2 h)
              rw [if_neg hnot, if_pos hrange, decodePass_eq rest]
              cases readPath rest with
              | none => rfl
              | some path =>
                  simp only [Except.map, Option.map_some]
                  split
                  · rfl
                  · split <;> rfl
            · have hsome : (PathByte.escape hi lo).value = 0xc0 ∨
                  (PathByte.escape hi lo).value = 0xc1 ∨ 0xfe ≤ (PathByte.escape hi lo).value := by
                rw [not_and_or, not_and_or, not_not, not_not, UInt8.not_lt] at hrange
                exact hrange
              rw [if_pos hsome, if_neg hrange]
          · have hbad : (!isAsciiHexdigit hi || !isAsciiHexdigit lo) = true := by
              rw [← Bool.not_and, Bool.not_eq_true', ← Bool.not_eq_true, Bool.and_eq_true]
              exact hhex
            rw [if_pos hbad, if_neg fun h => hhex ⟨h.1, h.2.1⟩]
      · rw [if_neg hpercent, if_neg hpercent, decodePass_eq rest]
        cases readPath rest with
        | none => rfl
        | some path =>
            simp only [Except.map, Option.map_some]
            split <;> rfl

/-- The value of an encoded special character is itself, and it is not safe. -/
theorem kept_hexChar : ∀ b : UInt8, needsEncoding b = true →
    (PathByte.escape (hexChar (b >>> 4)) (hexChar (b &&& 0xf))).Kept := by
  intro b hb
  unfold needsEncoding at hb
  simp only [List.contains_eq_mem, List.mem_cons, List.not_mem_nil, or_false,
    decide_eq_true_eq] at hb
  rcases hb with rfl | rfl | rfl | rfl | rfl | rfl | rfl <;>
    exact ⟨by decide, by decide, by rw [safeChars_eq]; decide⟩

theorem stable_of_safeChars {b : UInt8} (h : safeChars b = true) : (PathByte.plain b).Stable := by
  have hall : (safeBytes.all fun b => b != 0 && b != percent && !needsEncoding b) = true := by decide
  rw [safeChars_eq, List.contains_eq_mem, decide_eq_true_eq] at h
  have hsafe := List.all_eq_true.1 hall b h
  rw [Bool.and_eq_true, Bool.and_eq_true, bne_iff_ne, bne_iff_ne, Bool.not_eq_true'] at hsafe
  exact ⟨hsafe.1.1, hsafe.1.2, hsafe.2⟩

theorem stable_hexChar {b : UInt8} (h : needsEncoding b = true) :
    (PathByte.escape (hexChar (b >>> 4)) (hexChar (b &&& 0xf))).Stable := by
  obtain ⟨hhi, hlo, hunsafe⟩ := kept_hexChar b h
  have hvalue : (PathByte.escape (hexChar (b >>> 4)) (hexChar (b &&& 0xf))).value ≠ 0xc0 ∧
      (PathByte.escape (hexChar (b >>> 4)) (hexChar (b &&& 0xf))).value ≠ 0xc1 ∧
      (PathByte.escape (hexChar (b >>> 4)) (hexChar (b &&& 0xf))).value < 0xfe ∧
      (PathByte.escape (hexChar (b >>> 4)) (hexChar (b &&& 0xf))).value ≠ 0 := by
    unfold needsEncoding at h
    simp only [List.contains_eq_mem, List.mem_cons, List.not_mem_nil, or_false,
      decide_eq_true_eq] at h
    rcases h with rfl | rfl | rfl | rfl | rfl | rfl | rfl <;> decide
  exact ⟨hhi, hlo, hvalue.1, hvalue.2.1, hvalue.2.2.1, hvalue.2.2.2, hunsafe⟩

/-- How a path is read, byte by byte: a null gives nothing, and neither does its escape; the escape of a
safe byte gives this byte and any other one stays; a special character is escaped. -/
inductive Reads : Bytes → List PathByte → Prop where
  | nil : Reads [] []
  | null {bytes : Bytes} {path : List PathByte} (h : Reads bytes path) : Reads (0 :: bytes) path
  | escapedNull {hi lo : UInt8} {bytes : Bytes} {path : List PathByte}
      (hhi : isAsciiHexdigit hi = true) (hlo : isAsciiHexdigit lo = true) (h : Reads bytes path) :
      Reads (percent :: hi :: lo :: bytes) path
  | safe {hi lo : UInt8} {bytes : Bytes} {path : List PathByte} (hhi : isAsciiHexdigit hi = true)
      (hlo : isAsciiHexdigit lo = true) (hsafe : safeChars (PathByte.escape hi lo).value = true)
      (h : Reads bytes path) :
      Reads (percent :: hi :: lo :: bytes) (.plain (PathByte.escape hi lo).value :: path)
  | escape {hi lo : UInt8} {bytes : Bytes} {path : List PathByte}
      (hstable : (PathByte.escape hi lo).Stable) (h : Reads bytes path) :
      Reads (percent :: hi :: lo :: bytes) (.escape hi lo :: path)
  | special {byte : UInt8} {bytes : Bytes} {path : List PathByte} (hspecial : needsEncoding byte = true)
      (h : Reads bytes path) :
      Reads (byte :: bytes) (.escape (hexChar (byte >>> 4)) (hexChar (byte &&& 0xf)) :: path)
  | plain {byte : UInt8} {bytes : Bytes} {path : List PathByte} (hstable : (PathByte.plain byte).Stable)
      (h : Reads bytes path) : Reads (byte :: bytes) (.plain byte :: path)

theorem reads_of_readPath : ∀ {bytes : Bytes} {path : List PathByte}, readPath bytes = some path →
    Reads bytes path
  | [], path, h => by
      rw [readPath, Option.some_inj] at h
      rw [← h]
      exact .nil
  | byte :: rest, path, h => by
      rw [readPath.eq_def] at h
      dsimp only at h
      split at h
      · rename_i hnull
        rw [hnull]
        exact .null (reads_of_readPath h)
      rename_i hnull
      split at h
      · rename_i hpercent
        rw [hpercent]
        split at h
        · rename_i hi lo rest'
          split at h
          · rename_i hok
            obtain ⟨inner, hinner, hpath⟩ := Option.map_eq_some_iff.1 h
            have hreads := reads_of_readPath hinner
            split at hpath
            · rw [← hpath]
              exact .escapedNull hok.1 hok.2.1 hreads
            rename_i hvalue
            split at hpath
            · rename_i hsafe
              rw [← hpath]
              exact .safe hok.1 hok.2.1 hsafe hreads
            · rename_i hunsafe
              rw [← hpath]
              exact .escape ⟨hok.1, hok.2.1, hok.2.2.1, hok.2.2.2.1, hok.2.2.2.2, hvalue,
                Bool.eq_false_iff.2 hunsafe⟩ hreads
          · exact absurd h (by simp)
        · exact absurd h (by simp)
      · rename_i hpercent
        obtain ⟨inner, hinner, hpath⟩ := Option.map_eq_some_iff.1 h
        have hreads := reads_of_readPath hinner
        split at hpath
        · rename_i hspecial
          rw [← hpath]
          exact .special hspecial hreads
        · rename_i hplain
          rw [← hpath]
          exact .plain ⟨hnull, hpercent, Bool.eq_false_iff.2 hplain⟩ hreads

/-- What is read are path bytes that are read so again. -/
theorem stable_of_readPath {bytes : Bytes} {path : List PathByte} (h : readPath bytes = some path) :
    ∀ b ∈ path, b.Stable := by
  replace h := reads_of_readPath h
  induction h with
  | nil => exact List.forall_mem_nil _
  | null _ ih => exact ih
  | escapedNull _ _ _ ih => exact ih
  | safe _ _ hsafe _ ih => exact List.forall_mem_cons.2 ⟨stable_of_safeChars hsafe, ih⟩
  | escape hstable _ ih => exact List.forall_mem_cons.2 ⟨hstable, ih⟩
  | special hspecial _ ih => exact List.forall_mem_cons.2 ⟨stable_hexChar hspecial, ih⟩
  | plain hstable _ ih => exact List.forall_mem_cons.2 ⟨hstable, ih⟩

/-- What is read are path bytes that the pass can leave. -/
theorem kept_of_readPath {bytes : Bytes} {path : List PathByte} (h : readPath bytes = some path) :
    ∀ b ∈ path, b.Kept :=
  fun b hb => (stable_of_readPath h b hb).kept

/-- What was spelled is read again. -/
theorem readPath_spell {path : List PathByte} (hstable : ∀ b ∈ path, b.Stable) :
    readPath (spell path) = some path := by
  induction path with
  | nil => rfl
  | cons b path ih =>
      have hread := ih fun c hc => hstable c (List.mem_cons_of_mem _ hc)
      have hb := hstable b List.mem_cons_self
      cases b with
      | plain byte =>
          obtain ⟨hnull, hpercent, hplain⟩ := hb
          change readPath (byte :: spell path) = _
          rw [readPath.eq_def]
          dsimp only
          rw [if_neg hnull, if_neg hpercent, hread, Option.map_some, hplain,
            if_neg Bool.false_ne_true]
      | escape hi lo =>
          obtain ⟨hhi, hlo, hc0, hc1, hfe, hnull, hunsafe⟩ := hb
          change readPath (percent :: hi :: lo :: spell path) = _
          rw [readPath.eq_def]
          dsimp only
          rw [if_neg (by decide), if_pos rfl, if_pos ⟨hhi, hlo, hc0, hc1, hfe⟩, hread,
            Option.map_some, if_neg hnull, hunsafe, if_neg Bool.false_ne_true]

theorem isAscii_of_isAsciiHexdigit {c : UInt8} (h : isAsciiHexdigit c = true) : IsAscii c := by
  simp only [isAsciiHexdigit, Bool.or_eq_true, Bool.and_eq_true, decide_eq_true_eq,
    UInt8.le_iff_toNat_le] at h
  have hlt : c.toNat < 0x80 := by
    rcases h with (h | h) | h <;> have := h.2 <;> simp at this <;> omega
  exact UInt8.lt_iff_toNat_lt.2 hlt

theorem isAscii_of_safeChars {b : UInt8} (h : safeChars b = true) : IsAscii b := by
  have hall : ∀ b ∈ safeBytes, IsAscii b := forall_isAscii (by decide)
  rw [safeChars_eq, List.contains_eq_mem, decide_eq_true_eq] at h
  exact hall b h

theorem isAscii_of_needsEncoding {b : UInt8} (h : needsEncoding b = true) : IsAscii b := by
  unfold needsEncoding at h
  simp only [List.contains_eq_mem, List.mem_cons, List.not_mem_nil, or_false,
    decide_eq_true_eq] at h
  rcases h with rfl | rfl | rfl | rfl | rfl | rfl | rfl <;> decide

/-- Escapes are spelled in ASCII. -/
theorem isAscii_escape {hi lo : UInt8} (hhi : isAsciiHexdigit hi = true)
    (hlo : isAsciiHexdigit lo = true) : ∀ b ∈ [percent, hi, lo], IsAscii b := by
  intro b hb
  simp only [List.mem_cons, List.not_mem_nil, or_false] at hb
  rcases hb with rfl | rfl | rfl
  · decide
  · exact isAscii_of_isAsciiHexdigit hhi
  · exact isAscii_of_isAsciiHexdigit hlo

/-- Reading and spelling keeps UTF-8: it changes ASCII bytes only. -/
theorem isUtf8_spell_readPath {bytes : Bytes} {path : List PathByte} {front : Bytes}
    (h : readPath bytes = some path) (hutf8 : IsUtf8 (front ++ bytes)) : IsUtf8 (front ++ spell path) := by
  -- an escape is cut off together with what is in front of it
  have hcut : ∀ {front : Bytes} {hi lo : UInt8} {rest : Bytes}, isAsciiHexdigit hi = true →
      isAsciiHexdigit lo = true → IsUtf8 (front ++ percent :: hi :: lo :: rest) →
      IsUtf8 front ∧ IsUtf8 rest := fun hhi hlo hutf8 =>
    (isUtf8_append_ascii_iff (by simp) (isAscii_escape hhi hlo)).1 hutf8
  replace h := reads_of_readPath h
  induction h generalizing front with
  | nil => exact hutf8
  | null _ ih =>
      obtain ⟨hfront, hrest⟩ := hutf8.of_append_cons (by decide)
      exact ih (hfront.append hrest)
  | escapedNull hhi hlo _ ih =>
      obtain ⟨hfront, hrest⟩ := hcut hhi hlo hutf8
      exact ih (hfront.append hrest)
  | @safe hi lo bytes path hhi hlo hsafe _ ih =>
      obtain ⟨hfront, hrest⟩ := hcut hhi hlo hutf8
      have hinner : IsUtf8 ([] ++ spell path) := ih hrest
      have hascii : ∀ b ∈ [(PathByte.escape hi lo).value], IsAscii b := by
        simpa using isAscii_of_safeChars hsafe
      exact (isUtf8_append_ascii_iff (by simp) hascii).2 ⟨hfront, hinner⟩
  | @escape hi lo bytes path hstable _ ih =>
      obtain ⟨hfront, hrest⟩ := hcut hstable.1 hstable.2.1 hutf8
      have hinner : IsUtf8 ([] ++ spell path) := ih hrest
      exact (isUtf8_append_ascii_iff (by simp) (isAscii_escape hstable.1 hstable.2.1)).2
        ⟨hfront, hinner⟩
  | @special byte bytes path hspecial _ ih =>
      have hkept := kept_hexChar byte hspecial
      obtain ⟨hfront, hrest⟩ := hutf8.of_append_cons (isAscii_of_needsEncoding hspecial)
      have hinner : IsUtf8 ([] ++ spell path) := ih hrest
      exact (isUtf8_append_ascii_iff (by simp) (isAscii_escape hkept.1 hkept.2.1)).2
        ⟨hfront, hinner⟩
  | plain _ _ ih =>
      -- the byte may be part of a longer character, which is read with what is in front of it
      rw [spell_cons, ← List.append_assoc]
      apply ih
      rw [PathByte.spell, List.append_assoc]
      exact hutf8

end Ferron.Util.UrlSanitizer
