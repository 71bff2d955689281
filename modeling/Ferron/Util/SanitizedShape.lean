import Ferron.Util.SanitizedTwice

/-!
# What the sanitizer answers

The sanitizer fails exactly on the paths with a malformed escape, and always with the error of the
combined pass: the check for UTF-8 at its end passes for every path. Any other path but the empty one
and `*` becomes one that starts with a slash, with neither dot segments nor, where double slashes are
not allowed, empty segments inside (`sanitizeUrl_spec`).
-/

set_option autoImplicit false

namespace Ferron.Util.UrlSanitizer

open Ferron.Lib.DotSegments

/-! ## Malformed escapes -/

/-- The bytes begin with two hexadecimal digits that mean this value. -/
def BeginsWithHex (rest : Bytes) (value : UInt8) : Prop :=
  ∃ hi lo back, rest = hi :: lo :: back ∧ isAsciiHexdigit hi = true ∧ isAsciiHexdigit lo = true ∧
    hexToByteFast hi lo = .ok value

/-- The bytes that occur nowhere in UTF-8 and that no escape may stand for. -/
def neverEncoded : Bytes := [0xc0, 0xc1, 0xfe, 0xff]

/-- What stands behind a percent sign makes no escape that is allowed: it does not begin with two
digits, or they encode a byte that occurs nowhere in UTF-8. -/
def BadEscape (rest : Bytes) : Prop :=
  (¬ ∃ value, BeginsWithHex rest value) ∨ ∃ value ∈ neverEncoded, BeginsWithHex rest value

/-- Some percent sign of the path is followed by no escape that is allowed. -/
def MalformedEscape (bytes : Bytes) : Prop := ∃ rest, percent :: rest <:+ bytes ∧ BadEscape rest

theorem beginsWithHex_iff {hi lo : UInt8} {back : Bytes} {value : UInt8} :
    BeginsWithHex (hi :: lo :: back) value ↔
      isAsciiHexdigit hi = true ∧ isAsciiHexdigit lo = true ∧ (PathByte.escape hi lo).value = value := by
  constructor
  · rintro ⟨_, _, _, heq, hhi, hlo, hvalue⟩
    cases heq
    rw [hexToByteFast_eq hhi hlo] at hvalue
    exact ⟨hhi, hlo, Except.ok.inj hvalue⟩
  · rintro ⟨hhi, hlo, rfl⟩
    exact ⟨hi, lo, back, rfl, hhi, hlo, hexToByteFast_eq hhi hlo⟩

/-- Two digits make an escape unless they encode a byte that occurs nowhere in UTF-8. -/
theorem badEscape_iff {hi lo : UInt8} {back : Bytes} :
    BadEscape (hi :: lo :: back) ↔
      ¬ (isAsciiHexdigit hi = true ∧ isAsciiHexdigit lo = true ∧
        (PathByte.escape hi lo).value ≠ 0xc0 ∧ (PathByte.escape hi lo).value ≠ 0xc1 ∧
          (PathByte.escape hi lo).value < 0xfe) := by
  have hrange : ∀ value : UInt8, value ∈ neverEncoded ↔ ¬ (value ≠ 0xc0 ∧ value ≠ 0xc1 ∧ value < 0xfe) := by
    intro value
    have hlast : value = 0xfe ∨ value = 0xff ↔ ¬ value < 0xfe := by
      rw [UInt8.not_lt, UInt8.le_iff_toNat_le, ← UInt8.toNat_inj, ← UInt8.toNat_inj]
      have hlt := value.toNat_lt
      simp
      omega
    rw [not_and_or, not_and_or, not_not, not_not, ← hlast]
    simp [neverEncoded]
  rw [BadEscape]
  constructor
  · rintro (hnone | ⟨value, hvalue, hhex⟩) hgood
    · exact hnone ⟨_, beginsWithHex_iff.2 ⟨hgood.1, hgood.2.1, rfl⟩⟩
    · obtain ⟨-, -, rfl⟩ := beginsWithHex_iff.1 hhex
      exact (hrange _).1 hvalue hgood.2.2
  · intro hbad
    by_cases hhex : isAsciiHexdigit hi = true ∧ isAsciiHexdigit lo = true
    · refine .inr ⟨_, (hrange _).2 fun h => hbad ⟨hhex.1, hhex.2, h⟩, ?_⟩
      exact beginsWithHex_iff.2 ⟨hhex.1, hhex.2, rfl⟩
    · left
      rintro ⟨value, hvalue⟩
      obtain ⟨hhi, hlo, -⟩ := beginsWithHex_iff.1 hvalue
      exact hhex ⟨hhi, hlo⟩

theorem badEscape_of_short {rest : Bytes} (h : ∀ hi lo back, rest ≠ hi :: lo :: back) :
    BadEscape rest := by
  left
  rintro ⟨value, hi, lo, back, rfl, -⟩
  exact h hi lo back rfl

theorem not_malformedEscape_nil : ¬ MalformedEscape [] := by
  rintro ⟨rest, hrest, -⟩
  exact List.cons_ne_nil _ _ (List.suffix_nil.1 hrest)

/-- A malformed escape starts at the first byte or stands behind it. -/
theorem malformedEscape_cons {byte : UInt8} {bytes : Bytes} :
    MalformedEscape (byte :: bytes) ↔
      (byte = percent ∧ BadEscape bytes) ∨ MalformedEscape bytes := by
  constructor
  · rintro ⟨rest, hrest, hbad⟩
    rcases List.suffix_cons_iff.1 hrest with heq | hrest
    · obtain ⟨rfl, rfl⟩ := List.cons.inj heq
      exact .inl ⟨rfl, hbad⟩
    · exact .inr ⟨rest, hrest, hbad⟩
  · rintro (⟨rfl, hbad⟩ | ⟨rest, hrest, hbad⟩)
    · exact ⟨bytes, List.suffix_rfl, hbad⟩
    · exact ⟨rest, hrest.trans (List.suffix_cons _ _), hbad⟩

theorem malformedEscape_cons_of_ne {byte : UInt8} {bytes : Bytes} (h : byte ≠ percent) :
    MalformedEscape (byte :: bytes) ↔ MalformedEscape bytes := by
  rw [malformedEscape_cons, or_iff_right fun hbad => h hbad.1]

theorem ne_percent_of_isAsciiHexdigit {c : UInt8} (h : isAsciiHexdigit c = true) : c ≠ percent := by
  rintro rfl
  exact absurd h (by decide)

/-- Reading fails exactly on malformed escapes. -/
theorem readPath_eq_none_iff : ∀ bytes : Bytes, readPath bytes = none ↔ MalformedEscape bytes
  | [] => iff_of_false (Option.some_ne_none _) not_malformedEscape_nil
  | byte :: rest => by
      rw [readPath.eq_def]
      dsimp only
      by_cases hnull : byte = 0
      · subst hnull
        rw [if_pos rfl, malformedEscape_cons_of_ne (by decide)]
        exact readPath_eq_none_iff rest
      rw [if_neg hnull]
      by_cases hpercent : byte = percent
      · rw [if_pos hpercent, malformedEscape_cons]
        rcases rest with - | ⟨hi, - | ⟨lo, rest⟩⟩
        · exact iff_of_true rfl (.inl ⟨hpercent, badEscape_of_short (by intro _ _ _ h; cases h)⟩)
        · exact iff_of_true rfl (.inl ⟨hpercent, badEscape_of_short (by intro _ _ _ h; cases h)⟩)
        dsimp only
        split
        · rename_i hgood
          -- the digits are no percent signs, so the next escape is looked for behind them
          rw [Option.map_eq_none_iff, readPath_eq_none_iff rest,
            malformedEscape_cons_of_ne (ne_percent_of_isAsciiHexdigit hgood.1),
            malformedEscape_cons_of_ne (ne_percent_of_isAsciiHexdigit hgood.2.1),
            or_iff_right fun hbad => badEscape_iff.1 hbad.2 hgood]
        · rename_i hbad
          exact iff_of_true rfl (.inl ⟨hpercent, badEscape_iff.2 hbad⟩)
      · rw [if_neg hpercent, Option.map_eq_none_iff, malformedEscape_cons_of_ne hpercent]
        exact readPath_eq_none_iff rest

/-! ## The segments of the result -/

/-- The segments behind the root of a path: what stands between its slashes, from the first one on. -/
def segmentsOf (bytes : Bytes) : List Bytes := (bytes.splitOnP (· == slash)).tail

/-- A path as the sanitizer leaves it: it starts with a slash, no segment is a dot segment, and where
double slashes are not allowed only the last segment may be empty. -/
structure Sanitized (allowDoubleSlashes : Bool) (bytes : Bytes) : Prop where
  rooted : bytes.head? = some slash
  no_dots : ∀ segment ∈ segmentsOf bytes, segment ≠ [dot] ∧ segment ≠ [dot, dot]
  no_empty : allowDoubleSlashes = false → ∀ segment ∈ (segmentsOf bytes).dropLast, segment ≠ []

theorem not_slash_of_mem_spell {part : List PathByte} (hclean : CleanPart part) :
    ∀ b ∈ spell part, (b == slash) = false := by
  intro b hb
  obtain ⟨c, hc, hb⟩ := List.mem_flatMap.1 hb
  rw [beq_eq_false_iff_ne]
  rintro rfl
  have hstable := hclean.stable c hc
  cases c with
  | plain byte =>
      rw [PathByte.spell, List.mem_singleton] at hb
      have hsep := hclean.not_separator _ hc
      rw [← hb] at hsep
      exact absurd hsep (by decide)
  | escape hi lo =>
      simp only [PathByte.spell, List.mem_cons, List.not_mem_nil, or_false] at hb
      rcases hb with hb | hb | hb
      · exact absurd hb (by decide)
      · exact absurd (hb ▸ hstable.1) (by decide)
      · exact absurd (hb ▸ hstable.2.1) (by decide)

/-- The segments of a path are its parts. -/
theorem segmentsOf_rooted {parts : List (List PathByte)} (hclean : ∀ part ∈ parts, CleanPart part) :
    segmentsOf (spell (rooted parts)) = parts.map spell := by
  have hspell : spell (rooted parts) = [] ++ (parts.map spell).flatMap (slash :: ·) := by
    rw [spell, rooted, List.flatMap_assoc, List.nil_append, List.flatMap_map]
    rfl
  rw [segmentsOf, hspell, @splitOnP_joined _ (· == slash) slash rfl, List.tail_cons]
  intro bytes hbytes b hb
  rcases List.mem_cons.1 hbytes with rfl | hbytes
  · exact absurd hb List.not_mem_nil
  · obtain ⟨part, hpart, rfl⟩ := List.mem_map.1 hbytes
    exact not_slash_of_mem_spell (hclean part hpart) b hb

theorem CleanPart.ne_dots {part : List PathByte} (hclean : CleanPart part) :
    part ≠ [dotByte] ∧ part ≠ [dotByte, dotByte] := by
  constructor <;>
  · rintro rfl
    exact absurd (hclean.name (List.cons_ne_nil _ _)) (by decide)

/-- A path of clean parts is one that the sanitizer may leave. -/
theorem sanitized_rooted {allowDoubleSlashes : Bool} {parts : List (List PathByte)}
    (hparts : parts ≠ []) (hclean : ∀ part ∈ parts, CleanPart part)
    (hempty : allowDoubleSlashes = false → NoEmptyPart parts) :
    Sanitized allowDoubleSlashes (spell (rooted parts)) := by
  constructor
  · obtain ⟨part, parts, rfl⟩ := List.exists_cons_of_ne_nil hparts
    rfl
  · rw [segmentsOf_rooted hclean]
    intro segment hsegment
    obtain ⟨part, hpart, rfl⟩ := List.mem_map.1 hsegment
    rw [Ne, spell_eq_dot_iff, Ne, spell_eq_dot_dot_iff]
    exact (hclean part hpart).ne_dots
  · intro hallow
    rw [segmentsOf_rooted hclean, ← List.map_dropLast]
    intro segment hsegment
    obtain ⟨part, hpart, rfl⟩ := List.mem_map.1 hsegment
    rw [Ne, spell_eq_nil_iff]
    exact hempty hallow part hpart

/-- The parts of the result are clean, and without double slashes only the last one may be empty. -/
theorem sanitized_resultParts (allowDoubleSlashes : Bool) {bytes : Bytes} {path : List PathByte}
    (hread : readPath bytes = some path) :
    Sanitized allowDoubleSlashes (spell (rooted (resultParts
      (allowDoubleSlashes && startsWithTwoSlashes bytes) (endsWithSeparator path)
      (pathNames allowDoubleSlashes path)))) := by
  have hnames : ∀ name ∈ pathNames allowDoubleSlashes path, CleanPart name :=
    fun name hname => cleanPart_of_mem_pathNames (stable_of_readPath hread) hname
  apply sanitized_rooted (resultParts_ne_nil _ _ _) (cleanPart_resultParts hnames)
  rintro rfl
  exact noEmptyPart_resultParts fun hmem => ne_nil_of_mem_pathNames hmem rfl

/-! ## The specification -/

theorem not_malformedEscape_asterisk {bytes : Bytes}
    (h : bytes = asciiBytes "*".toList ∨ bytes = []) : ¬ MalformedEscape bytes := by
  rw [← readPath_eq_none_iff]
  rcases h with rfl | rfl
  · decide
  · exact Option.some_ne_none _

/-- The sanitizer fails if and only if the path has a malformed escape, with the error of the combined
pass in any case, and what it answers is empty, `*` or a sanitized path. -/
theorem sanitizeUrl_spec (resource : Utf8String) (allowDoubleSlashes : Bool) :
    ((∃ err, sanitizeUrl resource allowDoubleSlashes = .error err) ↔ MalformedEscape resource.bytes) ∧
      (∀ err, sanitizeUrl resource allowDoubleSlashes = .error err → err = "URI malformed") ∧
      ∀ sanitized, sanitizeUrl resource allowDoubleSlashes = .ok sanitized →
        sanitized.bytes = [] ∨ sanitized.bytes = asciiBytes "*".toList ∨
          Sanitized allowDoubleSlashes sanitized.bytes := by
  by_cases hresource : resource.bytes = asciiBytes "*".toList ∨ resource.bytes = []
  · have hok : sanitizeUrl resource allowDoubleSlashes = .ok resource := by
      rw [sanitizeUrl, if_pos hresource]
    rw [hok]
    refine ⟨iff_of_false (by intro h; cases h.choose_spec) (not_malformedEscape_asterisk hresource),
      (by intro err h; cases h), ?_⟩
    intro sanitized h
    rw [← Except.ok.inj h]
    rcases hresource with hasterisk | hempty
    · exact .inr (.inl hasterisk)
    · exact .inl hempty
  cases hread : readPath resource.bytes with
  | none =>
      have herror := sanitizeUrl_eq allowDoubleSlashes hresource
      rw [hread] at herror
      dsimp only at herror
      rw [herror]
      exact ⟨iff_of_true ⟨_, rfl⟩ ((readPath_eq_none_iff _).1 hread),
        fun err h => (Except.error.inj h).symm, (by intro sanitized h; cases h)⟩
  | some path =>
      obtain ⟨sanitized, hok, hbytes⟩ := sanitizeUrl_bytes allowDoubleSlashes hresource hread
      rw [hok]
      refine ⟨iff_of_false (by intro h; cases h.choose_spec) ?_, (by intro err h; cases h), ?_⟩
      · rw [← readPath_eq_none_iff, hread]
        exact Option.some_ne_none path
      · intro result h
        rw [← Except.ok.inj h, hbytes]
        exact .inr (.inr (sanitized_resultParts allowDoubleSlashes hread))

end Ferron.Util.UrlSanitizer
