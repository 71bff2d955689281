import Ferron.Util.SanitizedPath

/-!
# Path traversal through the static file module

The static file module takes the leading slashes off the sanitized path, decodes its escapes and joins
the rest to the web root. The sanitizer takes a backslash for a separator, but it leaves the escape
`%5C` as it is, so a backslash comes up only after the dot segments have been resolved.

`sanitizeUrl_safe_iff` says when the decoded path cannot climb out of the web root.
-/

set_option autoImplicit false

namespace Ferron.Modules.StaticTraversal

open Ferron.Util.UrlSanitizer Ferron.Lib.DotSegments

/-! ## The static file module -/

/-- The relative path: without the first byte, which is a slash, and the slashes behind it. -/
def stripSlashes (requestPath : Bytes) : Bytes := requestPath.dropWhile (· == slash)

/-- A slash is ASCII, so leading slashes can be cut off UTF-8. -/
theorem isUtf8_stripSlashes {bytes : Bytes} (h : IsUtf8 bytes) : IsUtf8 (stripSlashes bytes) := by
  induction bytes with
  | nil => exact h
  | cons b bytes ih =>
      rw [stripSlashes, List.dropWhile_cons]
      split
      · rename_i hb
        have hcut : IsUtf8 ([] ++ b :: bytes) := h
        exact ih (hcut.of_append_cons (by rw [beq_iff_eq.1 hb]; decide)).2
      · exact h

/-- The path that is decoded. -/
def strippedPath (requestPath : Utf8String) : Utf8String :=
  ⟨stripSlashes requestPath.bytes, isUtf8_stripSlashes requestPath.isUtf8⟩

/-- Percent-decoding: an escape with two digits is its value, other bytes are themselves. -/
def percentDecode : Bytes → Bytes
  | byte :: hi :: lo :: rest =>
      if byte = percent ∧ isAsciiHexdigit hi = true ∧ isAsciiHexdigit lo = true then
        (PathByte.escape hi lo).value :: percentDecode rest
      else byte :: percentDecode (hi :: lo :: rest)
  | byte :: rest => byte :: percentDecode rest
  | [] => []

/-- Every percent sign starts an escape. -/
def wellEscaped : Bytes → Bool
  | byte :: hi :: lo :: rest =>
      if byte = percent then isAsciiHexdigit hi && isAsciiHexdigit lo && wellEscaped rest
      else wellEscaped (hi :: lo :: rest)
  | byte :: rest => byte != percent && wellEscaped rest
  | [] => true

/-- `urlencoding::decode` decodes the escapes of a well-escaped text, and fails when the result is no
UTF-8. -/
def DecodesEscapes (decode : Utf8String → Option Utf8String) : Prop :=
  ∀ text : Utf8String, wellEscaped text.bytes = true →
    decode text = Utf8String.fromUtf8 (percentDecode text.bytes)

/-- What is joined to the web root for a request path stays inside: no component is `..`, and it does
not start at a root. -/
def StaysInside (decode : Utf8String → Option Utf8String) (resource : Utf8String)
    (allowDoubleSlashes : Bool) : Prop :=
  ∀ sanitized, sanitizeUrl resource allowDoubleSlashes = .ok sanitized →
    ∀ decoded, decode (strippedPath sanitized) = some decoded →
      [dot, dot] ∉ decoded.bytes.splitOnP SegmentState.isSeparator ∧
        ∀ b, decoded.bytes.head? = some b → SegmentState.isSeparator b = false

/-! ## Decoding what the sanitizer leaves -/

theorem percentDecode_cons {b : UInt8} (hb : b ≠ percent) (bytes : Bytes) :
    percentDecode (b :: bytes) = b :: percentDecode bytes := by
  rcases bytes with - | ⟨hi, - | ⟨lo, rest⟩⟩
  · rfl
  · rfl
  · rw [percentDecode, if_neg fun h => hb h.1]

theorem wellEscaped_cons {b : UInt8} (hb : b ≠ percent) (bytes : Bytes) :
    wellEscaped (b :: bytes) = wellEscaped bytes := by
  rcases bytes with - | ⟨hi, - | ⟨lo, rest⟩⟩
  · simp [wellEscaped, hb]
  · simp [wellEscaped, hb]
  · rw [wellEscaped, if_neg hb]

/-- Decoding the spelling gives the values. -/
theorem percentDecode_spell {path : List PathByte} (hkept : ∀ b ∈ path, b.Kept) :
    percentDecode (spell path) = path.map PathByte.value := by
  induction path with
  | nil => rfl
  | cons b path ih =>
      have ih := ih fun c hc => hkept c (List.mem_cons_of_mem _ hc)
      have hb := hkept b List.mem_cons_self
      cases b with
      | plain c =>
          change percentDecode (c :: spell path) = c :: _
          rw [percentDecode_cons hb, ih]
      | escape hi lo =>
          change percentDecode (percent :: hi :: lo :: spell path) = _
          rw [percentDecode, if_pos ⟨rfl, hb.1, hb.2.1⟩, ih]
          rfl

theorem wellEscaped_spell {path : List PathByte} (hkept : ∀ b ∈ path, b.Kept) :
    wellEscaped (spell path) = true := by
  induction path with
  | nil => rfl
  | cons b path ih =>
      have ih := ih fun c hc => hkept c (List.mem_cons_of_mem _ hc)
      have hb := hkept b List.mem_cons_self
      cases b with
      | plain c =>
          change wellEscaped (c :: spell path) = true
          rw [wellEscaped_cons hb, ih]
      | escape hi lo =>
          change wellEscaped (percent :: hi :: lo :: spell path) = true
          rw [wellEscaped, if_pos rfl, hb.1, hb.2.1, ih]
          rfl

theorem stripSlashes_spell (path : List PathByte) :
    stripSlashes (spell path) = spell (path.dropWhile (· == slashByte)) := by
  induction path with
  | nil => rfl
  | cons b path ih =>
      cases b with
      | plain c =>
          by_cases hc : c = slash
          · subst hc
            exact ih
          · have hplain : (PathByte.plain c == slashByte) = false := by simp [slashByte, hc]
            have hbyte : (c == slash) = false := by simp [hc]
            change stripSlashes (c :: spell path) = _
            rw [stripSlashes, List.dropWhile_cons, hbyte, List.dropWhile_cons, hplain]
            rfl
      | escape hi lo => rfl

/-! ## Components of the decoded path -/

/-- The decoded path has a component `..`. -/
def Climbs (path : List PathByte) : Prop :=
  [dot, dot] ∈ (path.map PathByte.value).splitOnP SegmentState.isSeparator

/-- The decoded path is UTF-8. -/
def Decodes (path : List PathByte) : Prop := IsUtf8 (path.map PathByte.value)

/-- The list is empty or starts with a slash. -/
def Rooted (path : List PathByte) : Prop := path = [] ∨ ∃ rest, path = slashByte :: rest

theorem climbs_slash_cons (path : List PathByte) : Climbs (slashByte :: path) ↔ Climbs path := by
  have hslash : SegmentState.isSeparator slashByte.value = true := by decide
  unfold Climbs
  rw [List.map_cons, List.splitOnP_cons_eq_if_modifyHead, if_pos hslash, List.mem_cons]
  simp

theorem climbs_append {name path : List PathByte} (hpath : Rooted path) :
    Climbs (name ++ path) ↔ Climbs name ∨ Climbs path := by
  rcases hpath with rfl | ⟨rest, rfl⟩
  · rw [List.append_nil]
    simp [Climbs]
  · have hslash : SegmentState.isSeparator slashByte.value = true := by decide
    rw [climbs_slash_cons]
    unfold Climbs
    rw [List.map_append, List.map_cons, List.splitOnP_append_cons _ _ hslash, List.mem_append]

theorem decodes_slash_cons (path : List PathByte) : Decodes (slashByte :: path) ↔ Decodes path := by
  have h : IsUtf8 ([] ++ ([slash] ++ path.map PathByte.value)) ↔
      IsUtf8 [] ∧ IsUtf8 (path.map PathByte.value) :=
    isUtf8_append_ascii_iff (by simp) (forall_isAscii (by decide))
  exact h.trans (and_iff_right isUtf8_nil)

theorem decodes_append {name path : List PathByte} (hpath : Rooted path) :
    Decodes (name ++ path) ↔ Decodes name ∧ Decodes path := by
  rcases hpath with rfl | ⟨rest, rfl⟩
  · simp [Decodes, isUtf8_nil]
  · rw [decodes_slash_cons]
    have h : IsUtf8 (name.map PathByte.value ++ ([slash] ++ rest.map PathByte.value)) ↔
        IsUtf8 (name.map PathByte.value) ∧ IsUtf8 (rest.map PathByte.value) :=
      isUtf8_append_ascii_iff (by simp) (forall_isAscii (by decide))
    rw [Decodes, List.map_append]
    exact h

theorem rooted_names (names : List (List PathByte)) (m : Nat) :
    Rooted (names.flatMap (slashByte :: ·) ++ slashes m) := by
  rcases names with - | ⟨name, names⟩
  · rcases m with - | m
    · exact Or.inl rfl
    · exact Or.inr ⟨slashes m, rfl⟩
  · exact Or.inr ⟨name ++ (names.flatMap (slashByte :: ·) ++ slashes m), by simp⟩

/-- Slashes do not matter for what depends on the path behind a slash alone. -/
theorem iff_slashes_append {p : List PathByte → Prop}
    (hslash : ∀ path, p (slashByte :: path) ↔ p path) (n : Nat) (path : List PathByte) :
    p (slashes n ++ path) ↔ p path := by
  induction n with
  | zero => rfl
  | succ n ih => exact (hslash _).trans ih

theorem iff_dropWhile_slash {p : List PathByte → Prop}
    (hslash : ∀ path, p (slashByte :: path) ↔ p path) (path : List PathByte) :
    p (path.dropWhile (· == slashByte)) ↔ p path := by
  induction path with
  | nil => rfl
  | cons b path ih =>
      rw [List.dropWhile_cons]
      split
      · rename_i hb
        rw [beq_iff_eq.1 hb, hslash]
        exact ih
      · rfl

/-- A path climbs when one of its names does. -/
theorem climbs_names_iff (names : List (List PathByte)) (m : Nat) :
    Climbs (names.flatMap (slashByte :: ·) ++ slashes m) ↔ ∃ name ∈ names, Climbs name := by
  induction names with
  | nil =>
      rw [List.flatMap_nil, List.nil_append, ← List.append_nil (slashes m),
        iff_slashes_append climbs_slash_cons]
      simp [Climbs]
  | cons name names ih =>
      rw [List.flatMap_cons, List.cons_append, List.cons_append, climbs_slash_cons,
        List.append_assoc, climbs_append (rooted_names names m), ih]
      simp

/-- A path decodes when all of its names do. -/
theorem decodes_names_iff (names : List (List PathByte)) (m : Nat) :
    Decodes (names.flatMap (slashByte :: ·) ++ slashes m) ↔ ∀ name ∈ names, Decodes name := by
  induction names with
  | nil =>
      rw [List.flatMap_nil, List.nil_append, ← List.append_nil (slashes m),
        iff_slashes_append decodes_slash_cons]
      simp [Decodes, isUtf8_nil]
  | cons name names ih =>
      rw [List.flatMap_cons, List.cons_append, List.cons_append, decodes_slash_cons,
        List.append_assoc, decodes_append (rooted_names names m), ih]
      simp

/-- Without its leading slashes the path starts with its first name that is not empty. -/
theorem head?_dropWhile_names {names : List (List PathByte)} (m : Nat)
    (hnames : ∀ name ∈ names, slashByte ∉ name) :
    ((names.flatMap (slashByte :: ·) ++ slashes m).dropWhile (· == slashByte)).head? =
      (names.find? fun name => !name.isEmpty).bind List.head? := by
  have hskip : ∀ path : List PathByte,
      (slashByte :: path).dropWhile (· == slashByte) = path.dropWhile (· == slashByte) := by
    intro path
    rw [List.dropWhile_cons, if_pos (beq_self_eq_true _)]
  induction names with
  | nil =>
      induction m with
      | zero => rfl
      | succ m ih =>
          change ((slashByte :: slashes m).dropWhile _).head? = _
          rw [hskip]
          exact ih
  | cons name names ih =>
      have ih := ih fun name' hname' => hnames name' (List.mem_cons_of_mem _ hname')
      rw [List.flatMap_cons, List.cons_append, List.cons_append, hskip, List.append_assoc]
      rcases name with - | ⟨b, name⟩
      · rw [List.nil_append, ih]
        rfl
      · have hb : (b == slashByte) = false := by
          rw [beq_eq_false_iff_ne]
          rintro rfl
          exact hnames _ List.mem_cons_self List.mem_cons_self
        rw [List.cons_append, List.dropWhile_cons, hb]
        rfl

/-! ## Encoded backslashes -/

/-- The escape of a backslash. -/
def isEncodedBackslash : PathByte → Bool
  | .plain _ => false
  | .escape hi lo => (PathByte.escape hi lo).value == backslash

/-- Of the path bytes in a name only encoded backslashes decode to a separator. -/
theorem isSeparator_value {b : PathByte} (hkept : b.Kept) (hb : b.isSeparator = false) :
    SegmentState.isSeparator b.value = isEncodedBackslash b := by
  cases b with
  | plain c => exact hb
  | escape hi lo =>
      have hslash : ((PathByte.escape hi lo).value == slash) = false := by
        rw [beq_eq_false_iff_ne]
        intro h
        have hsafe := hkept.2.2
        rw [h, safeChars_slash] at hsafe
        exact Bool.false_ne_true hsafe.symm
      rw [SegmentState.isSeparator, hslash, Bool.or_false]
      rfl

theorem value_eq_dot_iff {b : PathByte} (hkept : b.Kept) : b.value = dot ↔ b = dotByte := by
  cases b with
  | plain c => simp [PathByte.value, dotByte]
  | escape hi lo =>
      constructor
      · intro h
        have hsafe := hkept.2.2
        rw [h, safeChars_dot] at hsafe
        exact absurd hsafe.symm Bool.false_ne_true
      · intro h
        exact absurd h (by simp [dotByte])

/-- A name climbs when it has the piece `..` between its encoded backslashes. -/
theorem climbs_iff {name : List PathByte} (hkept : ∀ b ∈ name, b.Kept)
    (hname : ∀ b ∈ name, b.isSeparator = false) :
    Climbs name ↔ [dotByte, dotByte] ∈ name.splitOnP isEncodedBackslash := by
  unfold Climbs
  rw [splitOnP_map, splitOnP_congr fun b hb => isSeparator_value (hkept b hb) (hname b hb),
    List.mem_map]
  constructor
  · rintro ⟨piece, hpiece, hvalues⟩
    obtain ⟨b₁, rest, rfl, h₁, hrest⟩ := List.map_eq_cons_iff.1 hvalues
    obtain ⟨b₂, rest', rfl, h₂, hrest'⟩ := List.map_eq_cons_iff.1 hrest
    have hpiecekept : ∀ b ∈ b₁ :: b₂ :: rest', b.Kept := fun b hb =>
      hkept b (mem_of_mem_splitOnP hpiece hb)
    rw [(value_eq_dot_iff (hpiecekept b₁ (by simp))).1 h₁,
      (value_eq_dot_iff (hpiecekept b₂ (by simp))).1 h₂, List.map_eq_nil_iff.1 hrest'] at hpiece
    exact hpiece
  · intro h
    exact ⟨_, h, rfl⟩

/-- A request path hides a step behind encoded backslashes: a name that no `..` takes away has the
piece `..` between its encoded backslashes, or the first one starts with an encoded backslash. The
names have to decode to UTF-8, or nothing is joined. -/
def HidesStep (resource : Utf8String) (allowDoubleSlashes : Bool) : Prop :=
  ∃ path, readPath resource.bytes = some path ∧
    (∀ name ∈ pathNames allowDoubleSlashes path, IsUtf8 (name.map PathByte.value)) ∧
    ((∃ name ∈ pathNames allowDoubleSlashes path,
        [dotByte, dotByte] ∈ name.splitOnP isEncodedBackslash) ∨
      ∃ b, ((pathNames allowDoubleSlashes path).find? fun name => !name.isEmpty).bind List.head? =
        some b ∧ isEncodedBackslash b = true)

section Names

variable {decode : Utf8String → Option Utf8String} {resource sanitized : Utf8String}
  {allowDoubleSlashes : Bool} {path : List PathByte} {n m : Nat}

/-- The path bytes that are decoded. -/
def strippedNames (allowDoubleSlashes : Bool) (path : List PathByte) (m : Nat) : List PathByte :=
  ((pathNames allowDoubleSlashes path).flatMap (slashByte :: ·) ++ slashes m).dropWhile
    (· == slashByte)

theorem dropWhile_slashes_append (n : Nat) (path : List PathByte) :
    (slashes n ++ path).dropWhile (· == slashByte) = path.dropWhile (· == slashByte) := by
  induction n with
  | zero => rfl
  | succ n ih =>
      change (slashByte :: (slashes n ++ path)).dropWhile _ = _
      rw [List.dropWhile_cons, if_pos (beq_self_eq_true _)]
      exact ih

theorem mem_of_mem_strippedNames {b : PathByte} (h : b ∈ strippedNames allowDoubleSlashes path m) :
    b = slashByte ∨ b ∈ path := by
  have hmem := (List.dropWhile_suffix _).subset h
  rcases List.mem_append.1 hmem with hnames | hslash
  · obtain ⟨name, hname, hb⟩ := List.mem_flatMap.1 hnames
    rcases List.mem_cons.1 hb with rfl | hb
    · exact Or.inl rfl
    · exact Or.inr (mem_name hname hb).1
  · exact Or.inl (List.eq_of_mem_replicate hslash)

/-- What is decoded are the values of the names. -/
theorem decode_strippedPath (hdecode : DecodesEscapes decode) (hkept : ∀ b ∈ path, b.Kept)
    (hsanitized : sanitized.bytes = spell (slashes n ++
      (pathNames allowDoubleSlashes path).flatMap (slashByte :: ·) ++ slashes m)) :
    decode (strippedPath sanitized) =
      Utf8String.fromUtf8 ((strippedNames allowDoubleSlashes path m).map PathByte.value) := by
  have hbytes : (strippedPath sanitized).bytes = spell (strippedNames allowDoubleSlashes path m) := by
    change stripSlashes sanitized.bytes = _
    rw [hsanitized, stripSlashes_spell, List.append_assoc, dropWhile_slashes_append]
    rfl
  have hstripped : ∀ b ∈ strippedNames allowDoubleSlashes path m, b.Kept := by
    intro b hb
    rcases mem_of_mem_strippedNames hb with rfl | hb
    · intro h
      exact absurd h (by decide)
    · exact hkept b hb
  rw [hdecode _ (by rw [hbytes]; exact wellEscaped_spell hstripped), hbytes,
    percentDecode_spell hstripped]

/-- The decoded names have a component `..` exactly when a name has the piece `..`. -/
theorem climbs_strippedNames_iff (hkept : ∀ b ∈ path, b.Kept) :
    Climbs (strippedNames allowDoubleSlashes path m) ↔
      ∃ name ∈ pathNames allowDoubleSlashes path,
        [dotByte, dotByte] ∈ name.splitOnP isEncodedBackslash := by
  rw [strippedNames, iff_dropWhile_slash climbs_slash_cons, climbs_names_iff]
  apply exists_congr
  intro name
  apply and_congr_right
  intro hname
  exact climbs_iff (fun b hb => hkept b (mem_name hname hb).1) fun b hb => (mem_name hname hb).2

theorem decodes_strippedNames_iff :
    Decodes (strippedNames allowDoubleSlashes path m) ↔
      ∀ name ∈ pathNames allowDoubleSlashes path, Decodes name := by
  rw [strippedNames, iff_dropWhile_slash decodes_slash_cons, decodes_names_iff]

theorem head?_strippedNames :
    (strippedNames allowDoubleSlashes path m).head? =
      ((pathNames allowDoubleSlashes path).find? fun name => !name.isEmpty).bind List.head? := by
  apply head?_dropWhile_names
  intro name hname hslash
  exact absurd (mem_name hname hslash).2 (by decide)

/-- The first path byte that is decoded is one of a name. -/
theorem isSeparator_head (hkept : ∀ b ∈ path, b.Kept) {b : PathByte}
    (h : ((pathNames allowDoubleSlashes path).find? fun name => !name.isEmpty).bind List.head? =
      some b) : SegmentState.isSeparator b.value = isEncodedBackslash b := by
  obtain ⟨name, hfind, hhead⟩ := Option.bind_eq_some_iff.1 h
  have hb : b ∈ name := List.mem_of_mem_head? hhead
  have hname := mem_name (List.mem_of_find?_eq_some hfind) hb
  exact isSeparator_value (hkept b hname.1) hname.2

end Names

/-! ## When the path stays inside -/

/-- The asterisk and the empty path are left as they are, and they hide nothing. -/
theorem staysInside_of_special {decode : Utf8String → Option Utf8String} {resource : Utf8String}
    {allowDoubleSlashes : Bool} (hdecode : DecodesEscapes decode)
    (h : resource.bytes = asciiBytes "*".toList ∨ resource.bytes = []) :
    StaysInside decode resource allowDoubleSlashes ∧ ¬ HidesStep resource allowDoubleSlashes := by
  have hsanitized : sanitizeUrl resource allowDoubleSlashes = .ok resource := by
    rw [sanitizeUrl, if_pos h]
  constructor
  · intro sanitized hok decoded hdecoded
    rw [hsanitized] at hok
    obtain rfl : resource = sanitized := Except.ok.inj hok
    -- neither text has a slash to strip or an escape to decode
    have hbytes : (strippedPath resource).bytes = resource.bytes := by
      change stripSlashes resource.bytes = _
      rcases h with h | h <;> rw [h] <;> decide
    have hescaped : wellEscaped (strippedPath resource).bytes = true := by
      rw [hbytes]
      rcases h with h | h
      · rw [h]
        decide
      · rw [h]
        decide
    rw [hdecode _ hescaped, hbytes, Utf8String.fromUtf8] at hdecoded
    split at hdecoded
    · have hdecodedbytes : decoded.bytes = percentDecode resource.bytes := by
        rw [← Option.some.inj hdecoded]
      rw [hdecodedbytes]
      rcases h with h | h
      · rw [h]
        refine ⟨by decide, ?_⟩
        intro b hb
        obtain rfl := Option.some.inj hb
        decide
      · rw [h]
        refine ⟨by decide, ?_⟩
        intro b hb
        exact absurd hb (by simp [percentDecode])
    · exact absurd hdecoded (by simp)
  · rintro ⟨path, hread, -, hhidden⟩
    rcases h with h | h
    -- the asterisk is one name without a backslash, and the empty path has no name
    · have hstar : readPath resource.bytes = some [.plain 0x2a] := by
        rw [h]
        decide +kernel
      have hnames : pathNames allowDoubleSlashes [.plain 0x2a] = [[.plain 0x2a]] := by
        cases allowDoubleSlashes <;> decide
      rw [← Option.some.inj (hstar.symm.trans hread), hnames] at hhidden
      have hpieces : [dotByte, dotByte] ∉ [.plain 0x2a].splitOnP isEncodedBackslash := by decide
      exact absurd hhidden (by simp [hpieces, isEncodedBackslash])
    · have hempty : readPath resource.bytes = some [] := by
        rw [h]
        rfl
      have hnames : pathNames allowDoubleSlashes [] = [] := by
        cases allowDoubleSlashes <;> rfl
      rw [← Option.some.inj (hempty.symm.trans hread), hnames] at hhidden
      exact absurd hhidden (by simp)

/-- Without a hidden step the path stays inside. -/
theorem staysInside_of_not_hidesStep {decode : Utf8String → Option Utf8String}
    {resource : Utf8String} {allowDoubleSlashes : Bool} (hdecode : DecodesEscapes decode)
    (h : ¬ HidesStep resource allowDoubleSlashes) :
    StaysInside decode resource allowDoubleSlashes := by
  by_cases hspecial : resource.bytes = asciiBytes "*".toList ∨ resource.bytes = []
  · exact (staysInside_of_special hdecode hspecial).1
  intro sanitized hok decoded hdecoded
  have hsanitize := sanitizeUrl_eq allowDoubleSlashes hspecial
  cases hread : readPath resource.bytes with
  | none =>
      rw [hread] at hsanitize
      dsimp only at hsanitize
      rw [hsanitize] at hok
      exact absurd hok (by simp)
  | some path =>
      rw [hread] at hsanitize
      dsimp only at hsanitize
      obtain ⟨sanitized', n, m, hok', hbytes⟩ := hsanitize
      rw [hok'] at hok
      obtain rfl : sanitized' = sanitized := Except.ok.inj hok
      have hkept := kept_of_readPath hread
      rw [decode_strippedPath hdecode hkept hbytes, Utf8String.fromUtf8] at hdecoded
      split at hdecoded
      · rename_i hutf8
        have hdecodedbytes : decoded.bytes =
            (strippedNames allowDoubleSlashes path m).map PathByte.value := by
          rw [← Option.some.inj hdecoded]
        have hnames := decodes_strippedNames_iff.1 hutf8
        rw [hdecodedbytes]
        constructor
        · intro hclimbs
          exact h ⟨path, hread, hnames, Or.inl ((climbs_strippedNames_iff hkept).1 hclimbs)⟩
        · intro c hc
          rw [List.head?_map, head?_strippedNames] at hc
          obtain ⟨b, hb, rfl⟩ := Option.map_eq_some_iff.1 hc
          rw [isSeparator_head hkept hb, ← Bool.not_eq_true]
          intro hescape
          exact h ⟨path, hread, hnames, Or.inr ⟨b, hb, hescape⟩⟩
      · exact absurd hdecoded (by simp)

/-- A hidden step comes up in the decoded path. -/
theorem not_staysInside_of_hidesStep {decode : Utf8String → Option Utf8String}
    {resource : Utf8String} {allowDoubleSlashes : Bool} (hdecode : DecodesEscapes decode)
    (h : HidesStep resource allowDoubleSlashes) :
    ¬ StaysInside decode resource allowDoubleSlashes := by
  by_cases hspecial : resource.bytes = asciiBytes "*".toList ∨ resource.bytes = []
  · exact absurd h (staysInside_of_special hdecode hspecial).2
  intro hinside
  obtain ⟨path, hread, hnames, hhidden⟩ := h
  have hsanitize := sanitizeUrl_eq allowDoubleSlashes hspecial
  rw [hread] at hsanitize
  dsimp only at hsanitize
  obtain ⟨sanitized, n, m, hok, hbytes⟩ := hsanitize
  have hkept := kept_of_readPath hread
  have hutf8 : IsUtf8 ((strippedNames allowDoubleSlashes path m).map PathByte.value) :=
    decodes_strippedNames_iff.2 hnames
  have hdecoded := decode_strippedPath hdecode hkept hbytes
  rw [Utf8String.fromUtf8, dif_pos hutf8] at hdecoded
  obtain ⟨hcomponents, hroot⟩ := hinside sanitized hok _ hdecoded
  rcases hhidden with hpiece | ⟨b, hb, hescape⟩
  · exact hcomponents ((climbs_strippedNames_iff hkept).2 hpiece)
  · have hhead : ((strippedNames allowDoubleSlashes path m).map PathByte.value).head? =
        some b.value := by
      rw [List.head?_map, head?_strippedNames, hb]
      rfl
    have hnosep := hroot b.value hhead
    rw [isSeparator_head hkept hb, hescape] at hnosep
    exact Bool.false_ne_true hnosep.symm

/-- The path that is joined to the web root stays inside exactly when the request path hides no step
behind encoded backslashes. -/
theorem sanitizeUrl_safe_iff (decode : Utf8String → Option Utf8String)
    (hdecode : DecodesEscapes decode) (resource : Utf8String) (allowDoubleSlashes : Bool) :
    StaysInside decode resource allowDoubleSlashes ↔ ¬ HidesStep resource allowDoubleSlashes := by
  constructor
  · intro hinside hhidden
    exact not_staysInside_of_hidesStep hdecode hhidden hinside
  · exact staysInside_of_not_hidesStep hdecode

/-- Percent-decoding, as `urlencoding::decode` does it. -/
def decode (text : Utf8String) : Option Utf8String := Utf8String.fromUtf8 (percentDecode text.bytes)

/-- A path with raw and encoded dot segments stays inside. -/
theorem sanitizeUrl_safe_iff_dots :
    StaysInside decode (.ofStr "/a/%2e%2e/..\\../b".toList) false ↔
      ¬ HidesStep (.ofStr "/a/%2e%2e/..\\../b".toList) false :=
  sanitizeUrl_safe_iff decode (fun _ _ => rfl) _ _

/-- Two steps up between encoded backslashes come up behind the sanitizer. -/
theorem sanitizeUrl_hides_steps :
    ¬ StaysInside decode (.ofStr "/..%5C..%5Cetc".toList) false := by
  apply not_staysInside_of_hidesStep fun _ _ => rfl
  refine ⟨[slashByte, dotByte, dotByte, .escape 0x35 0x43, dotByte, dotByte, .escape 0x35 0x43,
    .plain 0x65, .plain 0x74, .plain 0x63], by decide +kernel, ?_, Or.inl ?_⟩
  · decide +kernel
  · decide +kernel

end Ferron.Modules.StaticTraversal
