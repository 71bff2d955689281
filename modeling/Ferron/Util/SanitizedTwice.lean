import Ferron.Util.SanitizedPath

/-!
# Sanitizing a path twice

What the sanitizer makes of a path is spelled by parts between slashes: the names that are left, with
empty parts for the slashes at the start and at the end (`sanitizeUrl_bytes`). A second pass reads the
same names (`pathNames_rooted`), and it builds the same path again with one exception: where double
slashes are allowed, an empty first name is written with a slash too many, so the second pass finds one
name more (`sanitizeUrl_idempotent_iff`).
-/

set_option autoImplicit false

namespace Ferron.Util.UrlSanitizer

open Ferron.Lib.DotSegments

/-! ## The parts of the result -/

/-- The path of these parts, each behind a slash. -/
def rooted (parts : List (List PathByte)) : List PathByte := parts.flatMap (slashByte :: ·)

/-- The path ends with a slash or a backslash. -/
def endsWithSeparator (path : List PathByte) : Bool := path.getLast?.any PathByte.isSeparator

/-- The parts of the result: the names, behind an empty part for a second slash at the start and another
one when the first name is empty, and before an empty part for a slash at the end. -/
def resultParts (twoSlashes trailingSlash : Bool) (names : List (List PathByte)) :
    List (List PathByte) :=
  (if twoSlashes then [[]] else []) ++ (if names.head? = some [] then [[]] else []) ++
    if names = [] then [[]] else names ++ if trailingSlash then [[]] else []

/-- The last byte of a spelling is a separator when the last path byte is one. -/
theorem getLast?_spell {path : List PathByte} (hkept : ∀ b ∈ path, b.Kept) :
    ((spell path).getLast? == some slash || (spell path).getLast? == some backslash) =
      endsWithSeparator path := by
  induction path using List.reverseRecOn with
  | nil => rfl
  | append_singleton path b _ =>
      have hb := hkept b (by simp)
      rw [endsWithSeparator, List.getLast?_concat, spell_append, Option.any_some]
      cases b with
      | plain byte =>
          have hspell : spell [.plain byte] = [byte] := rfl
          rw [hspell, List.getLast?_concat, PathByte.isSeparator, SegmentState.isSeparator, Bool.or_comm]
          rfl
      | escape hi lo =>
          have hspell : spell path ++ spell [.escape hi lo] = (spell path ++ [percent, hi]) ++ [lo] := by
            simp [PathByte.spell]
          have hslash : lo ≠ slash := by
            rintro rfl
            exact absurd hb.2.1 (by decide)
          have hbackslash : lo ≠ backslash := by
            rintro rfl
            exact absurd hb.2.1 (by decide)
          rw [hspell, List.getLast?_concat, PathByte.isSeparator]
          simp [hslash, hbackslash]

/-- Without double slashes no name is empty. -/
theorem ne_nil_of_mem_pathNames {path name : List PathByte} (h : name ∈ pathNames false path) :
    name ≠ [] := by
  have hpart : ∀ part, Segment.name name ∈ partSegment part → name ≠ [] := by
    intro part hmem
    unfold partSegment at hmem
    split at hmem
    · exact absurd hmem List.not_mem_nil
    split at hmem
    · exact absurd (List.mem_singleton.1 hmem) (fun h => nomatch h)
    split at hmem
    · exact absurd hmem List.not_mem_nil
    · rename_i hne
      rw [Segment.name.inj (List.mem_singleton.1 hmem)]
      exact hne
  have hparts : ∀ parts, Segment.name name ∈ partSegments false parts → name ≠ [] := by
    intro parts
    induction parts with
    | nil => exact fun hmem => absurd hmem List.not_mem_nil
    | cons part parts ih =>
        intro hmem
        by_cases hlast : parts = []
        · subst hlast
          exact hpart part hmem
        · rw [partSegments_cons _ _ hlast, List.mem_append] at hmem
          rcases hmem with hmem | hmem
          · split at hmem
            · exact absurd hmem List.not_mem_nil
            · exact hpart part hmem
          · exact ih hmem
  exact hparts _ (mem_of_mem_survivors h)

/-- The result spells its parts. -/
theorem buildResult_eq (allowDoubleSlashes : Bool) (bytes result : Bytes) {names : List (List PathByte)}
    (hnames : allowDoubleSlashes = false → [] ∉ names) :
    buildResult allowDoubleSlashes bytes result (names.map spell) =
      spell (rooted (resultParts (allowDoubleSlashes && startsWithTwoSlashes bytes)
        (result.getLast? == some slash || result.getLast? == some backslash) names)) := by
  rw [buildResult]
  dsimp only
  generalize (result.getLast? == some slash || result.getLast? == some backslash) = trailing
  generalize (allowDoubleSlashes && startsWithTwoSlashes bytes) = two
  rcases names with - | ⟨name, names⟩
  · cases two <;> cases trailing <;> rfl
  · have hfirst : (decide (0 < 0) || (allowDoubleSlashes && (spell name).isEmpty)) =
        decide (name = []) := by
      cases name with
      | nil =>
          cases hallow : allowDoubleSlashes with
          | true => rfl
          | false => exact absurd List.mem_cons_self (hnames hallow)
      | cons b name =>
          have hne : spell (b :: name) ≠ [] := fun h => List.cons_ne_nil b name (spell_eq_nil_iff.1 h)
          rw [List.isEmpty_eq_false_iff.2 hne, Bool.and_false]
          exact (decide_eq_false (List.cons_ne_nil b name)).symm
    rw [List.map_cons, List.zipIdx_cons, List.flatMap_cons,
      flatMap_zipIdx_spell allowDoubleSlashes names 0, resultParts, if_neg (List.cons_ne_nil _ _)]
    dsimp only
    rw [hfirst, List.head?_cons, rooted]
    simp only [List.flatMap_append, List.flatMap_cons, spell_append, List.append_assoc]
    cases two <;> cases trailing <;> by_cases hname : name = [] <;>
      simp [hname, slashByte, PathByte.spell]

/-- The last path byte stays when a slash is put before the path, unless the path is empty. -/
theorem endsWithSeparator_rooted {path : List PathByte} (h : path ≠ []) :
    endsWithSeparator (if path.head? = some slashByte then path else slashByte :: path) =
      endsWithSeparator path := by
  split
  · rfl
  · rw [endsWithSeparator, endsWithSeparator, List.getLast?_cons_of_ne_nil h]

theorem bytes_of_fromUtf8 {bytes : Bytes} {text : Utf8String} (h : Utf8String.fromUtf8 bytes = some text) :
    text.bytes = bytes := by
  rw [Utf8String.fromUtf8] at h
  split at h
  · rw [← Option.some.inj h]
  · exact absurd h (Option.some_ne_none text).symm

theorem eq_of_bytes {s t : Utf8String} (h : s.bytes = t.bytes) : s = t := by
  cases s
  cases t
  cases h
  rfl

/-- What the sanitizer makes of a path that is read. -/
theorem sanitizeUrl_bytes {resource : Utf8String} (allowDoubleSlashes : Bool) {path : List PathByte}
    (hresource : ¬ (resource.bytes = asciiBytes "*".toList ∨ resource.bytes = []))
    (hread : readPath resource.bytes = some path) :
    ∃ sanitized, sanitizeUrl resource allowDoubleSlashes = .ok sanitized ∧
      sanitized.bytes = spell (rooted (resultParts
        (allowDoubleSlashes && startsWithTwoSlashes resource.bytes) (endsWithSeparator path)
        (pathNames allowDoubleSlashes path))) := by
  have hspelled := sanitizeUrl_eq allowDoubleSlashes hresource
  rw [hread] at hspelled
  obtain ⟨sanitized, -, -, hok, -⟩ := hspelled
  refine ⟨sanitized, hok, ?_⟩
  have hkept := kept_of_readPath hread
  have hnames : allowDoubleSlashes = false → [] ∉ pathNames allowDoubleSlashes path := by
    rintro rfl hmem
    exact ne_nil_of_mem_pathNames hmem rfl
  rw [sanitizeUrl, if_neg hresource, decodePass_eq, hread] at hok
  dsimp only at hok
  rw [drop_ensureLeadingSlash allowDoubleSlashes hread,
    finalSegments_eq allowDoubleSlashes fun b hb => hkept b (mem_of_mem_behindRoot hb),
    buildResult_eq allowDoubleSlashes _ _ hnames,
    ensureLeadingSlash_spell allowDoubleSlashes hread] at hok
  split at hok
  · rename_i text hutf8
    rw [← Except.ok.inj hok, bytes_of_fromUtf8 hutf8, getLast?_spell]
    · by_cases hempty : path = []
      · -- there are no names then, and the slash at the end is not written
        subst hempty
        cases allowDoubleSlashes <;> rfl
      · rw [endsWithSeparator_rooted hempty]
    · intro b hb
      split at hb
      · exact hkept b hb
      · rcases List.mem_cons.1 hb with rfl | hb
        · exact (by decide : slash ≠ percent)
        · exact hkept b hb
  · exact absurd hok (by intro h; cases h)

/-! ## Reading the parts again -/

/-- A part that the next pass takes for itself. -/
structure CleanPart (part : List PathByte) : Prop where
  stable : ∀ b ∈ part, b.Stable
  not_separator : ∀ b ∈ part, b.isSeparator = false
  name : part ≠ [] → partSegment part = [.name part]

theorem cleanPart_nil : CleanPart [] :=
  ⟨fun _ h => absurd h List.not_mem_nil, fun _ h => absurd h List.not_mem_nil, fun h => absurd rfl h⟩

/-- The names of a path are clean. -/
theorem cleanPart_of_mem_pathNames {allowDoubleSlashes : Bool} {path name : List PathByte}
    (hstable : ∀ b ∈ path, b.Stable) (h : name ∈ pathNames allowDoubleSlashes path) :
    CleanPart name := by
  refine ⟨fun b hb => hstable b (mem_name h hb).1, fun b hb => (mem_name h hb).2, ?_⟩
  intro hne
  rcases eq_of_mem_pathNames h with rfl | ⟨part, -, rfl⟩
  · exact absurd rfl hne
  · obtain ⟨hdot, hup⟩ := rdropWhile_ne_dots part
    rw [partSegment, if_neg hdot, if_neg hup, List.rdropWhile_idempotent, if_neg hne]

/-- The path splits into its parts. -/
theorem splitOnP_rooted {part : List PathByte} {parts : List (List PathByte)}
    (hclean : ∀ p ∈ part :: parts, CleanPart p) :
    (part ++ rooted parts).splitOnP PathByte.isSeparator = part :: parts :=
  splitOnP_joined rfl fun p hp => (hclean p hp).not_separator

/-- The parts behind the root: where double slashes are allowed, an empty first part belongs to it. -/
def behindParts (allowDoubleSlashes : Bool) : List (List PathByte) → List (List PathByte)
  | [] :: part :: parts => if allowDoubleSlashes then part :: parts else [] :: part :: parts
  | parts => parts

theorem mem_behindParts {allowDoubleSlashes : Bool} {parts : List (List PathByte)} {part : List PathByte}
    (h : part ∈ behindParts allowDoubleSlashes parts) : part ∈ parts := by
  rw [behindParts.eq_def] at h
  split at h
  · split at h
    · exact List.mem_cons_of_mem _ h
    · exact h
  · exact h

theorem splitOnP_behindRoot (allowDoubleSlashes : Bool) {parts : List (List PathByte)}
    (hparts : parts ≠ []) (hclean : ∀ p ∈ parts, CleanPart p) :
    (behindRoot allowDoubleSlashes (rooted parts)).splitOnP PathByte.isSeparator =
      behindParts allowDoubleSlashes parts := by
  obtain ⟨part, parts, rfl⟩ := List.exists_cons_of_ne_nil hparts
  have hdrop : dropSlash (rooted (part :: parts)) = part ++ rooted parts := rfl
  rw [behindRoot, hdrop]
  cases allowDoubleSlashes with
  | false =>
      rw [if_neg Bool.false_ne_true, splitOnP_rooted hclean]
      cases part with
      | nil => cases parts <;> rfl
      | cons b part => rfl
  | true =>
      rw [if_pos rfl]
      cases part with
      | nil =>
          cases parts with
          | nil => rfl
          | cons next parts =>
              exact splitOnP_rooted fun p hp => hclean p (List.mem_cons_of_mem _ hp)
      | cons b part =>
          have hb : b ≠ slashByte := by
            rintro rfl
            exact absurd ((hclean _ List.mem_cons_self).not_separator slashByte List.mem_cons_self)
              (by decide)
          have hhead : ((b :: part) ++ rooted parts).head? ≠ some slashByte := by
            rw [List.cons_append, List.head?_cons]
            exact fun h => hb (Option.some.inj h)
          rw [dropSlash, if_neg hhead, splitOnP_rooted hclean]
          rfl

/-- The names among the parts: those that are not empty, and where double slashes are allowed also the
empty ones in front of a slash. -/
def keptNames (allowDoubleSlashes : Bool) : List (List PathByte) → List (List PathByte)
  | [] => []
  | [part] => if part = [] then [] else [part]
  | part :: parts =>
      (if part = [] then (if allowDoubleSlashes then [[]] else []) else [part]) ++
        keptNames allowDoubleSlashes parts

theorem keptNames_cons (allowDoubleSlashes : Bool) (part : List PathByte)
    {parts : List (List PathByte)} (h : parts ≠ []) :
    keptNames allowDoubleSlashes (part :: parts) =
      (if part = [] then (if allowDoubleSlashes then [[]] else []) else [part]) ++
        keptNames allowDoubleSlashes parts := by
  rcases parts with - | ⟨next, parts⟩
  · exact absurd rfl h
  · rfl

theorem mem_keptNames {allowDoubleSlashes : Bool} {parts : List (List PathByte)} {part : List PathByte}
    (h : part ∈ keptNames allowDoubleSlashes parts) :
    part ∈ parts ∧ (allowDoubleSlashes = false → part ≠ []) := by
  induction parts with
  | nil => exact absurd h List.not_mem_nil
  | cons first parts ih =>
      have hfirst : part ∈ [first] → first ≠ [] →
          part ∈ first :: parts ∧ (allowDoubleSlashes = false → part ≠ []) := by
        intro hmem hne
        rw [List.mem_singleton.1 hmem]
        exact ⟨List.mem_cons_self, fun _ => hne⟩
      by_cases hlast : parts = []
      · subst hlast
        cases first with
        | nil => exact absurd h List.not_mem_nil
        | cons b first => exact hfirst h (List.cons_ne_nil _ _)
      · rw [keptNames_cons _ _ hlast] at h
        rcases List.mem_append.1 h with h | h
        · split at h
          · rename_i hempty
            cases allowDoubleSlashes with
            | false => exact absurd h List.not_mem_nil
            | true =>
                rw [List.mem_singleton.1 h, hempty]
                exact ⟨List.mem_cons_self, fun h => nomatch h⟩
          · rename_i hne
            exact hfirst h hne
        · exact ⟨List.mem_cons_of_mem _ (ih h).1, (ih h).2⟩

theorem partSegments_clean (allowDoubleSlashes : Bool) {parts : List (List PathByte)}
    (hclean : ∀ p ∈ parts, CleanPart p) :
    partSegments allowDoubleSlashes parts = (keptNames allowDoubleSlashes parts).map .name := by
  induction parts with
  | nil => rfl
  | cons part parts ih =>
      have ih := ih fun p hp => hclean p (List.mem_cons_of_mem _ hp)
      have hname := (hclean part List.mem_cons_self).name
      by_cases hlast : parts = []
      · subst hlast
        by_cases hempty : part = []
        · rw [hempty]
          rfl
        · change partSegment part = (if part = [] then [] else [part]).map .name
          rw [hname hempty, if_neg hempty]
          rfl
      · rw [partSegments_cons _ _ hlast, keptNames_cons _ _ hlast, List.map_append, ih]
        by_cases hempty : part = []
        · rw [if_pos hempty, if_pos hempty]
          cases allowDoubleSlashes <;> rfl
        · rw [if_neg hempty, if_neg hempty, hname hempty]
          rfl

/-- Nothing is taken away where there is no step up. -/
theorem survivors_names (names : List (List PathByte)) :
    unmatchedUps (names.map Segment.name) = 0 ∧ survivors (names.map Segment.name) = names := by
  induction names with
  | nil => exact ⟨rfl, rfl⟩
  | cons name names ih =>
      rw [List.map_cons, unmatchedUps, survivors, ih.1, if_pos rfl, ih.2]
      exact ⟨rfl, rfl⟩

/-- The names of a path of clean parts. -/
theorem pathNames_rooted (allowDoubleSlashes : Bool) {parts : List (List PathByte)}
    (hparts : parts ≠ []) (hclean : ∀ p ∈ parts, CleanPart p) :
    pathNames allowDoubleSlashes (rooted parts) =
      keptNames allowDoubleSlashes (behindParts allowDoubleSlashes parts) := by
  have hbehind : ∀ p ∈ behindParts allowDoubleSlashes parts, CleanPart p :=
    fun p hp => hclean p (mem_behindParts hp)
  rw [pathNames, splitOnP_behindRoot allowDoubleSlashes hparts hclean,
    partSegments_clean allowDoubleSlashes hbehind, (survivors_names _).2]

/-- Only the last part may be empty. -/
def NoEmptyPart (parts : List (List PathByte)) : Prop := ∀ part ∈ parts.dropLast, part ≠ []

/-- The names with the slash at the end are the parts again. -/
theorem keptNames_again (allowDoubleSlashes : Bool) {parts : List (List PathByte)} (hparts : parts ≠ [])
    (htidy : allowDoubleSlashes = true ∨ NoEmptyPart parts) :
    (if keptNames allowDoubleSlashes parts = [] then [[]]
      else keptNames allowDoubleSlashes parts ++ if parts.getLast? == some [] then [[]] else []) =
        parts := by
  induction parts with
  | nil => exact absurd rfl hparts
  | cons part parts ih =>
      by_cases hlast : parts = []
      · subst hlast
        cases part <;> rfl
      · have htail : allowDoubleSlashes = true ∨ NoEmptyPart parts := by
          refine htidy.imp_right fun h p hp => h p ?_
          rw [List.dropLast_cons_of_ne_nil hlast]
          exact List.mem_cons_of_mem _ hp
        have hkept : keptNames allowDoubleSlashes (part :: parts) =
            part :: keptNames allowDoubleSlashes parts := by
          rw [keptNames_cons _ _ hlast]
          by_cases hempty : part = []
          · rcases htidy with rfl | h
            · rw [hempty]
              rfl
            · refine absurd hempty (h part ?_)
              rw [List.dropLast_cons_of_ne_nil hlast]
              exact List.mem_cons_self
          · rw [if_neg hempty]
            rfl
        have ih := ih hlast htail
        rw [hkept, if_neg (List.cons_ne_nil _ _), List.getLast?_cons_of_ne_nil hlast,
          List.cons_append]
        by_cases hnone : keptNames allowDoubleSlashes parts = []
        · -- the parts behind the first one are one empty part
          rw [if_pos hnone] at ih
          rw [← ih]
          rfl
        · rw [if_neg hnone] at ih
          rw [ih]

/-- The first part is empty, and it is not the only one. -/
def startsEmpty : List (List PathByte) → Bool
  | [] :: _ :: _ => true
  | _ => false

theorem startsWithTwoSlashes_rooted {parts : List (List PathByte)}
    (hclean : ∀ p ∈ parts, CleanPart p) :
    startsWithTwoSlashes (spell (rooted parts)) = startsEmpty parts := by
  have hno : ∀ {b : PathByte} {rest : Bytes}, b.Stable → b.isSeparator = false →
      startsWithTwoSlashes (slash :: (b.spell ++ rest)) = false := by
    intro b rest hstable hsep
    cases b with
    | plain byte =>
        have hbyte : byte ≠ slash := by
          rintro rfl
          exact absurd hsep (by decide)
        change (slash == slash && (slash == byte && true)) = false
        rw [beq_eq_false_iff_ne.2 (Ne.symm hbyte), Bool.false_and, Bool.and_false]
    | escape hi lo => rfl
  rcases parts with - | ⟨- | ⟨b, part⟩, parts⟩
  · rfl
  · cases parts <;> rfl
  · have hpart := hclean _ List.mem_cons_self
    change startsWithTwoSlashes (slash :: spell (b :: part ++ rooted parts)) = false
    rw [List.cons_append, spell_cons]
    exact hno (hpart.stable b List.mem_cons_self) (hpart.not_separator b List.mem_cons_self)

theorem endsWithSeparator_rooted_parts {parts : List (List PathByte)} (hparts : parts ≠ [])
    (hclean : ∀ p ∈ parts, CleanPart p) :
    endsWithSeparator (rooted parts) = (parts.getLast? == some []) := by
  rcases List.eq_nil_or_concat' parts with rfl | ⟨front, last, rfl⟩
  · exact absurd rfl hparts
  rw [endsWithSeparator, rooted, List.flatMap_append, List.flatMap_singleton, List.getLast?_concat]
  by_cases hempty : last = []
  · subst hempty
    rw [List.getLast?_concat]
    rfl
  · have hlast := (hclean last (List.mem_append_right _ List.mem_cons_self)).not_separator _
      (List.getLast_mem hempty)
    rw [List.getLast?_append_cons, List.getLast?_cons_of_ne_nil hempty,
      List.getLast?_eq_some_getLast hempty, Option.any_some, hlast]
    exact (beq_eq_false_iff_ne.2 fun h => hempty (Option.some.inj h)).symm

/-! ## The second pass -/

theorem head?_keptNames {parts : List (List PathByte)} :
    (keptNames true parts).head? = some [] ↔ startsEmpty parts = true := by
  rcases parts with - | ⟨part, - | ⟨next, parts⟩⟩
  · exact iff_of_false (fun h => nomatch h) (fun h => nomatch h)
  · cases part <;> exact iff_of_false (fun h => nomatch h) (fun h => nomatch h)
  · cases part with
    | nil => exact iff_of_true rfl rfl
    | cons b part => exact iff_of_false (fun h => nomatch h) (fun h => nomatch h)

/-- The parts that the second pass writes. -/
theorem resultParts_again (allowDoubleSlashes : Bool) {parts : List (List PathByte)}
    (hparts : parts ≠ []) (htidy : allowDoubleSlashes = true ∨ NoEmptyPart parts) :
    resultParts (allowDoubleSlashes && startsEmpty parts) (parts.getLast? == some [])
        (keptNames allowDoubleSlashes (behindParts allowDoubleSlashes parts)) =
      if allowDoubleSlashes = true ∧ startsEmpty (behindParts true parts) = true then [] :: parts
      else parts := by
  cases allowDoubleSlashes with
  | false =>
      have hbehind : behindParts false parts = parts := by
        rcases parts with - | ⟨- | ⟨b, part⟩, - | ⟨next, parts⟩⟩ <;> rfl
      have hhead : (keptNames false parts).head? ≠ some [] := fun h =>
        (mem_keptNames (List.mem_of_head? h)).2 rfl rfl
      rw [if_neg (fun h => Bool.false_ne_true h.1), hbehind, resultParts, if_neg hhead]
      exact keptNames_again false hparts htidy
  | true =>
      by_cases hstarts : startsEmpty parts = true
      · obtain ⟨next, rest, rfl⟩ : ∃ next rest, parts = [] :: next :: rest := by
          rcases parts with - | ⟨- | ⟨b, part⟩, - | ⟨next, rest⟩⟩
          · exact absurd hstarts Bool.false_ne_true
          · exact absurd hstarts Bool.false_ne_true
          · exact ⟨next, rest, rfl⟩
          · exact absurd hstarts Bool.false_ne_true
          · exact absurd hstarts Bool.false_ne_true
        have hbehind : behindParts true ([] :: next :: rest) = next :: rest := rfl
        have hagain := keptNames_again true (List.cons_ne_nil next rest) (.inl rfl)
        rw [hbehind, resultParts, List.getLast?_cons_of_ne_nil (List.cons_ne_nil next rest),
          List.append_assoc, hagain, Bool.true_and, if_pos hstarts]
        by_cases hgrows : startsEmpty (next :: rest) = true
        · rw [if_pos (head?_keptNames.2 hgrows), if_pos ⟨rfl, hgrows⟩]
          rfl
        · rw [if_neg (mt head?_keptNames.1 hgrows), if_neg (fun h => hgrows h.2)]
          rfl
      · have hbehind : behindParts true parts = parts := by
          rcases parts with - | ⟨- | ⟨b, part⟩, - | ⟨next, rest⟩⟩
          · rfl
          · rfl
          · exact absurd rfl hstarts
          · rfl
          · rfl
        rw [hbehind, if_neg (fun h => hstarts h.2), resultParts, if_neg (mt head?_keptNames.1 hstarts),
          Bool.eq_false_iff.2 hstarts]
        exact keptNames_again true hparts (.inl rfl)

theorem stable_rooted {parts : List (List PathByte)} (hclean : ∀ p ∈ parts, CleanPart p) :
    ∀ b ∈ rooted parts, b.Stable := by
  intro b hb
  obtain ⟨part, hpart, hb⟩ := List.mem_flatMap.1 hb
  rcases List.mem_cons.1 hb with rfl | hb
  · exact ⟨by decide, by decide, by decide⟩
  · exact (hclean part hpart).stable b hb

/-- Clean parts can be read off what they spell. -/
theorem spell_rooted_inj {parts other : List (List PathByte)} (hparts : parts ≠ []) (hother : other ≠ [])
    (hclean : ∀ p ∈ parts, CleanPart p) (hcleanOther : ∀ p ∈ other, CleanPart p) :
    spell (rooted parts) = spell (rooted other) ↔ parts = other := by
  refine ⟨fun h => ?_, fun h => by rw [h]⟩
  have hread := readPath_spell (stable_rooted hclean)
  rw [h, readPath_spell (stable_rooted hcleanOther), Option.some_inj] at hread
  obtain ⟨part, parts, rfl⟩ := List.exists_cons_of_ne_nil hparts
  obtain ⟨next, other, rfl⟩ := List.exists_cons_of_ne_nil hother
  have hsplit := congrArg (fun path => path.tail.splitOnP PathByte.isSeparator) hread
  change (next ++ rooted other).splitOnP _ = (part ++ rooted parts).splitOnP _ at hsplit
  rw [splitOnP_rooted hclean, splitOnP_rooted hcleanOther] at hsplit
  exact hsplit.symm

/-- What the second pass makes of clean parts. -/
theorem sanitizeUrl_rooted {sanitized : Utf8String} (allowDoubleSlashes : Bool)
    {parts : List (List PathByte)} (hbytes : sanitized.bytes = spell (rooted parts))
    (hparts : parts ≠ []) (hclean : ∀ p ∈ parts, CleanPart p) :
    ∃ again, sanitizeUrl sanitized allowDoubleSlashes = .ok again ∧
      again.bytes = spell (rooted (resultParts (allowDoubleSlashes && startsEmpty parts)
        (parts.getLast? == some []) (keptNames allowDoubleSlashes
          (behindParts allowDoubleSlashes parts)))) := by
  have hread : readPath sanitized.bytes = some (rooted parts) := by
    rw [hbytes]
    exact readPath_spell (stable_rooted hclean)
  have hresource : ¬ (sanitized.bytes = asciiBytes "*".toList ∨ sanitized.bytes = []) := by
    obtain ⟨part, rest, rfl⟩ := List.exists_cons_of_ne_nil hparts
    rw [hbytes]
    rintro (h | h)
    · exact absurd (List.cons.inj h).1 (by decide)
    · exact List.cons_ne_nil _ _ h
  obtain ⟨again, hok, hagain⟩ := sanitizeUrl_bytes allowDoubleSlashes hresource hread
  refine ⟨again, hok, ?_⟩
  rw [hagain, hbytes, startsWithTwoSlashes_rooted hclean, endsWithSeparator_rooted_parts hparts hclean,
    pathNames_rooted allowDoubleSlashes hparts hclean]

/-! ## Idempotence -/

/-- Where double slashes are allowed, a second pass writes one slash more: the first name is empty, and
it is written behind a second slash or in front of a third. -/
def GrowsAgain (resource : Utf8String) : Prop :=
  ∃ path, readPath resource.bytes = some path ∧ (pathNames true path).head? = some [] ∧
    (startsWithTwoSlashes resource.bytes = true ∨ endsWithSeparator path = true ∨
      1 < (pathNames true path).length)

theorem resultParts_ne_nil (twoSlashes trailingSlash : Bool) (names : List (List PathByte)) :
    resultParts twoSlashes trailingSlash names ≠ [] := by
  intro h
  have hlast := (List.append_eq_nil_iff.1 h).2
  split at hlast
  · exact absurd hlast (List.cons_ne_nil _ _)
  · rename_i hne
    exact hne (List.append_eq_nil_iff.1 hlast).1

theorem cleanPart_resultParts {twoSlashes trailingSlash : Bool} {names : List (List PathByte)}
    (hnames : ∀ name ∈ names, CleanPart name) :
    ∀ part ∈ resultParts twoSlashes trailingSlash names, CleanPart part := by
  intro part hpart
  rw [resultParts, List.mem_append, List.mem_append] at hpart
  have hempty : ∀ {c : Prop} [Decidable c], part ∈ (if c then [([] : List PathByte)] else []) →
      CleanPart part := by
    intro c _ h
    split at h
    · rw [List.mem_singleton.1 h]
      exact cleanPart_nil
    · exact absurd h List.not_mem_nil
  rcases hpart with (hpart | hpart) | hpart
  · exact hempty hpart
  · exact hempty hpart
  · split at hpart
    · rw [List.mem_singleton.1 hpart]
      exact cleanPart_nil
    · rcases List.mem_append.1 hpart with hpart | hpart
      · exact hnames part hpart
      · exact hempty hpart

theorem noEmptyPart_resultParts {trailingSlash : Bool} {names : List (List PathByte)}
    (hnames : [] ∉ names) : NoEmptyPart (resultParts false trailingSlash names) := by
  have hhead : names.head? ≠ some [] := fun h => hnames (List.mem_of_head? h)
  intro part hpart
  rintro rfl
  rw [resultParts, if_neg Bool.false_ne_true, if_neg hhead, List.nil_append, List.nil_append] at hpart
  split at hpart
  · exact absurd hpart List.not_mem_nil
  cases trailingSlash with
  | false =>
      rw [if_neg Bool.false_ne_true, List.append_nil] at hpart
      exact hnames (List.mem_of_mem_dropLast hpart)
  | true =>
      rw [if_pos rfl, List.dropLast_concat] at hpart
      exact hnames hpart

/-- Which results start with an empty part behind their root. -/
theorem startsEmpty_behindParts (twoSlashes trailingSlash : Bool) (names : List (List PathByte)) :
    startsEmpty (behindParts true (resultParts twoSlashes trailingSlash names)) = true ↔
      names.head? = some [] ∧ (twoSlashes = true ∨ trailingSlash = true ∨ 1 < names.length) := by
  rcases names with - | ⟨- | ⟨b, name⟩, - | ⟨next, names⟩⟩ <;>
    cases twoSlashes <;> cases trailingSlash <;>
      simp [resultParts, behindParts, startsEmpty]

theorem startsEmpty_behindParts_of_noEmptyPart {parts : List (List PathByte)} (h : NoEmptyPart parts) :
    startsEmpty (behindParts true parts) = false := by
  rcases parts with - | ⟨- | ⟨b, part⟩, - | ⟨next, parts⟩⟩
  · rfl
  · rfl
  · exact absurd rfl (h [] List.mem_cons_self)
  · rfl
  · rfl

/-- When clean parts are left as they are: where double slashes are allowed no empty part is behind the
root, and otherwise only the last part may be empty. -/
theorem sanitizeUrl_fixed_iff {sanitized : Utf8String} (allowDoubleSlashes : Bool)
    {parts : List (List PathByte)} (hbytes : sanitized.bytes = spell (rooted parts))
    (hparts : parts ≠ []) (hclean : ∀ p ∈ parts, CleanPart p) :
    sanitizeUrl sanitized allowDoubleSlashes = .ok sanitized ↔
      if allowDoubleSlashes then startsEmpty (behindParts true parts) = false else NoEmptyPart parts := by
  obtain ⟨again, hok, hagain⟩ := sanitizeUrl_rooted allowDoubleSlashes hbytes hparts hclean
  have hnames : ∀ name ∈ keptNames allowDoubleSlashes (behindParts allowDoubleSlashes parts),
      CleanPart name := fun name h => hclean name (mem_behindParts (mem_keptNames h).1)
  have hsame : sanitizeUrl sanitized allowDoubleSlashes = .ok sanitized ↔
      again.bytes = sanitized.bytes := by
    rw [hok]
    exact ⟨fun h => congrArg Utf8String.bytes (Except.ok.inj h), fun h => by rw [eq_of_bytes h]⟩
  rw [hsame, hagain, hbytes,
    spell_rooted_inj (resultParts_ne_nil _ _ _) hparts (cleanPart_resultParts hnames) hclean]
  cases allowDoubleSlashes with
  | true =>
      rw [resultParts_again true hparts (.inl rfl), if_pos rfl]
      split
      · rename_i hstarts
        refine iff_of_false (List.cons_ne_self _ _) ?_
        rw [hstarts.2]
        exact fun h => nomatch h
      · rename_i hstarts
        exact iff_of_true rfl (Bool.eq_false_iff.2 fun h => hstarts ⟨rfl, h⟩)
  | false =>
      rw [if_neg Bool.false_ne_true]
      constructor
      · intro h
        rw [← h]
        exact noEmptyPart_resultParts fun h => (mem_keptNames h).2 rfl rfl
      · intro htidy
        rw [resultParts_again false hparts (.inr htidy), if_neg fun h => Bool.false_ne_true h.1]

/-- Where double slashes are allowed, the sanitized path has an empty part in front of a slash. -/
def KeepsDoubleSlash (resource : Utf8String) : Prop :=
  ∃ path, readPath resource.bytes = some path ∧
    ¬ NoEmptyPart (resultParts (startsWithTwoSlashes resource.bytes) (endsWithSeparator path)
      (pathNames true path))

theorem readPath_asterisk {resource : Utf8String} {path : List PathByte}
    (hresource : resource.bytes = asciiBytes "*".toList ∨ resource.bytes = [])
    (hread : readPath resource.bytes = some path) : path = [.plain 0x2a] ∨ path = [] := by
  rcases hresource with hbytes | hbytes
  · rw [hbytes] at hread
    exact .inl (Option.some.inj hread).symm
  · rw [hbytes] at hread
    exact .inr (Option.some.inj hread).symm

/-- A sanitized path is left as it is by a second pass, be it with the same setting or with the other
one, unless double slashes were allowed at first: then the second pass may write one slash more, or take
double slashes away. -/
theorem sanitizeUrl_again_iff {resource sanitized : Utf8String} {first : Bool} (second : Bool)
    (hok : sanitizeUrl resource first = .ok sanitized) :
    sanitizeUrl sanitized second = .ok sanitized ↔
      (first = true → if second then ¬ GrowsAgain resource else ¬ KeepsDoubleSlash resource) := by
  by_cases hresource : resource.bytes = asciiBytes "*".toList ∨ resource.bytes = []
  · have hsame : ∀ allow, sanitizeUrl resource allow = .ok resource := by
      intro allow
      rw [sanitizeUrl, if_pos hresource]
    rw [hsame first] at hok
    rw [← Except.ok.inj hok]
    refine iff_of_true (hsame second) fun _ => ?_
    split
    · rintro ⟨path, hread, hhead, -⟩
      rcases readPath_asterisk hresource hread with rfl | rfl <;> exact absurd hhead (by decide)
    · rintro ⟨path, hread, hempty⟩
      refine hempty ?_
      have hstarts : startsWithTwoSlashes resource.bytes = false := by
        rcases hresource with hbytes | hbytes <;> rw [hbytes] <;> rfl
      rw [hstarts]
      apply noEmptyPart_resultParts
      rcases readPath_asterisk hresource hread with rfl | rfl <;> decide
  · have hspelled := sanitizeUrl_eq first hresource
    cases hread : readPath resource.bytes with
    | none =>
        rw [hread] at hspelled
        cases hok.symm.trans hspelled
    | some path =>
        obtain ⟨result, hresult, hbytes⟩ := sanitizeUrl_bytes first hresource hread
        rw [hok] at hresult
        rw [← Except.ok.inj hresult] at hbytes
        have hnames : ∀ name ∈ pathNames first path, CleanPart name :=
          fun name h => cleanPart_of_mem_pathNames (stable_of_readPath hread) h
        rw [sanitizeUrl_fixed_iff second hbytes (resultParts_ne_nil _ _ _) (cleanPart_resultParts hnames)]
        -- what is said of a path that is read is said of this one
        have hpath : ∀ {P : List PathByte → Prop},
            (∃ other, readPath resource.bytes = some other ∧ P other) ↔ P path := by
          intro P
          rw [hread]
          constructor
          · rintro ⟨other, hother, h⟩
            exact Option.some.inj hother ▸ h
          · exact fun h => ⟨path, rfl, h⟩
        cases first with
        | false =>
            -- without double slashes no name is empty, so the second time finds nothing to do
            have htidy : NoEmptyPart (resultParts (false && startsWithTwoSlashes resource.bytes)
                (endsWithSeparator path) (pathNames false path)) :=
              noEmptyPart_resultParts fun h => ne_nil_of_mem_pathNames h rfl
            refine iff_of_true ?_ (by intro h; cases h)
            split
            · exact startsEmpty_behindParts_of_noEmptyPart htidy
            · exact htidy
        | true =>
            rw [Bool.true_and]
            cases second with
            | true =>
                have hgrows : GrowsAgain resource ↔ _ := hpath
                rw [if_pos rfl, if_pos rfl, hgrows, ← startsEmpty_behindParts, Bool.not_eq_true]
                exact ⟨fun h _ => h, fun h => h rfl⟩
            | false =>
                have hkeeps : KeepsDoubleSlash resource ↔ _ := hpath
                rw [if_neg Bool.false_ne_true, if_neg Bool.false_ne_true, hkeeps, not_not]
                exact ⟨fun h _ => h, fun h => h rfl⟩

/-- A sanitized path is sanitized to itself, unless double slashes are allowed and the second pass
writes one slash more. -/
theorem sanitizeUrl_idempotent_iff (resource : Utf8String) (allowDoubleSlashes : Bool) :
    (∀ sanitized, sanitizeUrl resource allowDoubleSlashes = .ok sanitized →
      sanitizeUrl sanitized allowDoubleSlashes = .ok sanitized) ↔
        ¬ (allowDoubleSlashes = true ∧ GrowsAgain resource) := by
  cases hsanitized : sanitizeUrl resource allowDoubleSlashes with
  | error err =>
      refine iff_of_true (by intro _ h; cases h) ?_
      rintro ⟨-, path, hread, -⟩
      by_cases hresource : resource.bytes = asciiBytes "*".toList ∨ resource.bytes = []
      · rw [sanitizeUrl, if_pos hresource] at hsanitized
        cases hsanitized
      · have hspelled := sanitizeUrl_eq allowDoubleSlashes hresource
        rw [hread] at hspelled
        obtain ⟨sanitized, -, -, hok, -⟩ := hspelled
        cases hsanitized.symm.trans hok
  | ok sanitized =>
      have hagain := sanitizeUrl_again_iff allowDoubleSlashes hsanitized
      constructor
      · rintro h ⟨rfl, hgrows⟩
        have hnot := hagain.1 (h sanitized rfl) rfl
        rw [if_pos rfl] at hnot
        exact hnot hgrows
      · intro hnot result hresult
        rw [← Except.ok.inj hresult]
        refine hagain.2 fun hallow => ?_
        rw [if_pos hallow]
        exact fun hgrows => hnot ⟨hallow, hgrows⟩

/-- Three slashes before the name become four, and four become five. -/
theorem sanitizeUrl_threeSlashes :
    sanitizeUrl (.ofStr "///a".toList) true = .ok (.ofStr "////a".toList) ∧
      sanitizeUrl (.ofStr "////a".toList) true = .ok (.ofStr "/////a".toList) ∧
      sanitizeUrl (.ofStr "////a".toList) true ≠ .ok (.ofStr "////a".toList) := by
  have hthree : sanitizeUrl (.ofStr "///a".toList) true = .ok (.ofStr "////a".toList) := by
    have hread : readPath (Utf8String.ofStr "///a".toList).bytes =
        some [slashByte, slashByte, slashByte, .plain 0x61] := by decide
    obtain ⟨sanitized, hok, hbytes⟩ := sanitizeUrl_bytes true (by decide) hread
    rw [hok, eq_of_bytes (t := .ofStr "////a".toList) (hbytes.trans (by decide))]
  have hfour : sanitizeUrl (.ofStr "////a".toList) true = .ok (.ofStr "/////a".toList) := by
    have hread : readPath (Utf8String.ofStr "////a".toList).bytes =
        some [slashByte, slashByte, slashByte, slashByte, .plain 0x61] := by decide
    obtain ⟨sanitized, hok, hbytes⟩ := sanitizeUrl_bytes true (by decide) hread
    rw [hok, eq_of_bytes (t := .ofStr "/////a".toList) (hbytes.trans (by decide))]
  refine ⟨hthree, hfour, ?_⟩
  rw [hfour]
  intro h
  exact absurd (congrArg Utf8String.bytes (Except.ok.inj h)) (by decide)

end Ferron.Util.UrlSanitizer
