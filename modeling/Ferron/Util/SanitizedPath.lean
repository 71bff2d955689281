import Ferron.Lib.DotSegments
import Ferron.Util.PathReading

/-!
# What the sanitizer makes of a path

On path bytes the phases of `sanitizeUrl` are told without the spelling of escapes: the path behind
its root is split at plain separators, trailing dots go, and the names that no `..` takes away are
left (`pathNames`).

`sanitizeUrl_eq` says that the result spells these names between slashes, and that it is never
ill-formed UTF-8.
-/

set_option autoImplicit false

namespace Ferron.Util.UrlSanitizer

open Ferron.Lib.DotSegments

/-! ## Names of a path -/

/-- A plain slash or backslash. -/
def PathByte.isSeparator : PathByte → Bool
  | plain byte => SegmentState.isSeparator byte
  | escape _ _ => false

/-- The segment of a part between separators, without its trailing dots. -/
def partSegment (part : List PathByte) : List (Segment (List PathByte)) :=
  if part = [dotByte] then []
  else if part = [dotByte, dotByte] then [.up]
  else if part.rdropWhile (· == dotByte) = [] then []
  else [.name (part.rdropWhile (· == dotByte))]

/-- The segments of the parts between separators. An empty part in front of a separator is a name
where double slashes are allowed. -/
def partSegments (allowDoubleSlashes : Bool) :
    List (List PathByte) → List (Segment (List PathByte))
  | [] => []
  | [part] => partSegment part
  | part :: parts =>
      (if part = [] then (if allowDoubleSlashes then [.name []] else []) else partSegment part) ++
        partSegments allowDoubleSlashes parts

/-- The path without a slash at its start. -/
def dropSlash (path : List PathByte) : List PathByte :=
  if path.head? = some slashByte then path.tail else path

/-- The path behind its root: one slash, or two where double slashes are allowed. -/
def behindRoot (allowDoubleSlashes : Bool) (path : List PathByte) : List PathByte :=
  if allowDoubleSlashes then dropSlash (dropSlash path) else dropSlash path

/-- The names of a path that no `..` behind them takes away. -/
def pathNames (allowDoubleSlashes : Bool) (path : List PathByte) : List (List PathByte) :=
  survivors (partSegments allowDoubleSlashes
    ((behindRoot allowDoubleSlashes path).splitOnP PathByte.isSeparator))

/-! ## Segments of bytes -/

/-- The segments that a part of the bytes leaves. -/
def bytePart (part : Bytes) : List Bytes :=
  if trimTrailingDots part = [] then [] else [trimTrailingDots part]

/-- The segments that the parts of the bytes leave. -/
def byteParts (allowDoubleSlashes : Bool) : List Bytes → List Bytes
  | [] => []
  | [part] => bytePart part
  | part :: parts =>
      (if part = [] then (if allowDoubleSlashes then [[]] else []) else bytePart part) ++
        byteParts allowDoubleSlashes parts

theorem endSegment_eq (segments : List Bytes) (current : Bytes) (lastWasSlash : Bool) :
    SegmentState.endSegment ⟨segments, current, lastWasSlash⟩ =
      ⟨segments ++ bytePart current, [], lastWasSlash⟩ := by
  rw [SegmentState.endSegment]
  by_cases hempty : current = []
  · rw [if_pos hempty, hempty]
    simp [bytePart, trimTrailingDots]
  · rw [if_neg hempty, bytePart]
    dsimp only
    by_cases htrimmed : trimTrailingDots current = []
    · simp [htrimmed]
    · simp [htrimmed]

theorem byteParts_cons (allowDoubleSlashes : Bool) (part : Bytes) {parts : List Bytes}
    (h : parts ≠ []) :
    byteParts allowDoubleSlashes (part :: parts) =
      (if part = [] then (if allowDoubleSlashes then [[]] else []) else bytePart part) ++
        byteParts allowDoubleSlashes parts := by
  rcases parts with - | ⟨next, parts⟩
  · exact absurd rfl h
  · rfl

/-- At a separator the current segment ends. It is empty when the last byte was a slash. -/
theorem next_separator (allowDoubleSlashes : Bool) (segments : List Bytes) (current : Bytes)
    {b : UInt8} (hb : SegmentState.isSeparator b = true) :
    SegmentState.next allowDoubleSlashes ⟨segments, current, current.isEmpty⟩ b =
      ⟨segments ++
        (if current = [] then (if allowDoubleSlashes then [[]] else []) else bytePart current),
        [], true⟩ := by
  rw [SegmentState.next, if_pos hb, endSegment_eq]
  cases current with
  | nil => cases allowDoubleSlashes <;> simp [bytePart, trimTrailingDots]
  | cons c current => simp

theorem next_other (allowDoubleSlashes : Bool) (segments : List Bytes) (current : Bytes)
    {b : UInt8} (hb : SegmentState.isSeparator b = false) :
    SegmentState.next allowDoubleSlashes ⟨segments, current, current.isEmpty⟩ b =
      ⟨segments, current ++ [b], (current ++ [b]).isEmpty⟩ := by
  rw [SegmentState.next, hb, if_neg Bool.false_ne_true]
  simp

/-- The loop leaves the segments of the parts. -/
theorem foldl_next (allowDoubleSlashes : Bool) (bytes : Bytes) (segments : List Bytes)
    (current : Bytes) (hcurrent : ∀ b ∈ current, SegmentState.isSeparator b = false) :
    (bytes.foldl (SegmentState.next allowDoubleSlashes)
        ⟨segments, current, current.isEmpty⟩).endSegment.segments =
      segments ++ byteParts allowDoubleSlashes
        ((current ++ bytes).splitOnP SegmentState.isSeparator) := by
  induction bytes generalizing segments current with
  | nil =>
      rw [List.append_nil, List.splitOnP_eq_singleton hcurrent, List.foldl_nil, endSegment_eq]
      rfl
  | cons b bytes ih =>
      rw [List.foldl_cons]
      cases hb : SegmentState.isSeparator b with
      | true =>
          rw [next_separator allowDoubleSlashes segments current hb,
            List.splitOnP_append_cons_of_forall_mem hcurrent b hb,
            byteParts_cons _ _ (List.splitOnP_ne_nil _ _), ← List.append_assoc]
          exact ih _ [] fun _ h => absurd h List.not_mem_nil
      | false =>
          have hnext : ∀ c ∈ current ++ [b], SegmentState.isSeparator c = false := by
            intro c hc
            rcases List.mem_append.1 hc with hc | hc
            · exact hcurrent c hc
            · rw [List.mem_singleton.1 hc]
              exact hb
          have hstep := ih segments (current ++ [b]) hnext
          rw [List.append_assoc, List.singleton_append] at hstep
          rw [next_other allowDoubleSlashes segments current hb]
          exact hstep

/-- The segments are those of the parts between separators. -/
theorem buildSegments_eq (allowDoubleSlashes : Bool) (bytes : Bytes) :
    buildSegments allowDoubleSlashes bytes =
      byteParts allowDoubleSlashes (bytes.splitOnP SegmentState.isSeparator) :=
  foldl_next allowDoubleSlashes bytes [] [] fun _ h => absurd h List.not_mem_nil

/-! ## From path bytes to bytes -/

theorem spell_eq_nil_iff {path : List PathByte} : spell path = [] ↔ path = [] := by
  rcases path with - | ⟨b, path⟩
  · simp
  · cases b <;> simp [PathByte.spell]

/-- The spelling starts with a plain byte other than a percent sign only when the path does. -/
theorem spell_eq_cons_iff {path : List PathByte} {b : UInt8} {bytes : Bytes} (hb : b ≠ percent) :
    spell path = b :: bytes ↔ ∃ rest, path = .plain b :: rest ∧ spell rest = bytes := by
  rcases path with - | ⟨c, path⟩
  · simp
  · cases c with
    | plain c => simp [PathByte.spell, and_assoc]
    | escape hi lo =>
        simp only [spell_cons, PathByte.spell, List.cons_append, List.cons.injEq, reduceCtorEq,
          false_and, exists_false, iff_false]
        rintro ⟨rfl, -⟩
        exact hb rfl

theorem spell_eq_dot_iff {path : List PathByte} : spell path = [dot] ↔ path = [dotByte] := by
  rw [spell_eq_cons_iff (by decide)]
  constructor
  · rintro ⟨rest, rfl, hrest⟩
    rw [spell_eq_nil_iff.1 hrest]
    rfl
  · rintro rfl
    exact ⟨[], rfl, rfl⟩

theorem spell_eq_dot_dot_iff {path : List PathByte} :
    spell path = [dot, dot] ↔ path = [dotByte, dotByte] := by
  rw [spell_eq_cons_iff (by decide)]
  constructor
  · rintro ⟨rest, rfl, hrest⟩
    rw [spell_eq_dot_iff.1 hrest]
    rfl
  · rintro rfl
    exact ⟨[dotByte], rfl, rfl⟩

/-- The digits of an escape are no dots, so trailing dots are plain. -/
theorem rdropWhile_spell {path : List PathByte} (hkept : ∀ b ∈ path, b.Kept) :
    (spell path).rdropWhile (· == dot) = spell (path.rdropWhile (· == dotByte)) := by
  induction path using List.reverseRecOn with
  | nil => rfl
  | append_singleton path b ih =>
      have ih := ih fun c hc => hkept c (List.mem_append_left _ hc)
      have hb := hkept b (by simp)
      cases b with
      | plain c =>
          have hspell : spell (path ++ [.plain c]) = spell path ++ [c] := by simp [PathByte.spell]
          rw [hspell, List.rdropWhile_concat, List.rdropWhile_concat, ih]
          by_cases hc : c = dot
          · simp [hc, dotByte]
          · simp [hc, dotByte, PathByte.spell]
      | escape hi lo =>
          have hlo : lo ≠ dot := by
            rintro rfl
            exact absurd hb.2.1 (by decide)
          have hspell : spell (path ++ [.escape hi lo]) = spell path ++ [percent, hi] ++ [lo] := by
            simp [PathByte.spell]
          rw [hspell, List.rdropWhile_concat, List.rdropWhile_concat]
          simp [hlo, dotByte, PathByte.spell]

/-- A name does not end with a dot. -/
theorem rdropWhile_ne_dots (part : List PathByte) :
    part.rdropWhile (· == dotByte) ≠ [dotByte] ∧
      part.rdropWhile (· == dotByte) ≠ [dotByte, dotByte] := by
  have hlast := List.rdropWhile_last_not (· == dotByte) part
  constructor
  · intro h
    exact hlast (by rw [h]; simp) (by simp [h])
  · intro h
    exact hlast (by rw [h]; simp) (by simp [h])

theorem trimTrailingDots_spell {part : List PathByte} (hkept : ∀ b ∈ part, b.Kept)
    (hdot : part ≠ [dotByte]) (hup : part ≠ [dotByte, dotByte]) :
    trimTrailingDots (spell part) = spell (part.rdropWhile (· == dotByte)) := by
  rw [trimTrailingDots, if_pos, rdropWhile_spell hkept]
  exact ⟨fun h => hdot (spell_eq_dot_iff.1 h), fun h => hup (spell_eq_dot_dot_iff.1 h)⟩

/-- Processing what a part leaves resolves its segment. -/
theorem foldl_bytePart (allowDoubleSlashes : Bool) {part : List PathByte}
    (hkept : ∀ b ∈ part, b.Kept) (stack : List (List PathByte)) :
    (bytePart (spell part)).foldl (processSegment allowDoubleSlashes) (stack.map spell) =
      ((partSegment part).foldl step stack).map spell := by
  rw [partSegment]
  by_cases hdot : part = [dotByte]
  · rw [if_pos hdot, hdot]
    rfl
  by_cases hup : part = [dotByte, dotByte]
  · rw [if_neg hdot, if_pos hup, hup]
    change (stack.map spell).dropLast = (stack.dropLast).map spell
    rw [List.map_dropLast]
  rw [if_neg hdot, if_neg hup, bytePart, trimTrailingDots_spell hkept hdot hup]
  by_cases hname : part.rdropWhile (· == dotByte) = []
  · rw [hname]
    rfl
  · have hspell : spell (part.rdropWhile (· == dotByte)) ≠ [] := fun h =>
      hname (spell_eq_nil_iff.1 h)
    have hdots := rdropWhile_ne_dots part
    rw [if_neg hspell, if_neg hname, List.foldl_cons, List.foldl_nil, List.foldl_cons,
      List.foldl_nil, processSegment, if_neg (by simp [hspell]),
      if_neg fun h => hdots.1 (spell_eq_dot_iff.1 h),
      if_neg fun h => hdots.2 (spell_eq_dot_dot_iff.1 h), if_neg (by simp [hspell]), step,
      List.map_append]
    rfl

theorem partSegments_cons (allowDoubleSlashes : Bool) (part : List PathByte)
    {parts : List (List PathByte)} (h : parts ≠ []) :
    partSegments allowDoubleSlashes (part :: parts) =
      (if part = [] then (if allowDoubleSlashes then [.name []] else []) else partSegment part) ++
        partSegments allowDoubleSlashes parts := by
  rcases parts with - | ⟨next, parts⟩
  · exact absurd rfl h
  · rfl

/-- Processing what the parts leave resolves their segments. -/
theorem foldl_byteParts (allowDoubleSlashes : Bool) (parts : List (List PathByte))
    (hkept : ∀ part ∈ parts, ∀ b ∈ part, b.Kept) (stack : List (List PathByte)) :
    (byteParts allowDoubleSlashes (parts.map spell)).foldl (processSegment allowDoubleSlashes)
        (stack.map spell) =
      ((partSegments allowDoubleSlashes parts).foldl step stack).map spell := by
  induction parts generalizing stack with
  | nil => rfl
  | cons part parts ih =>
      by_cases hlast : parts = []
      · rw [hlast]
        exact foldl_bytePart allowDoubleSlashes (hkept part List.mem_cons_self) stack
      · have hmap : parts.map spell ≠ [] := by simp [hlast]
        rw [List.map_cons, byteParts_cons _ _ hmap, partSegments_cons _ _ hlast,
          List.foldl_append, List.foldl_append,
          ← ih fun part' hpart => hkept part' (List.mem_cons_of_mem _ hpart)]
        congr 1
        by_cases hempty : part = []
        · subst hempty
          cases allowDoubleSlashes <;> simp [processSegment, step]
        · rw [if_neg fun h => hempty (spell_eq_nil_iff.1 h), if_neg hempty]
          exact foldl_bytePart allowDoubleSlashes (hkept part List.mem_cons_self) stack

/-- The parts of the spelling are the spellings of the parts. -/
theorem splitOnP_spell {path : List PathByte} (hkept : ∀ b ∈ path, b.Kept) :
    (spell path).splitOnP SegmentState.isSeparator =
      (path.splitOnP PathByte.isSeparator).map spell := by
  apply splitOnP_flatMap
  · intro b _ hsep
    cases b with
    | plain c => exact ⟨c, rfl, hsep⟩
    | escape hi lo => exact absurd hsep Bool.false_ne_true
  · intro b hb hsep c hc
    cases b with
    | plain d =>
        rw [List.mem_singleton.1 hc]
        exact hsep
    | escape hi lo =>
        have hdigit : ∀ d, isAsciiHexdigit d = true → SegmentState.isSeparator d = false := by
          intro d hd
          rw [SegmentState.isSeparator, Bool.or_eq_false_iff, beq_eq_false_iff_ne,
            beq_eq_false_iff_ne]
          constructor
          · rintro rfl
            exact absurd hd (by decide)
          · rintro rfl
            exact absurd hd (by decide)
        have hkeptb := hkept _ hb
        simp only [PathByte.spell, List.mem_cons, List.not_mem_nil, or_false] at hc
        rcases hc with rfl | rfl | rfl
        · decide
        · exact hdigit _ hkeptb.1
        · exact hdigit _ hkeptb.2.1

/-- The final segments spell the names of the path. -/
theorem finalSegments_eq (allowDoubleSlashes : Bool) {path : List PathByte}
    (hkept : ∀ b ∈ behindRoot allowDoubleSlashes path, b.Kept) :
    (buildSegments allowDoubleSlashes (spell (behindRoot allowDoubleSlashes path))).foldl
        (processSegment allowDoubleSlashes) [] =
      (pathNames allowDoubleSlashes path).map spell := by
  have hparts : ∀ part ∈ (behindRoot allowDoubleSlashes path).splitOnP PathByte.isSeparator,
      ∀ b ∈ part, b.Kept := fun part hpart b hb => hkept b (mem_of_mem_splitOnP hpart hb)
  rw [buildSegments_eq, splitOnP_spell hkept]
  have hfold := foldl_byteParts allowDoubleSlashes _ hparts []
  rw [List.map_nil] at hfold
  rw [hfold, foldl_step, List.rdrop_nil, List.nil_append]
  rfl

/-! ## The result -/

/-- A path that starts with two slashes is read so. -/
theorem readPath_two_slashes {bytes : Bytes} {path : List PathByte}
    (hbytes : startsWithTwoSlashes bytes = true) (h : readPath bytes = some path) :
    ∃ rest, path = slashByte :: slashByte :: rest := by
  obtain ⟨rest, rfl⟩ := List.isPrefixOf_iff_prefix.1 hbytes
  have hslash : ∀ bytes, readPath (slash :: bytes) =
      (readPath bytes).map fun path => slashByte :: path := by
    intro bytes
    rw [readPath.eq_def]
    dsimp only
    rw [if_neg (by decide), if_neg (by decide)]
    rfl
  change readPath (slash :: slash :: rest) = some path at h
  rw [hslash, hslash, Option.map_map] at h
  obtain ⟨inner, -, rfl⟩ := Option.map_eq_some_iff.1 h
  exact ⟨inner, rfl⟩

/-- The result with its leading slash spells the path, or the path behind a slash. -/
theorem ensureLeadingSlash_spell (allowDoubleSlashes : Bool) {bytes : Bytes}
    {path : List PathByte} (h : readPath bytes = some path) :
    ensureLeadingSlash allowDoubleSlashes bytes (spell path) =
      spell (if path.head? = some slashByte then path else slashByte :: path) := by
  rcases path with - | ⟨b, path⟩
  · rfl
  · cases b with
    | escape hi lo => rfl
    | plain b =>
        by_cases hb : b = slash
        · subst hb
          change ensureLeadingSlash allowDoubleSlashes bytes (slash :: spell path) =
            slash :: spell path
          rw [ensureLeadingSlash.eq_def]
          dsimp only
          rw [if_neg (not_not.2 rfl)]
          by_cases hdouble : (allowDoubleSlashes && startsWithTwoSlashes bytes) = true
          · obtain ⟨rest, hrest⟩ := readPath_two_slashes (Bool.and_eq_true_iff.1 hdouble).2 h
            rw [if_pos hdouble, (List.cons.inj hrest).2]
            rfl
          · rw [if_neg hdouble]
        · have hhead : (PathByte.plain b :: path).head? ≠ some slashByte := by
            simp [slashByte, hb]
          rw [if_neg hhead]
          change ensureLeadingSlash allowDoubleSlashes bytes (b :: spell path) =
            slash :: b :: spell path
          rw [ensureLeadingSlash.eq_def]
          dsimp only
          rw [if_pos hb]

/-- The loop starts behind the root. -/
theorem drop_ensureLeadingSlash (allowDoubleSlashes : Bool) {bytes : Bytes}
    {path : List PathByte} (h : readPath bytes = some path) :
    (if allowDoubleSlashes &&
        startsWithTwoSlashes (ensureLeadingSlash allowDoubleSlashes bytes (spell path)) then
      (ensureLeadingSlash allowDoubleSlashes bytes (spell path)).drop 2
    else (ensureLeadingSlash allowDoubleSlashes bytes (spell path)).drop 1) =
      spell (behindRoot allowDoubleSlashes path) := by
  rw [ensureLeadingSlash_spell allowDoubleSlashes h, behindRoot]
  have hrooted : ∃ rest, (if path.head? = some slashByte then path else slashByte :: path) =
      slashByte :: rest ∧ dropSlash path = rest := by
    rcases path with - | ⟨b, path⟩
    · exact ⟨[], rfl, rfl⟩
    · by_cases hb : b = slashByte
      · subst hb
        exact ⟨path, rfl, rfl⟩
      · have hhead : (b :: path).head? ≠ some slashByte := by simp [hb]
        exact ⟨b :: path, by rw [if_neg hhead], by rw [dropSlash, if_neg hhead]⟩
  obtain ⟨rest, hpath, hdrop⟩ := hrooted
  rw [hpath, hdrop]
  change (if allowDoubleSlashes && startsWithTwoSlashes (slash :: spell rest) then
    (slash :: spell rest).drop 2 else spell rest) = _
  cases allowDoubleSlashes with
  | false => rfl
  | true =>
      rw [Bool.true_and, if_pos rfl, dropSlash]
      by_cases hsecond : rest.head? = some slashByte
      · obtain ⟨rest', rfl⟩ := List.head?_eq_some_iff.1 hsecond
        rfl
      · have hone : startsWithTwoSlashes (slash :: spell rest) = false := by
          rw [startsWithTwoSlashes, Bool.eq_false_iff, ne_eq, List.isPrefixOf_iff_prefix]
          rintro ⟨bytes', hbytes⟩
          obtain ⟨rest', hrest, -⟩ := (spell_eq_cons_iff (by decide)).1
            (List.cons.inj hbytes).2.symm
          exact hsecond (by rw [hrest]; rfl)
        rw [hone, if_neg hsecond]
        rfl

/-- Slashes that stand in a row. -/
def slashes (n : Nat) : List PathByte := List.replicate n slashByte

/-- Every segment but the first one stands behind one slash. -/
theorem flatMap_zipIdx_spell (allowDoubleSlashes : Bool) (names : List (List PathByte)) (n : Nat) :
    (((names.map spell).zipIdx (n + 1)).flatMap fun (segment, idx) =>
      (if 0 < idx || (allowDoubleSlashes && segment.isEmpty) then [slash] else []) ++ segment) =
      spell (names.flatMap (slashByte :: ·)) := by
  induction names generalizing n with
  | nil => rfl
  | cons name names ih =>
      rw [List.map_cons, List.zipIdx_cons, List.flatMap_cons, ih, List.flatMap_cons, spell_append]
      simp [slashByte, PathByte.spell]

/-- The final result spells the names, each behind a slash, between slashes. -/
theorem buildResult_spell (allowDoubleSlashes : Bool) (bytes result : Bytes)
    (names : List (List PathByte)) :
    ∃ n m, buildResult allowDoubleSlashes bytes result (names.map spell) =
      spell (slashes n ++ names.flatMap (slashByte :: ·) ++ slashes m) := by
  have htrailing : ∀ b : Bool, ∃ m, (if b = true then [slash] else []) = spell (slashes m) := by
    intro b
    cases b
    · exact ⟨0, rfl⟩
    · exact ⟨1, rfl⟩
  obtain ⟨m, hm⟩ := htrailing ((result.getLast? == some slash || result.getLast? == some backslash)
    && !(names.map spell).isEmpty)
  obtain ⟨n, hn⟩ : ∃ n, (if allowDoubleSlashes && startsWithTwoSlashes bytes then [slash, slash]
      else [slash]) = spell (slashes (n + 1)) := by
    split
    · exact ⟨1, rfl⟩
    · exact ⟨0, rfl⟩
  rw [buildResult]
  dsimp only
  rw [hm, hn]
  rcases names with - | ⟨name, names⟩
  · exact ⟨n + 1, m, by simp⟩
  · rw [List.map_cons, List.zipIdx_cons, List.flatMap_cons,
      flatMap_zipIdx_spell allowDoubleSlashes names 0]
    by_cases hempty : (allowDoubleSlashes && (spell name).isEmpty) = true
    · refine ⟨n + 1, m, ?_⟩
      simp [hempty, slashByte, PathByte.spell]
    · refine ⟨n, m, ?_⟩
      simp [hempty, slashes, List.replicate_succ', slashByte, PathByte.spell]

/-! ## What a name is made of -/

/-- A name is empty or a part without its trailing dots. -/
theorem eq_of_name_mem_partSegments {allowDoubleSlashes : Bool} {name : List PathByte}
    {parts : List (List PathByte)}
    (h : Segment.name name ∈ partSegments allowDoubleSlashes parts) :
    name = [] ∨ ∃ part ∈ parts, name = part.rdropWhile (· == dotByte) := by
  have hpart : ∀ part, Segment.name name ∈ partSegment part →
      name = part.rdropWhile (· == dotByte) := by
    intro part hmem
    unfold partSegment at hmem
    split at hmem
    · exact absurd hmem List.not_mem_nil
    split at hmem
    · simp at hmem
    split at hmem
    · exact absurd hmem List.not_mem_nil
    · simpa using hmem
  induction parts with
  | nil => exact absurd h List.not_mem_nil
  | cons part parts ih =>
      by_cases hlast : parts = []
      · subst hlast
        exact Or.inr ⟨part, List.mem_cons_self, hpart part h⟩
      · rw [partSegments_cons _ _ hlast, List.mem_append] at h
        rcases h with h | h
        · split at h
          · split at h
            · left
              simpa using h
            · exact absurd h List.not_mem_nil
          · exact Or.inr ⟨part, List.mem_cons_self, hpart part h⟩
        · rcases ih h with hempty | ⟨part', hpart', hname⟩
          · exact Or.inl hempty
          · exact Or.inr ⟨part', List.mem_cons_of_mem _ hpart', hname⟩

theorem mem_of_mem_dropSlash {path : List PathByte} {b : PathByte} (h : b ∈ dropSlash path) :
    b ∈ path := by
  rw [dropSlash] at h
  split at h
  · exact List.mem_of_mem_tail h
  · exact h

theorem mem_of_mem_behindRoot {allowDoubleSlashes : Bool} {path : List PathByte} {b : PathByte}
    (h : b ∈ behindRoot allowDoubleSlashes path) : b ∈ path := by
  rw [behindRoot] at h
  split at h
  · exact mem_of_mem_dropSlash (mem_of_mem_dropSlash h)
  · exact mem_of_mem_dropSlash h

/-- A name is empty or comes from a part of the path behind the root. -/
theorem eq_of_mem_pathNames {allowDoubleSlashes : Bool} {path name : List PathByte}
    (h : name ∈ pathNames allowDoubleSlashes path) :
    name = [] ∨ ∃ part ∈ (behindRoot allowDoubleSlashes path).splitOnP PathByte.isSeparator,
      name = part.rdropWhile (· == dotByte) :=
  eq_of_name_mem_partSegments (mem_of_mem_survivors h)

/-- A name has path bytes of the path only, and no separator. -/
theorem mem_name {allowDoubleSlashes : Bool} {path name : List PathByte}
    (h : name ∈ pathNames allowDoubleSlashes path) {b : PathByte} (hb : b ∈ name) :
    b ∈ path ∧ b.isSeparator = false := by
  rcases eq_of_mem_pathNames h with rfl | ⟨part, hpart, rfl⟩
  · exact absurd hb List.not_mem_nil
  · have hbpart := (List.rdropWhile_prefix _ _).subset hb
    exact ⟨mem_of_mem_behindRoot (mem_of_mem_splitOnP hpart hbpart),
      not_sep_of_mem_splitOnP hpart hbpart⟩

/-! ## UTF-8 -/

/-- The parts of UTF-8 between ASCII separators are UTF-8. -/
theorem isUtf8_of_mem_splitOnP {bytes front part : Bytes}
    (hfront : ∀ b ∈ front, SegmentState.isSeparator b = false) (hutf8 : IsUtf8 (front ++ bytes))
    (hpart : part ∈ (front ++ bytes).splitOnP SegmentState.isSeparator) : IsUtf8 part := by
  induction bytes generalizing front with
  | nil =>
      rw [List.append_nil] at hutf8 hpart
      rw [List.splitOnP_eq_singleton hfront, List.mem_singleton] at hpart
      rw [hpart]
      exact hutf8
  | cons b bytes ih =>
      cases hb : SegmentState.isSeparator b with
      | true =>
          have hascii : IsAscii b := by
            rw [SegmentState.isSeparator, Bool.or_eq_true, beq_iff_eq, beq_iff_eq] at hb
            rcases hb with rfl | rfl <;> decide
          obtain ⟨hfrontutf8, hbytes⟩ := hutf8.of_append_cons hascii
          rw [List.splitOnP_append_cons_of_forall_mem hfront b hb] at hpart
          rcases List.mem_cons.1 hpart with rfl | hpart
          · exact hfrontutf8
          · exact ih (fun _ h => absurd h List.not_mem_nil) hbytes hpart
      | false =>
          rw [List.append_cons] at hutf8 hpart
          apply ih _ hutf8 hpart
          intro c hc
          rcases List.mem_append.1 hc with hc | hc
          · exact hfront c hc
          · rw [List.mem_singleton.1 hc]
            exact hb

/-- Trailing dots can be cut off UTF-8. -/
theorem isUtf8_rdropWhile {bytes : Bytes} (h : IsUtf8 bytes) :
    IsUtf8 (bytes.rdropWhile (· == dot)) := by
  induction bytes using List.reverseRecOn with
  | nil => exact h
  | append_singleton bytes b ih =>
      rw [List.rdropWhile_concat]
      split
      · rename_i hb
        rw [beq_iff_eq] at hb
        exact ih (h.of_append_cons (by rw [hb]; decide)).1
      · exact h

theorem isUtf8_dropSlash {path : List PathByte} (h : IsUtf8 (spell path)) :
    IsUtf8 (spell (dropSlash path)) := by
  rw [dropSlash]
  split
  · rename_i hhead
    obtain ⟨rest, rfl⟩ := List.head?_eq_some_iff.1 hhead
    have hcut : IsUtf8 ([] ++ slash :: spell rest) := h
    exact (hcut.of_append_cons (by decide)).2
  · exact h

/-- The names of a path in UTF-8 are UTF-8. -/
theorem isUtf8_spell_name {allowDoubleSlashes : Bool} {path name : List PathByte}
    (hkept : ∀ b ∈ path, b.Kept) (hutf8 : IsUtf8 (spell path))
    (h : name ∈ pathNames allowDoubleSlashes path) : IsUtf8 (spell name) := by
  have hroot : IsUtf8 (spell (behindRoot allowDoubleSlashes path)) := by
    rw [behindRoot]
    split
    · exact isUtf8_dropSlash (isUtf8_dropSlash hutf8)
    · exact isUtf8_dropSlash hutf8
  have hkeptroot : ∀ b ∈ behindRoot allowDoubleSlashes path, b.Kept :=
    fun b hb => hkept b (mem_of_mem_behindRoot hb)
  rcases eq_of_mem_pathNames h with rfl | ⟨part, hpart, rfl⟩
  · exact isUtf8_nil
  · rw [← rdropWhile_spell fun b hb => hkeptroot b (mem_of_mem_splitOnP hpart hb)]
    apply isUtf8_rdropWhile
    have hmem : spell part ∈ (spell (behindRoot allowDoubleSlashes path)).splitOnP
        SegmentState.isSeparator := by
      rw [splitOnP_spell hkeptroot]
      exact List.mem_map_of_mem hpart
    exact isUtf8_of_mem_splitOnP (fun _ h => absurd h List.not_mem_nil) hroot hmem

/-- Names in UTF-8 between slashes are UTF-8. -/
theorem isUtf8_joined {names : List (List PathByte)} (h : ∀ name ∈ names, IsUtf8 (spell name))
    (n m : Nat) : IsUtf8 (spell (slashes n ++ names.flatMap (slashByte :: ·) ++ slashes m)) := by
  have hslashes : ∀ k, IsUtf8 (spell (slashes k)) := by
    intro k
    apply isUtf8_ascii
    intro b hb
    obtain ⟨c, hc, hbc⟩ := List.mem_flatMap.1 hb
    rw [List.eq_of_mem_replicate hc] at hbc
    rw [List.mem_singleton.1 hbc]
    decide
  have hnames : IsUtf8 (spell (names.flatMap (slashByte :: ·))) := by
    induction names with
    | nil => exact isUtf8_nil
    | cons name names ih =>
        rw [List.flatMap_cons, spell_append]
        have hslash : IsUtf8 [slash] := hslashes 1
        exact (hslash.append (h name List.mem_cons_self)).append
          (ih fun name' hname' => h name' (List.mem_cons_of_mem _ hname'))
  rw [spell_append, spell_append]
  exact ((hslashes n).append hnames).append (hslashes m)

/-- The sanitizer fails exactly on malformed escapes, and otherwise the result spells the names of the
path. -/
theorem sanitizeUrl_eq {resource : Utf8String} (allowDoubleSlashes : Bool)
    (hresource : ¬ (resource.bytes = asciiBytes "*".toList ∨ resource.bytes = [])) :
    match readPath resource.bytes with
    | none => sanitizeUrl resource allowDoubleSlashes = .error "URI malformed"
    | some path => ∃ sanitized n m, sanitizeUrl resource allowDoubleSlashes = .ok sanitized ∧
        sanitized.bytes = spell (slashes n ++
          (pathNames allowDoubleSlashes path).flatMap (slashByte :: ·) ++ slashes m) := by
  rw [sanitizeUrl, if_neg hresource, decodePass_eq]
  cases hread : readPath resource.bytes with
  | none => rfl
  | some path =>
      dsimp only
      have hkept := kept_of_readPath hread
      have hutf8 : IsUtf8 ([] ++ spell path) := isUtf8_spell_readPath hread resource.isUtf8
      obtain ⟨n, m, hresult⟩ := buildResult_spell allowDoubleSlashes resource.bytes
        (ensureLeadingSlash allowDoubleSlashes resource.bytes (spell path))
        (pathNames allowDoubleSlashes path)
      have hnames := isUtf8_joined (fun name hname =>
        @isUtf8_spell_name allowDoubleSlashes path name hkept hutf8 hname) n m
      rw [drop_ensureLeadingSlash allowDoubleSlashes hread,
        finalSegments_eq allowDoubleSlashes fun b hb => hkept b (mem_of_mem_behindRoot hb),
        hresult, Utf8String.fromUtf8, dif_pos hnames]
      exact ⟨_, n, m, rfl, rfl⟩

end Ferron.Util.UrlSanitizer
