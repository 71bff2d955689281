import Ferron.Common.QValueHeader
import Ferron.Config.MatchCondition
import Ferron.Lib.DotSegments

/-!
# The chosen language

A language subcondition goes through the languages of the Accept-Language header by preference and takes
the first one that is `*` or acceptable: a listed language, the primary subtag of one, or a tag whose own
primary subtag is such. It then tests the language of the subcondition and its primary subtag for being
the entry that was taken. A regional entry that is acceptable through its own primary subtag only, such
as `de-AT` where `de` is listed, is taken but is no listed language, so no subcondition matches. In all
other cases a listed language matches (`chosenCovered_iff`), and what matches has the primary subtag of
the entry (`primarySubtag_of_matches`).

The header is parsed as in `QValueHeader` when the matcher has its floats (`parseQValueHeader_withFloats`).
-/

set_option autoImplicit false

namespace Ferron.Config.LanguageChoice

open Ferron.Common Ferron.Http

/-! ## Languages -/

/-- The first part of a language tag. -/
def primarySubtag (tag : Str) : Str := tag.takeWhile (· ≠ '-')

/-- The languages of a list. -/
def listed (languages : Str) : List Str := languages.splitOn ','

/-- The tag is a listed language or the primary subtag of one. -/
def Covered (languages tag : Str) : Prop :=
  ∃ language ∈ listed languages, tag = language ∨ tag = primarySubtag language

/-- The tag or its primary subtag is a listed language or the primary subtag of one. -/
def Acceptable (languages tag : Str) : Prop :=
  Covered languages tag ∨ Covered languages (primarySubtag tag)

instance (languages tag : Str) : Decidable (Covered languages tag) :=
  inferInstanceAs (Decidable (∃ _ ∈ _, _))

instance (languages tag : Str) : Decidable (Acceptable languages tag) :=
  inferInstanceAs (Decidable (_ ∨ _))

theorem beforeHyphen_eq_some_iff {tag text : Str} :
    beforeHyphen tag = some text ↔ '-' ∈ tag ∧ text = primarySubtag tag := by
  unfold beforeHyphen primarySubtag
  split
  · next hhyphen =>
      rw [List.contains_iff_mem] at hhyphen
      exact ⟨fun h => ⟨hhyphen, (Option.some.inj h).symm⟩, fun h => congrArg some h.2.symm⟩
  · next hnone =>
      rw [List.contains_iff_mem] at hnone
      exact ⟨fun h => absurd h (by simp), fun h => absurd h.1 hnone⟩

/-- A tag without a hyphen is its own primary subtag. -/
theorem primarySubtag_of_no_hyphen {tag : Str} (h : '-' ∉ tag) : primarySubtag tag = tag := by
  apply List.takeWhile_eq_self_iff.2
  rintro c hc
  exact decide_eq_true fun heq => h (heq ▸ hc)

theorem hyphen_notMem_primarySubtag (tag : Str) : '-' ∉ primarySubtag tag := by
  intro h
  unfold primarySubtag at h
  simpa using List.mem_takeWhile_imp h

@[simp] theorem primarySubtag_primarySubtag (tag : Str) :
    primarySubtag (primarySubtag tag) = primarySubtag tag :=
  primarySubtag_of_no_hyphen (hyphen_notMem_primarySubtag tag)

/-- The set of supported languages has the covered tags. -/
theorem mem_supportedLanguages_iff {languages tag : Str} :
    tag ∈ supportedLanguages languages ↔ Covered languages tag := by
  unfold supportedLanguages Covered listed
  rw [List.mem_flatMap]
  refine exists_congr fun language => and_congr_right fun _ => ?_
  rw [List.mem_cons, Option.mem_toList, beforeHyphen_eq_some_iff]
  constructor
  · rintro (h | ⟨-, h⟩)
    · exact Or.inl h
    · exact Or.inr h
  · rintro (h | h)
    · exact Or.inl h
    · by_cases hhyphen : '-' ∈ language
      · exact Or.inr ⟨hhyphen, h⟩
      · exact Or.inl (h.trans (primarySubtag_of_no_hyphen hhyphen))

/-! ## The choice -/

section Choice

variable (matcher : Matcher) (request : Parts) (socketData : SocketData)

/-- The languages of the Accept-Language header by preference. -/
def acceptedLanguages : List Str :=
  matcher.parseQValueHeader
    (((request.headers.get "accept-language".toList).bind toStr).getD ['*'])

/-- The first of these that is `*` or acceptable. -/
def chosenEntry (languages : Str) : Option Str :=
  (acceptedLanguages matcher request).find? fun entry =>
    decide (entry = ['*'] ∨ Acceptable languages entry)

/-- `is_language` is true for the language. -/
def IsLanguage (constants : HashMap Str Str) (language : Str) : Prop :=
  matchCondition matcher request socketData (.isLanguage language) constants = .ok (true, constants)

variable {matcher request socketData} {constants : HashMap Str Str} {languages : Str}

/-- The code looks for the chosen entry. -/
theorem find_supported_eq :
    ((acceptedLanguages matcher request).find? fun l =>
      l = ['*'] || (supportedLanguages languages).contains l ||
        (beforeHyphen l).any (supportedLanguages languages).contains) =
      chosenEntry matcher request languages := by
  unfold chosenEntry
  congr 1
  funext l
  rw [Bool.eq_iff_iff, decide_eq_true_iff, Bool.or_eq_true, Bool.or_eq_true, decide_eq_true_iff,
    List.contains_iff_mem, mem_supportedLanguages_iff, Option.any_eq_true, or_assoc]
  refine or_congr_right ?_
  unfold Acceptable
  constructor
  · rintro (h | ⟨tag, htag, h⟩)
    · exact Or.inl h
    · rw [List.contains_iff_mem, mem_supportedLanguages_iff] at h
      rw [(beforeHyphen_eq_some_iff.1 htag).2] at h
      exact Or.inr h
  · rintro (h | h)
    · exact Or.inl h
    · by_cases hhyphen : '-' ∈ l
      · refine Or.inr ⟨_, beforeHyphen_eq_some_iff.2 ⟨hhyphen, rfl⟩, ?_⟩
        rw [List.contains_iff_mem, mem_supportedLanguages_iff]
        exact h
      · rw [primarySubtag_of_no_hyphen hhyphen] at h
        exact Or.inl h

/-- A subcondition matches when its language or the primary subtag of it is the chosen entry. -/
theorem isLanguage_iff (hlanguages : constants.lookup "LANGUAGES".toList = some languages)
    {language : Str} :
    IsLanguage matcher request socketData constants language ↔
      ∃ entry, chosenEntry matcher request languages = some entry ∧
        (entry = language ∨ entry = primarySubtag language) := by
  have hmatches : IsLanguage matcher request socketData constants language ↔
      matchLanguage matcher request language constants = true := by
    unfold IsLanguage matchCondition conditionResult constantsAfter Except.map
    simp
  rw [hmatches, matchLanguage]
  rw [hlanguages, Option.map_some, Option.getD_some, ← acceptedLanguages, find_supported_eq]
  cases hchosen : chosenEntry matcher request languages with
  | none => simp
  | some entry =>
      simp only [Option.some.injEq, exists_eq_left', Bool.or_eq_true, decide_eq_true_eq,
        beforeHyphen_eq_some_iff]
      constructor
      · rintro (h | ⟨-, h⟩)
        · exact Or.inl h
        · exact Or.inr h
      · rintro (h | h)
        · exact Or.inl h
        · by_cases hhyphen : '-' ∈ language
          · exact Or.inr ⟨hhyphen, h⟩
          · exact Or.inl (h.trans (primarySubtag_of_no_hyphen hhyphen))

/-- A language that matches has the primary subtag of the chosen entry. -/
theorem primarySubtag_of_matches (hlanguages : constants.lookup "LANGUAGES".toList = some languages)
    {language entry : Str} (hchosen : chosenEntry matcher request languages = some entry)
    (h : IsLanguage matcher request socketData constants language) :
    primarySubtag language = primarySubtag entry := by
  obtain ⟨entry', hentry', heq⟩ := (isLanguage_iff hlanguages).1 h
  obtain rfl := Option.some.inj (hchosen.symm.trans hentry')
  rcases heq with rfl | rfl
  · rfl
  · exact (primarySubtag_primarySubtag language).symm

/-- A listed language matches when the chosen entry is covered. -/
theorem exists_matches_iff (hlanguages : constants.lookup "LANGUAGES".toList = some languages)
    {entry : Str} (hchosen : chosenEntry matcher request languages = some entry) :
    (∃ language ∈ listed languages, IsLanguage matcher request socketData constants language) ↔
      Covered languages entry := by
  refine exists_congr fun language => and_congr_right fun _ => ?_
  rw [isLanguage_iff hlanguages]
  simp [hchosen]

variable (matcher request socketData)

/-- When the chosen entry is not `*`, some listed language matches, and those that do have the primary
subtag of the entry. -/
def ChosenCovered (constants : HashMap Str Str) (languages : Str) : Prop :=
  ∀ entry, chosenEntry matcher request languages = some entry → entry ≠ ['*'] →
    (∃ language ∈ listed languages, IsLanguage matcher request socketData constants language) ∧
      ∀ language ∈ listed languages, IsLanguage matcher request socketData constants language →
        primarySubtag language = primarySubtag entry

/-- Some listed language matches, with the primary subtag of the chosen entry, exactly when the first
entry that is `*` or acceptable is `*`, a listed language or the primary subtag of one. -/
theorem chosenCovered_iff (hlanguages : constants.lookup "LANGUAGES".toList = some languages) :
    ChosenCovered matcher request socketData constants languages ↔
      ∀ entry, chosenEntry matcher request languages = some entry →
        entry = ['*'] ∨ Covered languages entry := by
  constructor
  · intro h entry hentry
    by_cases hstar : entry = ['*']
    · exact Or.inl hstar
    · exact Or.inr ((exists_matches_iff hlanguages hentry).1 (h entry hentry hstar).1)
  · intro h entry hentry hstar
    refine ⟨(exists_matches_iff hlanguages hentry).2 ((h entry hentry).resolve_left hstar), ?_⟩
    intro language _ hmatches
    exact primarySubtag_of_matches hlanguages hentry hmatches

end Choice

/-! ## Qualities -/

section Qualities

open QValueHeader

variable {Q : Type} (matcher : Matcher) (floats : Floats Q) (sort : List (Str × F32 Q) → List (Str × F32 Q))

/-- A matcher whose qualities are floats. -/
abbrev withFloats : Matcher :=
  { matcher with
    Quality := F32 Q
    zero := .number floats.zero
    one := .number floats.one
    parseQuality := floats.parse
    sortByQuality := sort }

/-- The text of a value and its quality. -/
def pairOf (value : HeaderValue Q) : Str × Option (withFloats matcher floats sort).Quality :=
  (value.value, value.qValue)

theorem valueFromStr_withFloats (s : Str) :
    (withFloats matcher floats sort).valueFromStr s =
      pairOf matcher floats sort (HeaderValue.fromStr floats s) := by
  unfold Matcher.valueFromStr HeaderValue.fromStr pairOf
  dsimp only
  rw [List.getElem?_take_of_lt Nat.one_lt_two]
  cases s.splitOn ';' <;> rfl

theorem fillQualities_withFloats (values : List (HeaderValue Q)) :
    (withFloats matcher floats sort).fillQualities (values.map (pairOf matcher floats sort)) =
      (firstQuality values, withQualities floats values) := by
  induction values with
  | nil => rfl
  | cons value values ih =>
      obtain ⟨text, quality⟩ := value
      rw [List.map_cons]
      cases quality with
      | none =>
          rw [pairOf, Matcher.fillQualities, ih]
          rfl
      | some quality =>
          rw [pairOf, Matcher.fillQualities, ih]
          rfl

/-- The header is read here as `QValueHeader` reads it, when its values are sorted as there. -/
theorem parseQValueHeader_withFloats [LinearOrder Q]
    {unspecified : List (HeaderValue Q) → Option (List (HeaderValue Q))} {header : Str}
    (hsort : sortSlice unspecified compareValues
        ((withQualities floats (headerValues floats header)).map HeaderValue.ofPair) =
      some ((sort (withQualities floats (headerValues floats header))).map HeaderValue.ofPair)) :
    parseQValueHeader floats unspecified header =
      some ((withFloats matcher floats sort).parseQValueHeader header) := by
  have hvalues : ((header.splitOn ',').map fun s =>
      (withFloats matcher floats sort).valueFromStr (Modules.Replace.trim s)) =
        (headerValues floats header).map (pairOf matcher floats sort) := by
    rw [headerValues, List.map_map]
    exact List.map_congr_left fun s _ => valueFromStr_withFloats matcher floats sort _
  have hfilled := congrArg Prod.snd
    (fillQualities_withFloats matcher floats sort (headerValues floats header))
  rw [parseQValueHeader, fillQValues_eq, hsort, Option.map_some, List.map_map,
    Matcher.parseQValueHeader, hvalues, hfilled]
  rfl

end Qualities

/-! ## Austrian German -/

/-- A request for a language. -/
def languageRequest (acceptLanguage : Str) : Parts :=
  { adminRequest with headers := [("accept-language".toList, asciiBytes acceptLanguage)] }

/-- `set_constant "LANGUAGES" "de,en"`. -/
def germanEnglish : HashMap Str Str := AList.insert "LANGUAGES".toList "de,en".toList ∅

/-- Where German is listed, `de-AT` is chosen, and no listed language matches. -/
theorem not_chosenCovered_deAT :
    ¬ChosenCovered literalMatcher (languageRequest "de-AT".toList) adminSocket germanEnglish
      "de,en".toList := by
  intro h
  obtain ⟨⟨language, hlisted, hmatches⟩, -⟩ := h "de-AT".toList rfl (by decide)
  obtain ⟨entry, hentry, heq⟩ := (isLanguage_iff rfl).1 hmatches
  obtain rfl : "de-AT".toList = entry := Option.some.inj hentry
  have hnone : ∀ language ∈ listed "de,en".toList,
      ¬("de-AT".toList = language ∨ "de-AT".toList = primarySubtag language) := by decide
  exact hnone language hlisted heq

/-- `de` is chosen as it is. -/
theorem chosenCovered_de :
    ChosenCovered literalMatcher (languageRequest "de".toList) adminSocket germanEnglish
      "de,en".toList := by
  refine (chosenCovered_iff literalMatcher _ adminSocket rfl).2 fun entry hentry => Or.inr ?_
  obtain rfl : "de".toList = entry := Option.some.inj hentry
  decide

end Ferron.Config.LanguageChoice
