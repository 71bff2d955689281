import Ferron.Rust.Text
import Ferron.Lib.Occurrence
import Mathlib.Data.List.DropRight

/-!
# Location matching

`matchLocation` decides whether a request path lies under the prefix of a `location` block. Both
strings are meant to have runs of slashes collapsed first, but the loop over the request path
assigns the prepared prefix to it: a request path with a double slash becomes the prefix itself and
matches every location (`matchLocation_of_contains`).

The reference is `UnderLocation`, prefix matching on segment boundaries. The function agrees with it
exactly on the request paths without a double slash and on those that lie under the prefix anyway
(`matchLocation_eq_iff`).
-/

set_option autoImplicit false

namespace Ferron.Common.MatchLocation

open Ferron.Lib.Occurrence

/-- `contains("//")`. -/
def containsDoubleSlash (s : Str) : Bool := contains ['/', '/'] s

/-- `replace("//", "/")`. -/
def replaceDoubleSlash (s : Str) : Str := replaceAll ['/', '/'] ['/'] s

/-- Collapses runs of slashes to one slash. `afterSlash` tells that the last character kept is a
slash. -/
def collapseFrom : Bool → Str → Str
  | _, [] => []
  | afterSlash, c :: cs =>
      if c = '/' then if afterSlash then collapseFrom true cs else '/' :: collapseFrom true cs
      else c :: collapseFrom false cs

/-- The string with runs of slashes collapsed. -/
def collapseRuns (s : Str) : Str := collapseFrom false s

/-! ## Double slashes -/

theorem containsDoubleSlash_iff (s : Str) : containsDoubleSlash s = true ↔ ['/', '/'] <:+: s :=
  contains_iff_infix _ s

@[simp] theorem replaceDoubleSlash_double (s : Str) :
    replaceDoubleSlash ('/' :: '/' :: s) = '/' :: replaceDoubleSlash s := by
  simp [replaceDoubleSlash, replaceAll, replaceFrom]

theorem replaceDoubleSlash_cons_of_ne {c d : Char} (s : Str) (h : ¬ (c = '/' ∧ d = '/')) :
    replaceDoubleSlash (c :: d :: s) = c :: replaceDoubleSlash (d :: s) := by
  refine replaceAll_cons_of_not_prefix _ ?_
  rintro ⟨t, ht⟩
  simp only [List.cons_append, List.nil_append, List.cons.injEq] at ht
  exact h ⟨ht.1.symm, ht.2.1.symm⟩

@[simp] theorem replaceDoubleSlash_singleton (c : Char) : replaceDoubleSlash [c] = [c] := by
  refine replaceAll_cons_of_not_prefix _ ?_
  rintro ⟨t, ht⟩
  simp at ht

/-- One pass of replacement does not change the collapsed string. -/
theorem collapseFrom_replaceDoubleSlash : ∀ (afterSlash : Bool) (s : Str),
    collapseFrom afterSlash (replaceDoubleSlash s) = collapseFrom afterSlash s
  | _, [] => rfl
  | _, [_] => by rw [replaceDoubleSlash_singleton]
  | afterSlash, c :: d :: s => by
      by_cases h : c = '/' ∧ d = '/'
      · obtain ⟨rfl, rfl⟩ := h
        rw [replaceDoubleSlash_double]
        cases afterSlash <;>
          simp [collapseFrom, collapseFrom_replaceDoubleSlash true s]
      · rw [replaceDoubleSlash_cons_of_ne s h]
        unfold collapseFrom
        rw [collapseFrom_replaceDoubleSlash true (d :: s),
          collapseFrom_replaceDoubleSlash false (d :: s)]

theorem length_replaceDoubleSlash_le : ∀ s : Str, (replaceDoubleSlash s).length ≤ s.length
  | [] => le_rfl
  | [_] => by rw [replaceDoubleSlash_singleton]
  | c :: d :: s => by
      by_cases h : c = '/' ∧ d = '/'
      · obtain ⟨rfl, rfl⟩ := h
        have ih := length_replaceDoubleSlash_le s
        rw [replaceDoubleSlash_double]
        simp only [List.length_cons]
        omega
      · have ih := length_replaceDoubleSlash_le (d :: s)
        rw [replaceDoubleSlash_cons_of_ne s h]
        simp only [List.length_cons] at ih ⊢
        omega

/-- Replacement shortens a string with a double slash. -/
theorem length_replaceDoubleSlash_lt : ∀ s : Str, containsDoubleSlash s = true →
    (replaceDoubleSlash s).length < s.length
  | [], h => absurd h (by decide)
  | [_], h => by
      rw [containsDoubleSlash_iff] at h
      exact absurd h.length_le (by simp)
  | c :: d :: s, h => by
      by_cases hcd : c = '/' ∧ d = '/'
      · obtain ⟨rfl, rfl⟩ := hcd
        have hle := length_replaceDoubleSlash_le s
        rw [replaceDoubleSlash_double]
        simp only [List.length_cons]
        omega
      · have htail : containsDoubleSlash (d :: s) = true := by
          rw [containsDoubleSlash_iff] at h ⊢
          rcases List.infix_cons_iff.1 h with hpre | htail
          · obtain ⟨t, ht⟩ := hpre
            simp only [List.cons_append, List.nil_append, List.cons.injEq] at ht
            exact absurd ⟨ht.1.symm, ht.2.1.symm⟩ hcd
          · exact htail
        have ih := length_replaceDoubleSlash_lt (d :: s) htail
        rw [replaceDoubleSlash_cons_of_ne s hcd]
        simp only [List.length_cons] at ih ⊢
        omega

/-- A string without a double slash is collapsed. -/
theorem collapseFrom_eq_self : ∀ (afterSlash : Bool) (s : Str), containsDoubleSlash s = false →
    (afterSlash = true → s.head? ≠ some '/') → collapseFrom afterSlash s = s
  | _, [], _, _ => rfl
  | afterSlash, c :: s, h, hhead => by
      have htail : containsDoubleSlash s = false := by
        rw [Bool.eq_false_iff, ne_eq, containsDoubleSlash_iff] at h ⊢
        exact fun hs => h (List.infix_cons hs)
      by_cases hc : c = '/'
      · subst hc
        have hafter : afterSlash = false := by
          cases afterSlash with
          | false => rfl
          | true => exact absurd rfl (hhead rfl)
        have hnext : s.head? ≠ some '/' := by
          intro hs
          obtain ⟨t, rfl⟩ := List.head?_eq_some_iff.1 hs
          rw [Bool.eq_false_iff, ne_eq, containsDoubleSlash_iff] at h
          exact h ⟨[], t, rfl⟩
        rw [hafter, collapseFrom, if_pos rfl, if_neg (by simp),
          collapseFrom_eq_self true s htail fun _ => hnext]
      · rw [collapseFrom, if_neg hc, collapseFrom_eq_self false s htail fun h => absurd h (by simp)]

/-! ## The two loops -/

/-- `while s.contains("//") { s = s.replace("//", "/") }`. -/
def collapseLoop (s : Str) : { s' : Str // containsDoubleSlash s' = false } :=
  if h : containsDoubleSlash s = true then collapseLoop (replaceDoubleSlash s)
  else ⟨s, Bool.eq_false_iff.2 h⟩
termination_by s.length
decreasing_by exact length_replaceDoubleSlash_lt s h

theorem replaceDoubleSlash_eq_self {s : Str} (h : containsDoubleSlash s = false) :
    replaceDoubleSlash s = s := by
  refine replaceAll_of_none _ ?_
  simpa [containsDoubleSlash, contains] using h

/-- The loop over the prepared request path, whose body reads the prepared prefix:
`while req_path_prepared.contains("//") { req_path_prepared = path_prepared.replace("//", "/") }`. -/
def requestLoop (pathPrepared : { s : Str // containsDoubleSlash s = false }) (reqPath : Str) : Str :=
  if _h : containsDoubleSlash reqPath = true then
    requestLoop pathPrepared (replaceDoubleSlash pathPrepared.1)
  else reqPath
termination_by if containsDoubleSlash reqPath then 1 else 0
decreasing_by
  rw [replaceDoubleSlash_eq_self pathPrepared.2, pathPrepared.2, if_pos _h]
  exact Nat.one_pos

/-- The loop over the prefix collapses its runs of slashes. -/
theorem collapseLoop_eq (s : Str) : (collapseLoop s).1 = collapseRuns s := by
  unfold collapseLoop
  split
  · next h =>
      rw [collapseLoop_eq (replaceDoubleSlash s)]
      exact collapseFrom_replaceDoubleSlash false s
  · next h =>
      exact (collapseFrom_eq_self false s (Bool.eq_false_iff.2 h) fun h => absurd h (by simp)).symm
termination_by s.length
decreasing_by exact length_replaceDoubleSlash_lt s (by assumption)

/-- The loop over the request path puts the prefix in place of a path with a double slash. -/
theorem requestLoop_eq (pathPrepared : { s : Str // containsDoubleSlash s = false })
    (reqPath : Str) :
    requestLoop pathPrepared reqPath =
      if containsDoubleSlash reqPath then pathPrepared.1 else reqPath := by
  unfold requestLoop
  split
  · rw [requestLoop, replaceDoubleSlash_eq_self pathPrepared.2, dif_neg (by simp [pathPrepared.2])]
  · rfl

/-! ## Matching -/

/-- `while s.ends_with("/") { s = &s[..(s.len() - 1)] }`. -/
def trimTrailingSlashes (s : Str) : Str := s.rdropWhile (· = '/')

section Match

-- `to_lowercase` in a Windows build, the identity in every other.
variable (caseFold : Str → Str)

/-- `match_location`. -/
def matchLocation (path reqPath : Str) : Bool :=
  let pathPrepared := collapseLoop (trimTrailingSlashes path)
  let reqPathPrepared := requestLoop pathPrepared reqPath
  caseFold pathPrepared.1 = caseFold reqPathPrepared ||
    (caseFold pathPrepared.1 ++ ['/']).isPrefixOf (caseFold reqPathPrepared)

/-- The request path is the location or continues it with a slash. -/
def UnderLocation (path reqPath : Str) : Prop :=
  caseFold (collapseRuns reqPath) = caseFold (collapseRuns (trimTrailingSlashes path)) ∨
    caseFold (collapseRuns (trimTrailingSlashes path)) ++ ['/'] <+:
      caseFold (collapseRuns reqPath)

/-- A request path with a double slash matches every location. -/
theorem matchLocation_of_contains (path : Str) {reqPath : Str}
    (h : containsDoubleSlash reqPath = true) : matchLocation caseFold path reqPath = true := by
  simp [matchLocation, requestLoop_eq, h]

/-- Without a double slash in the request path the function decides the reference. -/
theorem matchLocation_iff_of_not_contains (path : Str) {reqPath : Str}
    (h : containsDoubleSlash reqPath = false) :
    matchLocation caseFold path reqPath = true ↔ UnderLocation caseFold path reqPath := by
  have hcollapsed : collapseRuns reqPath = reqPath :=
    collapseFrom_eq_self false reqPath h fun h => absurd h (by simp)
  simp only [matchLocation, requestLoop_eq, h, Bool.false_eq_true, if_false, collapseLoop_eq,
    Bool.or_eq_true, decide_eq_true_eq, List.isPrefixOf_iff_prefix, UnderLocation, hcollapsed]
  rw [eq_comm]

/-- The function decides prefix matching on segment boundaries for exactly the request paths that
have no double slash or lie under the location. -/
theorem matchLocation_eq_iff (path reqPath : Str) :
    (matchLocation caseFold path reqPath = true ↔ UnderLocation caseFold path reqPath) ↔
      containsDoubleSlash reqPath = false ∨ UnderLocation caseFold path reqPath := by
  cases h : containsDoubleSlash reqPath with
  | true => simp [matchLocation_of_contains caseFold path h]
  | false => simp [matchLocation_iff_of_not_contains caseFold path h]

end Match

instance (path reqPath : Str) : Decidable (UnderLocation id path reqPath) :=
  inferInstanceAs (Decidable (_ ∨ _))

/-- A double slash makes a request for another directory match the location. -/
theorem matchLocation_double_slash :
    ¬ (matchLocation id "/admin".toList "/public//x".toList = true ↔
      UnderLocation id "/admin".toList "/public//x".toList) := by
  decide +kernel

end Ferron.Common.MatchLocation
