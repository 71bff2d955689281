import Ferron.Lib.StableSort
import Ferron.Modules.Replace

/-!
# Quality values

`parseQValueHeader` gives the entries of a header by their quality, from the highest on. An entry without a
quality has that of the next entry that has one.

A quality may be NaN, as the text `nan` is read so, and NaN ties with every number. So the comparison is no
order when there is a NaN beside two different numbers, and then the sort does as it likes.
`sortsByQuality_iff` says that the entries are sorted in all other cases.
-/

set_option autoImplicit false

namespace Ferron.Common.QValueHeader

open Ferron.Modules.Replace Ferron.Lib.StableSort

/-! ## Floats -/

/-- A float: a number or NaN. -/
inductive F32 (Q : Type) where
  | number (value : Q)
  | nan
  deriving DecidableEq

/-- `partial_cmp`. NaN is not compared with anything. -/
def F32.partialCmp {Q : Type} [LinearOrder Q] : F32 Q → F32 Q → Option Ordering
  | .number a, .number b => some (compare a b)
  | _, _ => none

/-- `partial_cmp` of two values that may be missing. -/
def partialCmp {Q : Type} [LinearOrder Q] : Option (F32 Q) → Option (F32 Q) → Option Ordering
  | some a, some b => a.partialCmp b
  | some _, none => some .gt
  | none, some _ => some .lt
  | none, none => some .eq

/-- How the text of a float is read, and the numbers zero and one. -/
structure Floats (Q : Type) where
  parse : Str → Option (F32 Q)
  zero : Q
  one : Q

/-! ## The sort of a slice -/

section SliceSort

variable {α : Type}

/-- A comparison is a total preorder on the elements of a list. -/
def TotalPreorderOn (cmp : α → α → Ordering) (l : List α) : Prop :=
  (∀ a ∈ l, ∀ b ∈ l, cmp a b = (cmp b a).swap) ∧
    ∀ a ∈ l, ∀ b ∈ l, ∀ c ∈ l,
      (cmp a b).isLE = true → (cmp b c).isLE = true → (cmp a c).isLE = true

instance (cmp : α → α → Ordering) (l : List α) : Decidable (TotalPreorderOn cmp l) :=
  inferInstanceAs (Decidable (_ ∧ _))

/-- `sort_by`, which is stable. When the comparison is no total preorder, it may panic and leaves the
elements in any order otherwise. -/
def sortSlice (unspecified : List α → Option (List α)) (cmp : α → α → Ordering) (l : List α) :
    Option (List α) :=
  if TotalPreorderOn cmp l then some (l.insertionSort fun a b => (cmp a b).isLE = true)
  else unspecified l

/-- With a total preorder on its elements a list is sorted. -/
theorem pairwise_insertionSort_of_totalPreorderOn {cmp : α → α → Ordering} {l : List α}
    (h : TotalPreorderOn cmp l) :
    (l.insertionSort fun a b => (cmp a b).isLE = true).Pairwise fun a b => (cmp a b).isLE = true := by
  let r : { a // a ∈ l } → { a // a ∈ l } → Prop := fun a b => (cmp a.1 b.1).isLE = true
  have htotal : Std.Total r := ⟨fun a b => by
    change (cmp a.1 b.1).isLE = true ∨ (cmp b.1 a.1).isLE = true
    rw [h.1 a.1 a.2 b.1 b.2]
    cases cmp b.1 a.1 <;> simp⟩
  have htrans : IsTrans { a // a ∈ l } r := ⟨fun a b c => h.2 a.1 a.2 b.1 b.2 c.1 c.2⟩
  have hmap := List.map_insertionSort r (fun a b => (cmp a b).isLE = true) Subtype.val l.attach
    fun _ _ _ _ => Iff.rfl
  rw [List.attach_map_subtype_val] at hmap
  rw [← hmap, List.pairwise_map]
  exact List.pairwise_insertionSort r l.attach

end SliceSort

/-! ## The header -/

/-- `HeaderValue`. -/
structure HeaderValue (Q : Type) where
  value : Str
  qValue : Option (F32 Q)

variable {Q : Type}

section Parse

variable (floats : Floats Q)

/-- `HeaderValue::from_str`, which has no error. What does not begin with `q=` is the quality zero, and so
is what is no float. -/
def HeaderValue.fromStr (s : Str) : HeaderValue Q :=
  let parts := (s.splitOn ';').take 2
  { value := trim (parts.headD [])
    qValue := parts[1]?.map fun part =>
      (floats.parse (if "q=".toList.isPrefixOf (trim part) then (trim part).drop 2 else ['0'])).getD
        (.number floats.zero) }

/-- A step of the pass from the last value on, with the quality of the last value that has one. -/
def fillStep (value : HeaderValue Q) (state : Option (F32 Q) × List (HeaderValue Q)) :
    Option (F32 Q) × List (HeaderValue Q) :=
  match value.qValue with
  | none => (state.1, { value with qValue := some (state.1.getD (.number floats.one)) } :: state.2)
  | some _ => (value.qValue, value :: state.2)

/-- The values with the missing qualities filled in. -/
def fillQValues (values : List (HeaderValue Q)) : List (HeaderValue Q) :=
  (values.foldr (fillStep floats) (none, [])).2

/-- The comparison of the sort, from the highest quality on. -/
def compareValues [LinearOrder Q] (a b : HeaderValue Q) : Ordering :=
  (partialCmp b.qValue a.qValue).getD .eq

/-- The values of a header. -/
def headerValues (header : Str) : List (HeaderValue Q) :=
  (header.splitOn ',').map fun s => HeaderValue.fromStr floats (trim s)

/-- `parse_q_value_header`. It gives nothing when the sort panics. -/
def parseQValueHeader [LinearOrder Q]
    (unspecified : List (HeaderValue Q) → Option (List (HeaderValue Q))) (header : Str) :
    Option (List Str) :=
  (sortSlice unspecified compareValues (fillQValues floats (headerValues floats header))).map fun values =>
    values.map HeaderValue.value

/-! ## Effective qualities -/

/-- The quality of the first value that has one. -/
def firstQuality (values : List (HeaderValue Q)) : Option (F32 Q) :=
  values.findSome? HeaderValue.qValue

/-- The values with their effective qualities: their own, else that of the next value that has one, else
one. -/
def withQualities : List (HeaderValue Q) → List (Str × F32 Q)
  | [] => []
  | value :: values =>
      (value.value, value.qValue.getD ((firstQuality values).getD (.number floats.one))) ::
        withQualities values

/-- The value of a pair with its quality. -/
def HeaderValue.ofPair (pair : Str × F32 Q) : HeaderValue Q :=
  ⟨pair.1, some pair.2⟩

/-- The pass carries the quality of the first value that has one. -/
theorem fst_foldr_fillStep (values : List (HeaderValue Q)) :
    (values.foldr (fillStep floats) (none, [])).1 = firstQuality values := by
  induction values with
  | nil => rfl
  | cons value values ih =>
      rw [List.foldr_cons, firstQuality, List.findSome?_cons, fillStep]
      cases value.qValue with
      | none => exact ih
      | some quality => rfl

theorem fillQValues_cons (value : HeaderValue Q) (values : List (HeaderValue Q)) :
    fillQValues floats (value :: values) =
      { value with
        qValue := some (value.qValue.getD ((firstQuality values).getD (.number floats.one))) } ::
        fillQValues floats values := by
  obtain ⟨text, quality⟩ := value
  rw [fillQValues, List.foldr_cons, fillStep, fst_foldr_fillStep]
  cases quality with
  | none => rfl
  | some quality => rfl

/-- The pass gives every value its effective quality. -/
theorem fillQValues_eq (values : List (HeaderValue Q)) :
    fillQValues floats values =
      (withQualities floats values).map HeaderValue.ofPair := by
  induction values with
  | nil => rfl
  | cons value values ih =>
      rw [fillQValues_cons, ih, withQualities, List.map_cons]
      rfl

end Parse

/-! ## Sorting by quality -/

section Sorted

variable [LinearOrder Q]

/-- The comparison of two values with their qualities. -/
def comparePairs (a b : Str × F32 Q) : Ordering :=
  (b.2.partialCmp a.2).getD .eq

/-- The values of a list from the highest quality on, with those of one quality in their order. -/
def SortedByQuality (pairs : List (Str × F32 Q)) (result : List Str) : Prop :=
  ∃ sorted : List (Str × F32 Q),
    sorted.Perm pairs ∧
    sorted.Pairwise (fun a b => a.2.partialCmp b.2 ≠ some .lt) ∧
    (∀ quality, sorted.filter (fun pair => pair.2 = quality) =
      pairs.filter fun pair => pair.2 = quality) ∧
    result = sorted.map Prod.fst

/-- The values of a header are compared by a total preorder, and the result is sorted by quality. -/
def SortsByQuality (floats : Floats Q)
    (unspecified : List (HeaderValue Q) → Option (List (HeaderValue Q))) (header : Str) : Prop :=
  TotalPreorderOn compareValues (fillQValues floats (headerValues floats header)) ∧
    ∃ result, parseQValueHeader floats unspecified header = some result ∧
      SortedByQuality (withQualities floats (headerValues floats header)) result

/-- When there is a NaN, all numbers are the same. -/
def Comparable (qualities : List (F32 Q)) : Prop :=
  .nan ∈ qualities → ∀ p q, .number p ∈ qualities → .number q ∈ qualities → p = q

theorem partialCmp_swap (a b : F32 Q) :
    (b.partialCmp a).getD .eq = ((a.partialCmp b).getD .eq).swap := by
  cases a with
  | nan => cases b <;> rfl
  | number p =>
      cases b with
      | nan => rfl
      | number q =>
          have hswap : compare q p = (compare p q).swap := Std.OrientedCmp.eq_swap
          exact hswap

/-- A value goes before another, or ties with it. -/
theorem isLE_comparePairs_iff (a b : Str × F32 Q) :
    (comparePairs a b).isLE = true ↔ a.2.partialCmp b.2 ≠ some .lt := by
  rw [comparePairs, partialCmp_swap]
  rcases a.2.partialCmp b.2 with _ | _ | _ | _ <;> simp

theorem isLE_comparePairs_number {a b : Str} {p q : Q} :
    (comparePairs (a, .number p) (b, .number q)).isLE = true ↔ q ≤ p := by
  rw [comparePairs]
  change (compare q p).isLE = true ↔ q ≤ p
  rw [Ordering.isLE_iff_ne_gt, compare_gt_iff_gt, not_lt]

/-- The comparison is a total preorder unless a NaN stands beside two different numbers. -/
theorem totalPreorderOn_comparePairs_iff (pairs : List (Str × F32 Q)) :
    TotalPreorderOn comparePairs pairs ↔ Comparable (pairs.map Prod.snd) := by
  constructor
  · rintro ⟨-, htrans⟩ hnan p q hp hq
    obtain ⟨⟨c, _⟩, hc, rfl⟩ := List.mem_map.1 hnan
    obtain ⟨⟨a, _⟩, ha, rfl⟩ := List.mem_map.1 hp
    obtain ⟨⟨b, _⟩, hb, rfl⟩ := List.mem_map.1 hq
    -- NaN ties with both numbers
    have hab := htrans _ ha _ hc _ hb rfl rfl
    have hba := htrans _ hb _ hc _ ha rfl rfl
    exact le_antisymm (isLE_comparePairs_number.1 hba) (isLE_comparePairs_number.1 hab)
  · intro h
    refine ⟨fun a _ b _ => partialCmp_swap a.2 b.2, ?_⟩
    rintro ⟨a, qa⟩ ha ⟨b, qb⟩ hb ⟨c, qc⟩ hc hab hbc
    cases qa with
    | nan => cases qc <;> rfl
    | number p =>
        cases qc with
        | nan => rfl
        | number r =>
            rw [isLE_comparePairs_number]
            cases qb with
            | nan =>
                exact (h (List.mem_map_of_mem hb) p r (List.mem_map_of_mem ha)
                  (List.mem_map_of_mem hc)).ge
            | number q => exact (isLE_comparePairs_number.1 hbc).trans (isLE_comparePairs_number.1 hab)

/-- The sorted pairs are what the specification asks for. -/
theorem sortedByQuality_insertionSort {pairs : List (Str × F32 Q)}
    (h : TotalPreorderOn comparePairs pairs) :
    SortedByQuality pairs
      ((pairs.insertionSort fun a b => (comparePairs a b).isLE = true).map Prod.fst) := by
  refine ⟨_, List.perm_insertionSort _ pairs, ?_, fun quality => ?_, rfl⟩
  · exact (pairwise_insertionSort_of_totalPreorderOn h).imp fun {a b} hab =>
      (isLE_comparePairs_iff a b).1 hab
  · refine filter_insertionSort _ _ (fun a b ha hb => ?_) pairs
    have hsame : a.2 = b.2 := (of_decide_eq_true ha).trans (of_decide_eq_true hb).symm
    rw [isLE_comparePairs_iff, hsame]
    cases b.2 with
    | nan => exact nofun
    | number q => exact fun hlt => lt_irrefl q (compare_lt_iff_lt.1 (Option.some.inj hlt))

theorem totalPreorderOn_map_ofPair (pairs : List (Str × F32 Q)) :
    TotalPreorderOn compareValues (pairs.map HeaderValue.ofPair) ↔
      TotalPreorderOn comparePairs pairs := by
  simp only [TotalPreorderOn, List.forall_mem_map]
  exact Iff.rfl

variable (floats : Floats Q) (unspecified : List (HeaderValue Q) → Option (List (HeaderValue Q)))
  (header : Str)

/-- What the pass leaves is compared by a total preorder unless a NaN stands beside two different
numbers. -/
theorem totalPreorderOn_fillQValues_iff (values : List (HeaderValue Q)) :
    TotalPreorderOn compareValues (fillQValues floats values) ↔
      Comparable ((withQualities floats values).map Prod.snd) := by
  rw [fillQValues_eq, totalPreorderOn_map_ofPair, totalPreorderOn_comparePairs_iff]

/-- With comparable qualities the pairs are sorted. -/
theorem parseQValueHeader_of_totalPreorderOn
    (h : TotalPreorderOn comparePairs (withQualities floats (headerValues floats header))) :
    parseQValueHeader floats unspecified header =
      some (((withQualities floats (headerValues floats header)).insertionSort fun a b =>
        (comparePairs a b).isLE = true).map Prod.fst) := by
  rw [parseQValueHeader, fillQValues_eq, sortSlice, if_pos ((totalPreorderOn_map_ofPair _).2 h),
    Option.map_some,
    ← List.map_insertionSort (fun a b => (comparePairs a b).isLE = true) _ HeaderValue.ofPair _
      fun _ _ _ _ => Iff.rfl, List.map_map]
  rfl

/-- A header is sorted by quality unless it has a NaN beside two different numbers. -/
theorem sortsByQuality_iff :
    SortsByQuality floats unspecified header ↔
      Comparable ((withQualities floats (headerValues floats header)).map Prod.snd) := by
  rw [SortsByQuality, totalPreorderOn_fillQValues_iff]
  constructor
  · exact And.left
  · intro h
    have hpreorder := (totalPreorderOn_comparePairs_iff _).2 h
    exact ⟨h, _, parseQValueHeader_of_totalPreorderOn floats unspecified header hpreorder,
      sortedByQuality_insertionSort hpreorder⟩

end Sorted

/-! ## A quality that is NaN -/

/-- The floats of a few texts, in units of 2 to the power of minus 25. -/
def exampleFloats : Floats Int where
  parse s :=
    if s = "0.3".toList then some (.number 10066330)
    else if s = "0.8".toList then some (.number 26843546)
    else if s = "nan".toList then some .nan
    else none
  zero := 0
  one := 33554432

/-- A NaN between a lower and a higher quality: they are not compared by a total preorder, and when they are
sorted by insertion the lower one stays the first. -/
theorem nanBetween_not_sortsByQuality :
    (∀ unspecified,
      ¬ SortsByQuality exampleFloats unspecified "a;q=0.3,b;q=nan,c;q=0.8".toList) ∧
    ((fillQValues exampleFloats
      (headerValues exampleFloats "a;q=0.3,b;q=nan,c;q=0.8".toList)).insertionSort
        fun a b => (compareValues a b).isLE = true).map HeaderValue.value =
      ["a".toList, "b".toList, "c".toList] := by
  have hqualities : withQualities exampleFloats
      (headerValues exampleFloats "a;q=0.3,b;q=nan,c;q=0.8".toList) =
      [("a".toList, .number 10066330), ("b".toList, .nan), ("c".toList, .number 26843546)] := by
    decide +kernel
  refine ⟨fun unspecified h => ?_, ?_⟩
  · have hcomparable := (totalPreorderOn_fillQValues_iff _ _).1 h.1
    rw [hqualities] at hcomparable
    exact absurd (hcomparable (by decide) 10066330 26843546 (by decide) (by decide)) (by decide)
  · rw [fillQValues_eq, hqualities]
    decide

end Ferron.Common.QValueHeader
