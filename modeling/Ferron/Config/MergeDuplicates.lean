import Ferron.Common.Config
import Ferron.Lib.AdjacentMerge
import Ferron.Lib.StableSort

/-!
# Merging configurations with equal filters

`mergeDuplicates` sorts the configurations by their filters and merges neighbours with equal filters.
The sort compares conditions by `ConditionalData.cmp`, which ties different languages, so a
configuration with another language can come to stand between two with equal filters; and it
compares address lists in iteration order, so equal filters need not be tied.

`mergeDuplicates_correct_iff` says when the result is right: no configuration with other filters
comes to stand between two with equal filters, and the sort does not change the entries of the
configurations with equal filters taken together.
-/

set_option autoImplicit false

namespace Ferron.Config

open Ferron.Common Ferron.Lib.AdjacentMerge Ferron.Lib.StableSort

/-- The part of a condition that configurations are sorted by. -/
structure ConditionKey where
  locationPrefix : Str
  conditionals : List Conditional

namespace ConditionKey

instance : Ord ConditionKey := ⟨compareLex (compareOn locationPrefix) (compareOn conditionals)⟩

instance : Std.TransOrd ConditionKey :=
  inferInstanceAs (Std.TransCmp (compareLex (compareOn locationPrefix) (compareOn conditionals)))

/-- The key of the condition of some filters. -/
def of (filters : ServerConfigurationFilters) : Option ConditionKey :=
  filters.condition.map fun s => ⟨s.locationPrefix, s.conditionals⟩

end ConditionKey

/-- The order in which `merge_duplicates` sorts the configurations. -/
def mergeOrder : ServerConfigurationFilters → ServerConfigurationFilters → Ordering :=
  compareLex (compareOn fun f => f.isHost)
    (compareLex (compareOn fun f => f.port)
      (compareLex (compareOn fun f => f.ip)
        (compareLex (compareOn fun f => f.hostname)
          (compareLex (compareOn ConditionKey.of) (compareOn fun f => f.errorHandlerStatus)))))

instance : Std.TransCmp mergeOrder := by
  unfold mergeOrder
  infer_instance

/-- Adds the entries of another configuration behind those of the current one. -/
def mergeEntries (current other : HashMap Str ServerConfigurationEntries) :
    HashMap Str ServerConfigurationEntries :=
  other.entries.foldl (fun entries property =>
    entries.insert property.1
      ⟨((entries.lookup property.1).map ServerConfigurationEntries.inner).getD [] ++
        property.2.inner⟩) current

/-- Merges a configuration into the current one. -/
def mergeInto (current other : ServerConfiguration) : ServerConfiguration :=
  { current with entries := mergeEntries current.entries other.entries }

/-- `merge_duplicates`. -/
def mergeDuplicates (configurations : List ServerConfiguration) : List ServerConfiguration :=
  mergeAdjacent ServerConfiguration.filters mergeInto
    (sortBy mergeOrder ServerConfiguration.filters configurations)

/-! ## Entries under some filters -/

/-- Entries one after the other; none when there are none. -/
def concatEntries (found : List ServerConfigurationEntries) : Option ServerConfigurationEntries :=
  if found = [] then none else some ⟨found.flatMap ServerConfigurationEntries.inner⟩

/-- The entries of a property in the configurations with these filters, one after the other. -/
def entriesUnder (filters : ServerConfigurationFilters) (name : Str)
    (configurations : List ServerConfiguration) : Option ServerConfigurationEntries :=
  concatEntries ((configurations.filter fun c => c.filters == filters).filterMap fun c =>
    c.entries.lookup name)

/-- Entries of two configurations under one name, one after the other. -/
def joinEntries (a b : Option ServerConfigurationEntries) : Option ServerConfigurationEntries :=
  concatEntries (a.toList ++ b.toList)

theorem concatEntries_join (front back : List ServerConfigurationEntries)
    (a b : Option ServerConfigurationEntries) :
    concatEntries (front ++ ((joinEntries a b).toList ++ back)) =
      concatEntries (front ++ (a.toList ++ (b.toList ++ back))) := by
  cases a <;> cases b <;> simp [joinEntries, concatEntries]

theorem lookup_foldl_insert (name : Str)
    (properties : List (Sigma fun _ : Str => ServerConfigurationEntries))
    (hkeys : properties.NodupKeys) (current : HashMap Str ServerConfigurationEntries) :
    (properties.foldl (fun (entries : HashMap Str ServerConfigurationEntries) property =>
      entries.insert property.1
        ⟨((entries.lookup property.1).map ServerConfigurationEntries.inner).getD [] ++
          property.2.inner⟩) current).lookup name =
      joinEntries (current.lookup name) (properties.dlookup name) := by
  induction properties generalizing current with
  | nil => cases h : current.lookup name <;> simp [joinEntries, concatEntries, h]
  | cons property properties ih =>
      obtain ⟨k, v⟩ := property
      rw [List.nodupKeys_cons] at hkeys
      rw [List.foldl_cons, ih hkeys.2]
      by_cases hk : name = k
      · subst hk
        rw [AList.lookup_insert, List.dlookup_cons_eq, List.dlookup_eq_none.2 hkeys.1]
        cases current.lookup name <;> simp [joinEntries, concatEntries]
      · rw [AList.lookup_insert_ne hk, List.dlookup_cons_ne _ _ hk]

/-- The merged entries of a property are those of both, one after the other. -/
theorem lookup_mergeEntries (current other : HashMap Str ServerConfigurationEntries) (name : Str) :
    (mergeEntries current other).lookup name =
      joinEntries (current.lookup name) (other.lookup name) :=
  lookup_foldl_insert name other.entries other.nodupKeys current

/-- Merging two neighbours with equal filters does not change the entries. -/
theorem entriesUnder_mergeInto (filters : ServerConfigurationFilters) (name : Str)
    (front : List ServerConfiguration) (a b : ServerConfiguration)
    (back : List ServerConfiguration) (hab : (b.filters == a.filters) = true) :
    entriesUnder filters name (front ++ mergeInto a b :: back) =
      entriesUnder filters name (front ++ a :: b :: back) := by
  have hfilters : (mergeInto a b).filters = a.filters := rfl
  unfold entriesUnder
  simp only [List.filter_append, List.filter_cons, List.filterMap_append, hfilters,
    BEq.congr_left hab]
  split
  · have hmerged := concatEntries_join
      ((front.filter fun c => c.filters == filters).filterMap fun c => c.entries.lookup name)
      ((back.filter fun c => c.filters == filters).filterMap fun c => c.entries.lookup name)
      (a.entries.lookup name) (b.entries.lookup name)
    rw [← lookup_mergeEntries] at hmerged
    simp only [List.filterMap_cons]
    cases h₁ : a.entries.lookup name <;> cases h₂ : b.entries.lookup name <;>
      cases h₃ : (mergeInto a b).entries.lookup name <;> simp_all [mergeInto]
  · rfl

/-! ## When the result is right -/

/-- The result of merging duplicates: no filters stand there twice, the filters are those of the
input, and for each of them the entries are those of the input in their order. -/
structure MergesDuplicates (configurations result : List ServerConfiguration) : Prop where
  distinct : result.Pairwise fun a b => (a.filters == b.filters) = false
  filters_iff : ∀ filters, (∃ d ∈ result, (d.filters == filters) = true) ↔
    ∃ c ∈ configurations, (c.filters == filters) = true
  entries_eq : ∀ filters name,
    entriesUnder filters name result = entriesUnder filters name configurations

/-- The configuration at a position is sorted before another one: its filters are less, or tied and
at an earlier position. -/
def SortedBefore (a : ServerConfiguration) (i : Nat) (b : ServerConfiguration) (j : Nat) : Prop :=
  mergeOrder a.filters b.filters = .lt ∨ mergeOrder a.filters b.filters = .eq ∧ i < j

/-- No configuration with other filters is sorted between two with equal filters. -/
def NoneBetween (configurations : List ServerConfiguration) : Prop :=
  ∀ i j k a b c, configurations[i]? = some a → configurations[j]? = some b →
    configurations[k]? = some c → SortedBefore a i b j → SortedBefore b j c k →
    (a.filters == c.filters) = true → (b.filters == a.filters) = true

/-- Sorting the configurations with equal filters does not change their entries together. -/
def OrderKeepsEntries (configurations : List ServerConfiguration) : Prop :=
  ∀ filters name,
    entriesUnder filters name (sortBy mergeOrder ServerConfiguration.filters
      (configurations.filter fun c => c.filters == filters)) =
      entriesUnder filters name configurations

/-- The entries of the result are those of the sorted configurations. -/
theorem entriesUnder_mergeDuplicates (filters : ServerConfigurationFilters) (name : Str)
    (configurations : List ServerConfiguration) :
    entriesUnder filters name (mergeDuplicates configurations) =
      entriesUnder filters name (sortBy mergeOrder ServerConfiguration.filters
        (configurations.filter fun c => c.filters == filters)) := by
  rw [mergeDuplicates, collect_mergeAdjacent ServerConfiguration.filters mergeInto
    (entriesUnder_mergeInto filters name)]
  unfold entriesUnder sortBy
  rw [filter_insertionSort_comm, filter_insertionSort_comm, List.filter_filter]
  simp only [Bool.and_self]

/-- The filters of the result are always those of the input. -/
theorem filters_mergeDuplicates_iff (configurations : List ServerConfiguration)
    (filters : ServerConfigurationFilters) :
    (∃ d ∈ mergeDuplicates configurations, (d.filters == filters) = true) ↔
      ∃ c ∈ configurations, (c.filters == filters) = true := by
  have hkey : ∀ a b, (mergeInto a b).filters = a.filters := fun _ _ => rfl
  constructor
  · rintro ⟨d, hd, hfilters⟩
    obtain ⟨c, hc, hcd⟩ := exists_key_of_mem_mergeAdjacent _ hkey hd
    exact ⟨c, (List.mem_insertionSort _).1 hc, by rw [hcd]; exact hfilters⟩
  · rintro ⟨c, hc, hfilters⟩
    obtain ⟨d, hd, hdc⟩ := exists_mem_mergeAdjacent ServerConfiguration.filters hkey
      ((List.mem_insertionSort (KeyLE mergeOrder ServerConfiguration.filters)).2 hc)
    exact ⟨d, hd, PartialEquivBEq.trans hdc hfilters⟩

/-- No filters are left twice exactly when nothing is sorted between equal ones. -/
theorem pairwise_mergeDuplicates_iff (configurations : List ServerConfiguration) :
    (mergeDuplicates configurations).Pairwise (fun a b => (a.filters == b.filters) = false) ↔
      NoneBetween configurations := by
  have hkey : ∀ a b, (mergeInto a b).filters = a.filters := fun _ _ => rfl
  rw [mergeDuplicates, pairwise_mergeAdjacent_iff ServerConfiguration.filters hkey]
  unfold Grouped sortBy NoneBetween SortedBefore
  simp only [three_sublist_insertionSort_iff, precedes_iff]
  constructor
  · intro h i j k a b c ha hb hc hab hbc
    exact h a b c ⟨i, j, k, ha, hb, hc, hab, hbc⟩
  · rintro h a b c ⟨i, j, k, ha, hb, hc, hab, hbc⟩
    exact h i j k a b c ha hb hc hab hbc

/-- Merging duplicates is right exactly when nothing is sorted between equal filters and the order of
configurations with equal filters keeps their entries. -/
theorem mergeDuplicates_correct_iff (configurations : List ServerConfiguration) :
    MergesDuplicates configurations (mergeDuplicates configurations) ↔
      NoneBetween configurations ∧ OrderKeepsEntries configurations := by
  constructor
  · intro h
    refine ⟨(pairwise_mergeDuplicates_iff configurations).1 h.distinct, ?_⟩
    intro filters name
    rw [← entriesUnder_mergeDuplicates]
    exact h.entries_eq filters name
  · rintro ⟨hbetween, hentries⟩
    refine ⟨(pairwise_mergeDuplicates_iff configurations).2 hbetween,
      filters_mergeDuplicates_iff configurations, ?_⟩
    intro filters name
    rw [entriesUnder_mergeDuplicates]
    exact hentries filters name

/-- A configuration for the clients that prefer a language. -/
def languageConfiguration (language : Str) : ServerConfiguration where
  entries := ∅
  filters := ⟨true, none, none, none,
    some ⟨"/".toList, [.ifBlock [.isLanguage language]]⟩, none⟩

/-- A configuration for another language keeps two equal ones apart. -/
theorem mergeDuplicates_keeps_languages_apart :
    ¬ MergesDuplicates
      [languageConfiguration "en".toList, languageConfiguration "de".toList,
        languageConfiguration "en".toList]
      (mergeDuplicates [languageConfiguration "en".toList, languageConfiguration "de".toList,
        languageConfiguration "en".toList]) := by
  intro h
  have hbetween := (pairwise_mergeDuplicates_iff _).1 h.distinct
  have hen := hbetween 0 1 2 _ _ _ rfl rfl rfl (Or.inr ⟨by decide, by decide⟩)
    (Or.inr ⟨by decide, by decide⟩) (by decide)
  exact absurd hen (by decide)

end Ferron.Config
