import Ferron.Config.Kdl
import Ferron.Config.Premerge

/-!
# Inheritance of nested blocks

After loading, `mergeDuplicates`, `removeAndAddGlobalConfiguration` and `premergeConfiguration` go over
the configurations. The trie that finds the blocks around a configuration takes its whole condition as
one key. Without the condition there comes the host block, so a conditional block in a location has
nothing from the location, and one in another conditional block nothing from that.

`inheritsFromEnclosing_iff` says when nested blocks have the directives of the blocks around them all
the same: the host block, or what is around it, gives the same ones.
-/

set_option autoImplicit false

namespace Ferron.Config

open Ferron.Common Ferron.Lib.AdjacentMerge Ferron.Lib.StableSort Std

/-- `remove_and_add_global_configuration`. -/
def removeAndAddGlobalConfiguration (configurations : List ServerConfiguration) :
    List ServerConfiguration :=
  let newConfigurations := configurations.filter fun c => !c.entries.entries.isEmpty
  let hasGlobalNonHost := newConfigurations.any fun c => c.filters.isGlobalNonHost
  if hasGlobalNonHost then newConfigurations
  else ⟨∅, nonHostGlobal⟩ :: newConfigurations

/-- The configurations that `premerge_configuration` is given. -/
def prepareConfigurations (configurations : List ServerConfiguration) : List ServerConfiguration :=
  removeAndAddGlobalConfiguration (mergeDuplicates configurations)

/-- The processing of the loaded configurations. -/
def processConfigurations (configurations : List ServerConfiguration) : List ServerConfiguration :=
  premergeConfiguration (prepareConfigurations configurations)

/-! ## Entries before premerging -/

theorem entriesUnder_eq_none_iff {filters : ServerConfigurationFilters} {name : Str}
    {configurations : List ServerConfiguration} :
    entriesUnder filters name configurations = none ↔
      ∀ c ∈ configurations, (c.filters == filters) = true → c.entries.lookup name = none := by
  rw [entriesUnder, concatEntries]
  constructor
  · intro h c hc hfilters
    split at h
    · rename_i hnil
      rw [List.filterMap_eq_nil_iff] at hnil
      exact hnil c (List.mem_filter.2 ⟨hc, hfilters⟩)
    · exact absurd h (Option.some_ne_none _)
  · intro h
    rw [if_pos]
    rw [List.filterMap_eq_nil_iff]
    intro c hc
    exact h c (List.mem_filter.1 hc).1 (List.mem_filter.1 hc).2

theorem lookup_of_isEmpty {c : ServerConfiguration} (h : c.entries.entries.isEmpty = true)
    (name : Str) : c.entries.lookup name = none := by
  rw [List.isEmpty_iff] at h
  rw [AList.lookup, h]
  rfl

/-- Empty configurations say nothing about any filters. -/
theorem entriesUnder_removeAndAddGlobalConfiguration (filters : ServerConfigurationFilters)
    (name : Str) (configurations : List ServerConfiguration) :
    entriesUnder filters name (removeAndAddGlobalConfiguration configurations) =
      entriesUnder filters name configurations := by
  have hkept : entriesUnder filters name
      (configurations.filter fun c => !c.entries.entries.isEmpty) =
        entriesUnder filters name configurations := by
    unfold entriesUnder
    congr 1
    rw [List.filter_filter]
    induction configurations with
    | nil => rfl
    | cons c configurations ih =>
        rw [List.filter_cons, List.filter_cons]
        cases hempty : c.entries.entries.isEmpty with
        | false =>
            simp only [Bool.not_false, Bool.and_true]
            split <;> simp only [List.filterMap_cons, ih]
        | true =>
            rw [Bool.not_true, Bool.and_false, if_neg Bool.false_ne_true, ih]
            split
            · rw [List.filterMap_cons, lookup_of_isEmpty hempty]
            · rfl
  rw [removeAndAddGlobalConfiguration]
  split
  · exact hkept
  · rw [← hkept, entriesUnder, entriesUnder, List.filter_cons]
    split
    · rfl
    · rfl

theorem compare_key_none_iff (f : ServerConfigurationFilters) :
    compare (ConditionKey.of f) (none : Option ConditionKey) = .eq ↔
      (f.condition == none) = true := by
  rw [ConditionKey.of]
  cases f.condition <;> simp

/-- There is no condition but that of a location. -/
def LocationOnly (filters : ServerConfigurationFilters) : Prop :=
  ∀ condition, filters.condition = some condition → condition.conditionals = []

theorem LocationOnly.of_none {filters : ServerConfigurationFilters} (h : filters.condition = none) :
    LocationOnly filters := by
  intro condition hcondition
  rw [h] at hcondition
  cases hcondition

/-- Such a condition is tied with equal ones only. -/
theorem compare_key_iff {f host : ServerConfigurationFilters} (hhost : LocationOnly host) :
    compare (ConditionKey.of f) (ConditionKey.of host) = .eq ↔ (f.condition == host.condition) = true := by
  rw [ConditionKey.of, ConditionKey.of]
  cases hcondition : host.condition with
  | none => cases f.condition <;> simp
  | some condition =>
      have hnil := hhost condition hcondition
      obtain ⟨path, conditionals⟩ := condition
      obtain rfl : conditionals = [] := hnil
      cases f.condition with
      | none => simp
      | some other =>
          obtain ⟨path', others⟩ := other
          change compareLex (compareOn ConditionKey.locationPrefix) (compareOn ConditionKey.conditionals)
            ⟨path', others⟩ ⟨path, []⟩ = .eq ↔ (path' == path && others == []) = true
          rw [compareLex_eq_eq, Bool.and_eq_true, beq_iff_eq]
          refine and_congr LawfulEqOrd.compare_eq_iff_eq ?_
          cases others with
          | nil => exact ⟨fun _ => rfl, fun _ => rfl⟩
          | cons other others =>
              refine ⟨fun h => ?_, fun h => ?_⟩
              · exact absurd (length_eq_of_compare h) (Nat.succ_ne_zero _)
              · exact absurd h Bool.false_ne_true

/-- Filters with such a condition are sorted together exactly when they are equal. -/
theorem mergeOrder_eq_iff {f host : ServerConfigurationFilters} (hhost : LocationOnly host) :
    mergeOrder f host = .eq ↔ (f == host) = true := by
  rw [ServerConfigurationFilters.beq_iff, mergeOrder]
  simp only [compareLex_eq_eq, compareOn, LawfulEqOrd.compare_eq_iff_eq, compare_key_iff hhost]
  constructor
  · rintro ⟨hisHost, hport, hip, hhostname, hsame, hstatus⟩
    exact ⟨hisHost, hhostname, hip, hport, hsame, hstatus⟩
  · rintro ⟨hisHost, hhostname, hip, hport, hsame, hstatus⟩
    exact ⟨hisHost, hport, hip, hhostname, hsame, hstatus⟩

/-- Configurations with the same filters and such a condition are merged into one. -/
theorem pairwise_mergeDuplicates_of_locationOnly {host : ServerConfigurationFilters}
    (hhost : LocationOnly host) (configurations : List ServerConfiguration) :
    (mergeDuplicates configurations).Pairwise
      fun a b => (a.filters == host) = true → (b.filters == host) = false := by
  have hkey : ∀ a b, (mergeInto a b).filters = a.filters := fun _ _ => rfl
  apply pairwise_mergeAdjacent_of_groupedAt ServerConfiguration.filters hkey
  intro a c b hsub ha hb
  have hpairwise : (sortBy mergeOrder ServerConfiguration.filters configurations).Pairwise
      (KeyLE mergeOrder ServerConfiguration.filters) := List.pairwise_insertionSort _ _
  have hsorted := hpairwise.sublist hsub
  have hac : (mergeOrder a.filters c.filters).isLE = true :=
    List.rel_of_pairwise_cons hsorted List.mem_cons_self
  have hcb : (mergeOrder c.filters b.filters).isLE = true :=
    List.rel_of_pairwise_cons (List.pairwise_cons.1 hsorted).2 List.mem_cons_self
  rw [← mergeOrder_eq_iff hhost] at ha hb ⊢
  rw [TransCmp.congr_right hb] at hcb
  rw [TransCmp.congr_left ha] at hac
  exact OrientedCmp.isLE_antisymm hcb hac

/-- Sorting and merging keep the entries under such filters. -/
theorem entriesUnder_mergeDuplicates_of_locationOnly {host : ServerConfigurationFilters}
    (hhost : LocationOnly host) (name : Str) (configurations : List ServerConfiguration) :
    entriesUnder host name (mergeDuplicates configurations) =
      entriesUnder host name configurations := by
  rw [entriesUnder_mergeDuplicates, entriesUnder, entriesUnder, sortBy, filter_insertionSort,
    List.filter_filter]
  · simp only [Bool.and_self]
  · intro a b ha hb
    have htied : mergeOrder a.filters b.filters = .eq :=
      TransCmp.eq_trans ((mergeOrder_eq_iff hhost).2 ha)
        (OrientedCmp.eq_symm ((mergeOrder_eq_iff hhost).2 hb))
    rw [KeyLE, htied]
    rfl

/-- Where some filters stand at most once, their entries are those of the first configuration with
them. -/
theorem entriesWith_eq_entriesUnder {host : ServerConfigurationFilters} (name : Str)
    {configurations : List ServerConfiguration}
    (honce : configurations.Pairwise
      fun a b => (a.filters == host) = true → (b.filters == host) = false) :
    entriesWith configurations name host = entriesUnder host name configurations := by
  induction configurations with
  | nil => rfl
  | cons c rest ih =>
      obtain ⟨hne, hrest⟩ := List.pairwise_cons.1 honce
      rw [entriesWith, entriesUnder, List.find?_cons, List.filter_cons]
      cases hc : c.filters == host with
      | false => exact ih hrest
      | true =>
          have hnone : rest.filter (fun c => c.filters == host) = [] := by
            rw [List.filter_eq_nil_iff]
            intro d hd
            rw [hne d hd hc]
            exact Bool.false_ne_true
          rw [if_pos rfl, hnone, Option.bind_some, List.filterMap_cons]
          cases c.entries.lookup name <;> simp [concatEntries]

/-- Such filters stand at most once when they are premerged. -/
theorem pairwise_prepareConfigurations {host : ServerConfigurationFilters} (hhost : LocationOnly host)
    (configurations : List ServerConfiguration) :
    (prepareConfigurations configurations).Pairwise
      fun a b => (a.filters == host) = true → (b.filters == host) = false := by
  have honce := pairwise_mergeDuplicates_of_locationOnly hhost configurations
  rw [prepareConfigurations, removeAndAddGlobalConfiguration]
  split
  · exact honce.filter _
  · rename_i hglobal
    rw [List.pairwise_cons]
    refine ⟨?_, honce.filter _⟩
    intro c hc hsame
    rw [← Bool.not_eq_true]
    intro hchost
    -- a configuration that is kept would be the global one
    have hsameFilters := BEq.trans hchost (BEq.symm hsame)
    have hisHost := ((ServerConfigurationFilters.beq_iff _ _).1 hsameFilters).1
    apply hglobal
    rw [List.any_eq_true]
    refine ⟨c, hc, ?_⟩
    rw [ServerConfigurationFilters.isGlobalNonHost, hisHost]
    rfl

/-- Hosts and their locations have all their entries when they are premerged. -/
theorem entriesWith_prepareConfigurations {host : ServerConfigurationFilters}
    (hhost : LocationOnly host) (name : Str) (configurations : List ServerConfiguration) :
    entriesWith (prepareConfigurations configurations) name host =
      entriesUnder host name configurations := by
  rw [entriesWith_eq_entriesUnder name (pairwise_prepareConfigurations hhost configurations),
    prepareConfigurations, entriesUnder_removeAndAddGlobalConfiguration,
    entriesUnder_mergeDuplicates_of_locationOnly hhost]

/-- A directive that no loaded configuration with some filters sets is set by none with them before
premerging. -/
theorem entriesUnder_prepareConfigurations_eq_none_iff (filters : ServerConfigurationFilters)
    (name : Str) (configurations : List ServerConfiguration) :
    entriesUnder filters name (prepareConfigurations configurations) = none ↔
      entriesUnder filters name configurations = none := by
  rw [prepareConfigurations, entriesUnder_removeAndAddGlobalConfiguration,
    entriesUnder_mergeDuplicates, entriesUnder_eq_none_iff, entriesUnder_eq_none_iff, sortBy]
  constructor
  · intro h c hc hsame
    exact h c ((List.mem_insertionSort _).2 (List.mem_filter.2 ⟨hc, hsame⟩)) hsame
  · intro h c hc hsame
    exact h c (List.mem_filter.1 ((List.mem_insertionSort _).1 hc)).1 hsame

/-- The filters before premerging are loaded ones, or those of the global configuration that has been
added. -/
theorem filters_of_mem_prepareConfigurations {configurations : List ServerConfiguration}
    {c : ServerConfiguration} (hc : c ∈ prepareConfigurations configurations) :
    c = ⟨∅, nonHostGlobal⟩ ∨ ∃ g ∈ configurations, g.filters = c.filters := by
  have hkey : ∀ a b, (mergeInto a b).filters = a.filters := fun _ _ => rfl
  have hmerged : c ∈ mergeDuplicates configurations →
      ∃ g ∈ configurations, g.filters = c.filters := by
    intro h
    obtain ⟨g, hg, hfilters⟩ := exists_key_of_mem_mergeAdjacent ServerConfiguration.filters hkey h
    exact ⟨g, (List.mem_insertionSort _).1 hg, hfilters⟩
  rw [prepareConfigurations, removeAndAddGlobalConfiguration] at hc
  split at hc
  · exact Or.inr (hmerged (List.mem_filter.1 hc).1)
  · rcases List.mem_cons.1 hc with rfl | hkept
    · exact Or.inl rfl
    · exact Or.inr (hmerged (List.mem_filter.1 hkept).1)

/-! ## The blocks around a nested block -/

/-- A conditional block in a location or in another conditional block. -/
def Block.IsNested (b : Block) : Prop :=
  b.filters.errorHandlerStatus = none ∧ b.enclosing ≠ []

section Blocks

variable (blocks : List Block)

/-- The entries that the blocks with some filters set under a name. Blocks with equal filters are one
block, as `merge_duplicates` takes them. -/
def setEntries (name : Str) (filters : ServerConfigurationFilters) :
    Option ServerConfigurationEntries :=
  entriesUnder filters name (blocks.map Block.configuration)

/-- The entries of the nearest block around a block that sets a directive: a conditional block, the
location or the host block. -/
def nearestAround (name : Str) (b : Block) : Option ServerConfigurationEntries :=
  (b.enclosing.map (fun c => b.filtersUnder (some c)) ++ [b.filtersUnder none]).findSome?
    (setEntries blocks name)

/-- The entries of a directive in the host block, or in the nearest block around it that sets it. -/
def hostEntries (name : Str) (filters : ServerConfigurationFilters) :
    Option ServerConfigurationEntries :=
  [clearCondition filters, clearHostname filters, clearIp filters, clearPort filters,
    nonHostGlobal].findSome? (setEntries blocks name)

/-- Inheritance of nested blocks: a nested block that sets some directive is there in the result, and
each directive that it does not set has the entries of the nearest block around it that sets it. -/
structure NestedBlocksInherit (result : List ServerConfiguration) : Prop where
  obtained : ∀ b ∈ blocks, b.IsNested → ∀ name, setEntries blocks name b.filters ≠ none →
    ∃ d ∈ result, (d.filters == b.filters) = true
  inherits : ∀ b ∈ blocks, b.IsNested → ∀ name, setEntries blocks name b.filters = none →
    ∀ entries, nearestAround blocks name b = some entries →
      ∀ d ∈ result, (d.filters == b.filters) = true → d.entries.lookup name = some entries

/-- Wherever a nested block does not set a directive and one of the blocks around it does, the host
block or the nearest block around it gives the entries of the nearest one, unless there is a block
whose conditions are tied with those of the nested block: then the first such block gives them. -/
def HostAnswers : Prop :=
  ∀ b ∈ blocks, b.IsNested → ∀ name, setEntries blocks name b.filters = none →
    ∀ entries, nearestAround blocks name b = some entries →
      ∀ c ∈ prepareConfigurations (blocks.map Block.configuration),
        (c.filters == b.filters) = true →
          (tiedEntries (prepareConfigurations (blocks.map Block.configuration)) name c.filters).or
            (hostEntries blocks name b.filters) = some entries

variable {blocks}

theorem clearCondition_eq_of_beq {f g : ServerConfigurationFilters} (h : (f == g) = true) :
    clearCondition f = clearCondition g := by
  obtain ⟨hisHost, hhostname, hip, hport, -⟩ := (ServerConfigurationFilters.beq_iff f g).1 h
  simp only [clearCondition, clearErrorHandlerStatus, hisHost, hhostname, hip, hport]

/-- What premerging finds around the conditions of a block. -/
theorem outerEntries_prepareConfigurations (name : Str) {f g : ServerConfigurationFilters}
    (h : (f == g) = true) :
    outerEntries (prepareConfigurations (blocks.map Block.configuration)) name f =
      hostEntries blocks name g := by
  have hclear := clearCondition_eq_of_beq h
  have hhost : ∀ host : ServerConfigurationFilters, host.condition = none →
      entriesWith (prepareConfigurations (blocks.map Block.configuration)) name host =
        setEntries blocks name host := fun host hnone =>
    entriesWith_prepareConfigurations (.of_none hnone) name _
  rw [outerEntries, hostEntries, clearPort, clearIp, clearHostname, hclear]
  simp only [List.findSome?_cons, List.findSome?_nil]
  rw [hhost _ rfl, hhost _ rfl, hhost _ rfl, hhost _ rfl, hhost _ rfl]
  rfl

/-- A premerged block has, for a directive that it does not set, what the first block with tied
conditions gives, then what the host block and the blocks around it give. -/
theorem lookup_of_unset {b : Block} {name : Str} (hunset : setEntries blocks name b.filters = none)
    {c d : ServerConfiguration} (hc : c ∈ prepareConfigurations (blocks.map Block.configuration))
    (hsame : (c.filters == b.filters) = true)
    (hpremerges : PremergesTo (prepareConfigurations (blocks.map Block.configuration)) c d) :
    d.entries.lookup name =
      (tiedEntries (prepareConfigurations (blocks.map Block.configuration)) name c.filters).or
        (hostEntries blocks name b.filters) := by
  have hlacks : c.entries.lookup name = none :=
    entriesUnder_eq_none_iff.1
      ((entriesUnder_prepareConfigurations_eq_none_iff _ _ _).2 hunset) c hc hsame
  rw [hpremerges.lookup_eq, hlacks, Option.none_or, outerEntries_prepareConfigurations name hsame]

/-- Filters under which something is set are there in the result. -/
theorem exists_processed_of_entriesUnder {configurations : List ServerConfiguration}
    {filters : ServerConfigurationFilters} {name : Str}
    (hset : entriesUnder filters name configurations ≠ none) :
    ∃ d ∈ processConfigurations configurations, (d.filters == filters) = true := by
  rw [ne_eq, ← entriesUnder_prepareConfigurations_eq_none_iff, entriesUnder_eq_none_iff] at hset
  push Not at hset
  obtain ⟨c, hc, hsame, -⟩ := hset
  obtain ⟨d, hd, hpremerges⟩ := exists_premerged hc
  exact ⟨d, hd, by rw [hpremerges.filters_eq]; exact hsame⟩

/-- A block that sets something is there in the result. -/
theorem exists_processed {filters : ServerConfigurationFilters} {name : Str}
    (hset : setEntries blocks name filters ≠ none) :
    ∃ d ∈ processConfigurations (blocks.map Block.configuration), (d.filters == filters) = true :=
  exists_processed_of_entriesUnder hset

/-- Nested blocks inherit exactly when the host block answers for the blocks around them. -/
theorem nestedBlocksInherit_iff_hostAnswers (blocks : List Block) :
    NestedBlocksInherit blocks (processConfigurations (blocks.map Block.configuration)) ↔
      HostAnswers blocks := by
  constructor
  · intro h b hb hnested name hunset entries hnearest c hc hsame
    obtain ⟨d, hd, hpremerges⟩ := exists_premerged hc
    rw [← lookup_of_unset hunset hc hsame hpremerges]
    exact h.inherits b hb hnested name hunset entries hnearest d hd
      (by rw [hpremerges.filters_eq]; exact hsame)
  · intro h
    refine ⟨fun _ _ _ _ hset => exists_processed hset, ?_⟩
    intro b hb hnested name hunset entries hnearest d hd hsame
    obtain ⟨c, hc, hpremerges⟩ := premergesTo_of_mem hd
    rw [hpremerges.filters_eq] at hsame
    rw [lookup_of_unset hunset hc hsame hpremerges]
    exact h b hb hnested name hunset entries hnearest c hc hsame

/-! ## Without tied conditions -/

variable (blocks) in
/-- Conditions that the derived order ties are equal. -/
def ConditionsUntied : Prop :=
  ∀ a ∈ blocks, ∀ b ∈ blocks, compare (ConditionKey.of a.filters) (ConditionKey.of b.filters) = .eq →
    (a.filters.condition == b.filters.condition) = true

/-- Then the conditions before premerging are equal when they are tied. -/
theorem beq_of_compare_key (huntied : ConditionsUntied blocks) {g c : ServerConfiguration}
    (hg : g ∈ prepareConfigurations (blocks.map Block.configuration))
    (hc : c ∈ prepareConfigurations (blocks.map Block.configuration))
    (hkey : compare (ConditionKey.of g.filters) (ConditionKey.of c.filters) = .eq) :
    (g.filters.condition == c.filters.condition) = true := by
  have hglobal : ConditionKey.of nonHostGlobal = none := rfl
  rcases filters_of_mem_prepareConfigurations hg with rfl | ⟨g', hg', hgfilters⟩
  · rw [hglobal] at hkey
    exact BEq.symm ((compare_key_none_iff c.filters).1 (OrientedCmp.eq_symm hkey))
  · rcases filters_of_mem_prepareConfigurations hc with rfl | ⟨c', hc', hcfilters⟩
    · rw [hglobal] at hkey
      exact (compare_key_none_iff g.filters).1 hkey
    · obtain ⟨a, ha, rfl⟩ := List.mem_map.1 hg'
      obtain ⟨b, hb, rfl⟩ := List.mem_map.1 hc'
      rw [← hgfilters, ← hcfilters] at hkey ⊢
      exact huntied a ha b hb hkey

/-- Then the first block with tied conditions is the block itself. -/
theorem tiedEntries_eq_none_of_untied (huntied : ConditionsUntied blocks) {b : Block}
    (hstatus : b.filters.errorHandlerStatus = none) {name : Str}
    (hunset : setEntries blocks name b.filters = none) {c : ServerConfiguration}
    (hc : c ∈ prepareConfigurations (blocks.map Block.configuration))
    (hsame : (c.filters == b.filters) = true) :
    tiedEntries (prepareConfigurations (blocks.map Block.configuration)) name c.filters = none := by
  rw [tiedEntries]
  cases hfind : (prepareConfigurations (blocks.map Block.configuration)).find?
      (tiedBlock c.filters) with
  | none => rfl
  | some g =>
      have hg := List.mem_of_find?_eq_some hfind
      have htied := List.find?_some hfind
      simp only [tiedBlock, Bool.and_eq_true, beq_iff_eq, Option.isNone_iff_eq_none] at htied
      obtain ⟨⟨⟨⟨⟨hisHost, hport⟩, hip⟩, hhostname⟩, hkey⟩, herror⟩ := htied
      have hstatusC : c.filters.errorHandlerStatus = none :=
        ((ServerConfigurationFilters.beq_iff _ _).1 hsame).2.2.2.2.2.trans hstatus
      have hgc : (g.filters == c.filters) = true := by
        rw [ServerConfigurationFilters.beq_iff]
        exact ⟨hisHost, hhostname, hip, hport, beq_of_compare_key huntied hg hc hkey,
          herror.trans hstatusC.symm⟩
      exact entriesUnder_eq_none_iff.1
        ((entriesUnder_prepareConfigurations_eq_none_iff _ _ _).2 hunset) g hg
        (BEq.trans hgc hsame)

/-- A block has nothing from a location or a conditional block around it: a directive that it does not
set comes from the host block or the blocks around that. -/
theorem lookup_of_untied (huntied : ConditionsUntied blocks) {b : Block}
    (hstatus : b.filters.errorHandlerStatus = none) {name : Str}
    (hunset : setEntries blocks name b.filters = none) {d : ServerConfiguration}
    (hd : d ∈ processConfigurations (blocks.map Block.configuration))
    (hsame : (d.filters == b.filters) = true) :
    d.entries.lookup name = hostEntries blocks name b.filters := by
  obtain ⟨c, hc, hpremerges⟩ := premergesTo_of_mem hd
  rw [hpremerges.filters_eq] at hsame
  rw [lookup_of_unset hunset hc hsame hpremerges,
    tiedEntries_eq_none_of_untied huntied hstatus hunset hc hsame, Option.none_or]

end Blocks

/-! ## Inheritance in a file -/

/-- The blocks that are loaded from a file. -/
def Loads (env : Environment) (path : PathBuf) (blocks : List Block) : Prop :=
  ∃ fuel, loadConfiguration env fuel path = pure blocks

/-- Nested blocks of the file and of those that it includes inherit from the blocks around them. -/
def InheritsFromEnclosing (env : Environment) (path : PathBuf) : Prop :=
  ∀ blocks, Loads env path blocks →
    NestedBlocksInherit blocks (processConfigurations (blocks.map Block.configuration))

/-- Nested blocks inherit from the blocks around them exactly when the host block answers for these. -/
theorem inheritsFromEnclosing_iff (env : Environment) (path : PathBuf) :
    InheritsFromEnclosing env path ↔ ∀ blocks, Loads env path blocks → HostAnswers blocks :=
  forall₂_congr fun blocks _ => nestedBlocksInherit_iff_hostAnswers blocks

/-- A directive with a text. -/
def textDirective (name : String) (text : String) : KdlNode :=
  ⟨name.toList, [⟨none, .string text.toList⟩], none⟩

/-- A host with a location that is removed from the path and sets a proxy. In it there is a conditional
block that sets a root. -/
def nestedDocument : KdlDocument :=
  [⟨"host".toList, [], some
    [⟨"condition".toList, [⟨none, .string "C".toList⟩], some
        [⟨"is_equal".toList, [⟨none, .string "a".toList⟩, ⟨none, .string "a".toList⟩], none⟩]⟩,
      ⟨"location".toList,
        [⟨none, .string "/a".toList⟩, ⟨some "remove_base".toList, .bool true⟩], some
        [textDirective "proxy" "http://b",
          ⟨"if".toList, [⟨none, .string "C".toList⟩], some [textDirective "root" "/r"]⟩]⟩]⟩]

/-- An environment with one document and without addresses. -/
def documentEnvironment (document : KdlDocument) : Environment where
  toLibraries := plainLibraries
  canonicalize := some
  readToString _ := .ok []
  parseKdl _ := .ok document
  glob _ := .ok []
  parseSocketAddr _ := none

/-- The blocks of the document. -/
def nestedBlocks : List Block :=
  let host : HostFilter := ⟨some "host".toList, none, none, true⟩
  let location : Conditions := ⟨"/a".toList, []⟩
  let conditional : Conditions :=
    ⟨"/a".toList, [.ifBlock [.isEqual "a".toList "a".toList]]⟩
  [⟨⟨AList.insert "root".toList (textEntries "/r".toList) ∅, host.filters (some conditional) none⟩,
      [location]⟩,
    ⟨⟨AList.insert "UNDOCUMENTED_REMOVE_PATH_PREFIX".toList (removeBaseMarker "/a".toList)
        (AList.insert "proxy".toList (textEntries "http://b".toList) ∅),
      host.filters (some location) none⟩, []⟩,
    ⟨⟨∅, host.filters none none⟩, []⟩]

theorem loads_nestedBlocks :
    Loads (documentEnvironment nestedDocument) "ferron.kdl".toList nestedBlocks :=
  ⟨5, rfl⟩

/-- The conditional block. -/
def nestedBlock : Block := nestedBlocks.head (by decide)

theorem conditionsUntied_nestedBlocks : ConditionsUntied nestedBlocks := by
  unfold ConditionsUntied
  decide

/-- The conditional block has neither the proxy nor the marker of the location around it. -/
theorem nestedBlock_lacks_location :
    (∀ d ∈ processConfigurations (nestedBlocks.map Block.configuration),
      (d.filters == nestedBlock.filters) = true →
        d.entries.lookup "proxy".toList = none ∧
          d.entries.lookup "UNDOCUMENTED_REMOVE_PATH_PREFIX".toList = none) ∧
      ¬InheritsFromEnclosing (documentEnvironment nestedDocument) "ferron.kdl".toList := by
  have hproxy : setEntries nestedBlocks "proxy".toList nestedBlock.filters = none := by decide
  have hmarker : setEntries nestedBlocks "UNDOCUMENTED_REMOVE_PATH_PREFIX".toList
      nestedBlock.filters = none := by decide
  have hlacks : ∀ d ∈ processConfigurations (nestedBlocks.map Block.configuration),
      (d.filters == nestedBlock.filters) = true →
        d.entries.lookup "proxy".toList = none ∧
          d.entries.lookup "UNDOCUMENTED_REMOVE_PATH_PREFIX".toList = none := by
    intro d hd hsame
    rw [lookup_of_untied conditionsUntied_nestedBlocks rfl hproxy hd hsame,
      lookup_of_untied conditionsUntied_nestedBlocks rfl hmarker hd hsame]
    exact ⟨by decide, by decide⟩
  refine ⟨hlacks, ?_⟩
  intro h
  have hinherit := h nestedBlocks loads_nestedBlocks
  have hnested : nestedBlock.IsNested := ⟨rfl, by decide⟩
  have hmem : nestedBlock ∈ nestedBlocks := List.mem_cons_self
  obtain ⟨d, hd, hsame⟩ := hinherit.obtained nestedBlock hmem hnested "root".toList (by decide)
  have hentries := hinherit.inherits nestedBlock hmem hnested "proxy".toList hproxy
    (textEntries "http://b".toList) rfl d hd hsame
  rw [(hlacks d hd hsame).1] at hentries
  exact Option.some_ne_none _ hentries.symm

end Ferron.Config
