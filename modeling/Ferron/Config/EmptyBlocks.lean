import Ferron.Config.FindConfiguration
import Ferron.Config.NestedBlocks
import Mathlib.Data.List.Forall2

/-!
# Empty blocks

`removeAndAddGlobalConfiguration` drops the blocks without entries. What the other ones inherit stays the
same. An empty block that matches a request and is dropped leaves the request to the next block, though, so
that the request gets the directives of a block whose location is around the empty one, or of a wildcard
host; the empty block itself inherits from its host only.

`inEffect_removeAndAdd` says that the request gets the directives of the block with entries that comes
first in the scan, and that nothing changes when the block that is found has entries.
-/

set_option autoImplicit false

namespace Ferron.Config

open Ferron.Common Ferron.Lib.StableSort Std

/-- `remove_and_add_global_configuration` without the removal. -/
def addGlobalConfiguration (configurations : List ServerConfiguration) : List ServerConfiguration :=
  if configurations.any fun c => c.filters.isGlobalNonHost then configurations
  else ⟨∅, nonHostGlobal⟩ :: configurations

/-- The configuration has entries. -/
def hasEntries (c : ServerConfiguration) : Bool := !c.entries.entries.isEmpty

/-- The configurations in the order in which `find_configuration` goes through them. -/
def scanOrder (configurations : List ServerConfiguration) : List ServerConfiguration :=
  (ServerConfigurations.new configurations).inner.reverse

/-- Filters are pairwise different. -/
def DistinctFilters (configurations : List ServerConfiguration) : Prop :=
  configurations.Pairwise fun a b => (a.filters == b.filters) = false

/-! ## Premerging element by element -/

/-- The configurations of the result, in the order of the sort, and those that they come from. -/
theorem forall₂_premergeConfiguration (configurations : List ServerConfiguration) :
    List.Forall₂ (fun c d => c ∈ configurations ∧ PremergesTo configurations c d)
      (sortBy ServerConfigurationFilters.cmp ServerConfiguration.filters configurations)
      (premergeConfiguration configurations) := by
  have hall : ∀ front popped : List ServerConfiguration,
      sortBy ServerConfigurationFilters.cmp ServerConfiguration.filters configurations =
        popped.reverse ++ front →
      List.Forall₂ (fun c d => c ∈ configurations ∧ PremergesTo configurations c d) popped
        (premergeAll (ServerConfigurationFilterTrie.ofConfigurations
          (sortBy ServerConfigurationFilters.cmp ServerConfiguration.filters configurations))
          popped) := by
    intro front popped
    induction popped generalizing front with
    | nil => exact fun _ => List.Forall₂.nil
    | cons c popped ih =>
        intro hsorted
        rw [List.reverse_cons, List.append_assoc, List.singleton_append] at hsorted
        refine List.Forall₂.cons ⟨?_, rfl, fun name => ?_⟩ (ih (c :: front) hsorted)
        · rw [← List.mem_insertionSort
            (KeyLE ServerConfigurationFilters.cmp ServerConfiguration.filters)]
          change c ∈ sortBy ServerConfigurationFilters.cmp ServerConfiguration.filters configurations
          rw [hsorted]
          exact List.mem_append_right _ List.mem_cons_self
        · rw [hsorted]
          exact lookup_premerged name hsorted
  rw [premergeConfiguration, ← List.forall₂_reverse_iff, List.reverse_reverse]
  exact hall [] _ (by rw [List.reverse_reverse, List.append_nil])

/-- The premerged configurations in the order of the scan, and those that they come from. -/
theorem forall₂_scanOrder (configurations : List ServerConfiguration) :
    List.Forall₂ (fun c d => c ∈ configurations ∧ PremergesTo configurations c d)
      (scanOrder (sortBy ServerConfigurationFilters.cmp ServerConfiguration.filters configurations))
      (scanOrder (premergeConfiguration configurations)) := by
  rw [scanOrder, scanOrder, List.forall₂_reverse_iff]
  refine forall₂_insertionSort _ ?_
    (List.forall₂_reverse_iff.2 (forall₂_premergeConfiguration configurations))
  intro a b a' b' ha hb
  rw [KeyLE, KeyLE, ha.2.filters_eq, hb.2.filters_eq]

/-! ## What a kept configuration inherits -/

section Inheritance

variable {configurations : List ServerConfiguration}

/-- The global configuration differs from the ones that are there when it is added. -/
theorem distinctFilters_cons_global (hdistinct : DistinctFilters configurations)
    (hnone : (configurations.any fun c => c.filters.isGlobalNonHost) = false) :
    DistinctFilters (⟨∅, nonHostGlobal⟩ :: configurations) := by
  refine List.Pairwise.cons ?_ hdistinct
  intro c hc
  rw [← Bool.not_eq_true]
  intro hsame
  have hhost := ((ServerConfigurationFilters.beq_iff _ _).1 hsame).1
  rw [List.any_eq_false] at hnone
  apply hnone c hc
  rw [ServerConfigurationFilters.isGlobalNonHost, ← hhost]
  rfl

theorem distinctFilters_addGlobalConfiguration (hdistinct : DistinctFilters configurations) :
    DistinctFilters (addGlobalConfiguration configurations) := by
  rw [addGlobalConfiguration]
  split
  · exact hdistinct
  · rename_i hnone
    exact distinctFilters_cons_global hdistinct (Bool.not_eq_true _ ▸ hnone)

theorem distinctFilters_removeAndAdd (hdistinct : DistinctFilters configurations) :
    DistinctFilters (removeAndAddGlobalConfiguration configurations) := by
  rw [removeAndAddGlobalConfiguration]
  split
  · exact hdistinct.filter _
  · rename_i hnone
    exact distinctFilters_cons_global (hdistinct.filter _) (Bool.not_eq_true _ ▸ hnone)

/-- A configuration is determined by its filters. -/
theorem DistinctFilters.eq_of_beq (h : DistinctFilters configurations) {a b : ServerConfiguration}
    (ha : a ∈ configurations) (hb : b ∈ configurations) (hsame : (a.filters == b.filters) = true) :
    a = b := by
  by_contra hne
  have hsymm : Std.Symm fun a b : ServerConfiguration => (a.filters == b.filters) = false :=
    ⟨fun a b hab => by rw [← hab]; exact BEq.comm⟩
  have hdiffer := List.Pairwise.forall h ha hb hne
  exact absurd (hdiffer.symm.trans hsame) Bool.false_ne_true

/-- When one configuration with a property is empty, all of them are. -/
def EmptyTogether (p : ServerConfiguration → Bool) (configurations : List ServerConfiguration) : Prop :=
  ∀ a ∈ configurations, p a = true → hasEntries a = false →
    ∀ b ∈ configurations, p b = true → hasEntries b = false

/-- With different filters, some filters stand at most once. -/
theorem DistinctFilters.emptyTogether (hdistinct : DistinctFilters configurations)
    (filters : ServerConfigurationFilters) :
    EmptyTogether (fun c => c.filters == filters) configurations := by
  intro a ha hpa hempty b hb hpb
  rw [← hdistinct.eq_of_beq ha hb (BEq.trans hpa (BEq.symm hpb)), hempty]

/-- Empty configurations give nothing, so they need not be looked at. -/
theorem bind_find?_filter_hasEntries {p : ServerConfiguration → Bool}
    (htogether : EmptyTogether p configurations) (name : Str) :
    (configurations.find? p).bind (fun c => c.entries.lookup name) =
      ((configurations.filter hasEntries).find? p).bind fun c => c.entries.lookup name := by
  induction configurations with
  | nil => rfl
  | cons a rest ih =>
      have hrest : EmptyTogether p rest := fun b hb hpb hempty c hc =>
        htogether b (List.mem_cons_of_mem _ hb) hpb hempty c (List.mem_cons_of_mem _ hc)
      by_cases hentries : hasEntries a = true
      · rw [List.filter_cons_of_pos hentries, List.find?_cons, List.find?_cons]
        cases p a with
        | true => rfl
        | false => exact ih hrest
      · rw [List.filter_cons_of_neg hentries, List.find?_cons]
        rw [Bool.not_eq_true] at hentries
        cases hp : p a with
        | false => exact ih hrest
        | true =>
            -- the other ones with the property are empty as well
            have hnone : (rest.filter hasEntries).find? p = none := by
              rw [List.find?_eq_none]
              intro b hb hpb
              obtain ⟨hmem, hkept⟩ := List.mem_filter.1 hb
              rw [htogether a List.mem_cons_self hp hentries b (List.mem_cons_of_mem _ hmem) hpb] at hkept
              exact Bool.false_ne_true hkept
            rw [hnone, Option.bind_none]
            apply lookup_of_isEmpty
            rwa [hasEntries, Bool.not_eq_false'] at hentries

theorem filter_hasEntries_addGlobalConfiguration :
    (addGlobalConfiguration configurations).filter hasEntries = configurations.filter hasEntries := by
  rw [addGlobalConfiguration]
  split
  · rfl
  · rfl

theorem filter_hasEntries_removeAndAdd :
    (removeAndAddGlobalConfiguration configurations).filter hasEntries =
      configurations.filter hasEntries := by
  have hkept : (configurations.filter hasEntries).filter hasEntries =
      configurations.filter hasEntries := by
    rw [List.filter_filter]
    simp only [Bool.and_self]
  rw [removeAndAddGlobalConfiguration]
  split
  · exact hkept
  · exact hkept

theorem mem_of_mem_addGlobalConfiguration {c : ServerConfiguration}
    (hc : c ∈ addGlobalConfiguration configurations) : c = ⟨∅, nonHostGlobal⟩ ∨ c ∈ configurations := by
  rw [addGlobalConfiguration] at hc
  split at hc
  · exact Or.inr hc
  · exact List.mem_cons.1 hc

theorem mem_of_mem_removeAndAdd {c : ServerConfiguration}
    (hc : c ∈ removeAndAddGlobalConfiguration configurations) :
    c = ⟨∅, nonHostGlobal⟩ ∨ c ∈ configurations ∧ hasEntries c = true := by
  rw [removeAndAddGlobalConfiguration] at hc
  split at hc
  · exact Or.inr (List.mem_filter.1 hc)
  · exact (List.mem_cons.1 hc).imp_right List.mem_filter.1

/-- What is found is the same after the removal, when a configuration that is removed is found alone. -/
theorem bind_find?_removeAndAdd {p : ServerConfiguration → Bool}
    (hadd : EmptyTogether p (addGlobalConfiguration configurations))
    (hremove : EmptyTogether p (removeAndAddGlobalConfiguration configurations)) (name : Str) :
    ((removeAndAddGlobalConfiguration configurations).find? p).bind (fun c => c.entries.lookup name) =
      ((addGlobalConfiguration configurations).find? p).bind fun c => c.entries.lookup name := by
  rw [bind_find?_filter_hasEntries hremove, bind_find?_filter_hasEntries hadd,
    filter_hasEntries_removeAndAdd, filter_hasEntries_addGlobalConfiguration]

theorem outerEntries_removeAndAdd (hdistinct : DistinctFilters configurations) (name : Str)
    (filters : ServerConfigurationFilters) :
    outerEntries (removeAndAddGlobalConfiguration configurations) name filters =
      outerEntries (addGlobalConfiguration configurations) name filters := by
  have hwith : entriesWith (removeAndAddGlobalConfiguration configurations) name =
      entriesWith (addGlobalConfiguration configurations) name := by
    funext outer
    exact bind_find?_removeAndAdd ((distinctFilters_addGlobalConfiguration hdistinct).emptyTogether outer)
      ((distinctFilters_removeAndAdd hdistinct).emptyTogether outer) name
  rw [outerEntries, outerEntries, hwith]

/-- The derived order ties the condition of an empty configuration with equal conditions only. -/
def EmptyUntied (configurations : List ServerConfiguration) : Prop :=
  ∀ a ∈ configurations, hasEntries a = false → ∀ b ∈ configurations,
    compare (ConditionKey.of a.filters) (ConditionKey.of b.filters) = .eq →
      (a.filters.condition == b.filters.condition) = true

/-- Two blocks whose conditions are tied with the same ones have the same filters, if their conditions are
equal when they are tied. -/
theorem filters_beq_of_tiedBlock {filters : ServerConfigurationFilters} {a b : ServerConfiguration}
    (ha : tiedBlock filters a = true) (hb : tiedBlock filters b = true)
    (hcondition : compare (ConditionKey.of a.filters) (ConditionKey.of b.filters) = .eq →
      (a.filters.condition == b.filters.condition) = true) : (a.filters == b.filters) = true := by
  simp only [tiedBlock, Bool.and_eq_true, beq_iff_eq, Option.isNone_iff_eq_none] at ha hb
  obtain ⟨⟨⟨⟨⟨hisHost, hport⟩, hip⟩, hhostname⟩, hkey⟩, herror⟩ := ha
  obtain ⟨⟨⟨⟨⟨hisHost', hport'⟩, hip'⟩, hhostname'⟩, hkey'⟩, herror'⟩ := hb
  rw [ServerConfigurationFilters.beq_iff]
  exact ⟨hisHost.trans hisHost'.symm, hhostname.trans hhostname'.symm, hip.trans hip'.symm,
    hport.trans hport'.symm, hcondition (TransCmp.eq_trans hkey (OrientedCmp.eq_symm hkey')),
    herror.trans herror'.symm⟩

/-- A block whose conditions are tied with those of an empty one is the empty one itself. -/
theorem tiedBlock_emptyTogether (huntied : EmptyUntied configurations) {list : List ServerConfiguration}
    (hdistinct : DistinctFilters list) (hlist : ∀ g ∈ list, g = ⟨∅, nonHostGlobal⟩ ∨ g ∈ configurations)
    (filters : ServerConfigurationFilters) : EmptyTogether (tiedBlock filters) list := by
  intro a ha hpa hempty b hb hpb
  rcases hlist b hb with rfl | hbmem
  · rfl
  · have hsame : (a.filters == b.filters) = true := by
      apply filters_beq_of_tiedBlock hpa hpb
      intro hkey
      rcases hlist a ha with rfl | hamem
      · exact BEq.symm ((compare_key_none_iff b.filters).1 (OrientedCmp.eq_symm hkey))
      · exact huntied a hamem hempty b hbmem hkey
    rw [← hdistinct.eq_of_beq ha hb hsame, hempty]

/-- A configuration that is kept has the same directives as without the removal. -/
theorem lookup_removeAndAdd (hdistinct : DistinctFilters configurations)
    (huntied : EmptyUntied configurations) {c d e : ServerConfiguration}
    (hd : PremergesTo (removeAndAddGlobalConfiguration configurations) c d)
    (he : PremergesTo (addGlobalConfiguration configurations) c e) (name : Str) :
    d.entries.lookup name = e.entries.lookup name := by
  have htied : tiedEntries (removeAndAddGlobalConfiguration configurations) name c.filters =
      tiedEntries (addGlobalConfiguration configurations) name c.filters := by
    apply bind_find?_removeAndAdd
    · exact tiedBlock_emptyTogether huntied (distinctFilters_addGlobalConfiguration hdistinct)
        (fun g hg => mem_of_mem_addGlobalConfiguration hg) c.filters
    · exact tiedBlock_emptyTogether huntied (distinctFilters_removeAndAdd hdistinct)
        (fun g hg => (mem_of_mem_removeAndAdd hg).imp_right And.left) c.filters
  rw [hd.lookup_eq, he.lookup_eq, htied, outerEntries_removeAndAdd hdistinct]

end Inheritance

/-! ## The scan -/

/-- Two configurations have the same filters and directives. -/
structure SameDirectives (c d : ServerConfiguration) : Prop where
  filters_eq : c.filters = d.filters
  lookup_eq : ∀ name, c.entries.lookup name = d.entries.lookup name

/-- The directives of a configuration, or none. -/
def directives (found : Option ServerConfiguration) (name : Str) : Option ServerConfigurationEntries :=
  found.bind fun c => c.entries.lookup name

/-- Lists are scanned in the order of the sort, and sorting commutes with taking some elements. -/
theorem filter_scanOrder (p : ServerConfiguration → Bool) (list : List ServerConfiguration) :
    (scanOrder list).filter p = scanOrder (list.filter p) := by
  rw [scanOrder, scanOrder, ServerConfigurations.new, ServerConfigurations.new, List.filter_reverse,
    sortBy, sortBy, filter_insertionSort_comm, List.filter_reverse]

theorem mem_scanOrder {list : List ServerConfiguration} {c : ServerConfiguration} :
    c ∈ scanOrder list ↔ c ∈ list := by
  rw [scanOrder, List.mem_reverse, ServerConfigurations.new, sortBy, List.mem_insertionSort,
    List.mem_reverse]

/-- The order in which premerged configurations are scanned, before they are premerged. -/
def sortedScan (list : List ServerConfiguration) : List ServerConfiguration :=
  scanOrder (sortBy ServerConfigurationFilters.cmp ServerConfiguration.filters list)

theorem filter_sortedScan (p : ServerConfiguration → Bool) (list : List ServerConfiguration) :
    (sortedScan list).filter p = sortedScan (list.filter p) := by
  rw [sortedScan, filter_scanOrder, sortBy, filter_insertionSort_comm]
  rfl

section Scan

variable {ε : Type}
  {matchCondition : ConditionalData → HashMap Str Str → Except ε (Bool × HashMap Str Str)}
  {toLowercase : Str → Str} {path : Str} {hostname : Option Str} {localAddr : LocalAddress}

/-- The scan finds the same directives in lists with the same ones. -/
theorem findMatching_congr {first second : List ServerConfiguration}
    (h : List.Forall₂ SameDirectives first second) :
    (findMatching matchCondition toLowercase path hostname localAddr first).map directives =
      (findMatching matchCondition toLowercase path hostname localAddr second).map directives := by
  induction h with
  | nil => rfl
  | @cons c d rest rest' hsame _ ih =>
      rw [findMatching, findMatching, hsame.filters_eq]
      split
      · rfl
      · have hdirectives : directives (some c) = directives (some d) := funext hsame.lookup_eq
        rw [Except.map, Except.map, hdirectives]
      · exact ih

/-- The scan of a list goes on when nothing is found before. -/
theorem findMatching_append (first second : List ServerConfiguration) :
    findMatching matchCondition toLowercase path hostname localAddr (first ++ second) =
      match findMatching matchCondition toLowercase path hostname localAddr first with
      | .ok none => findMatching matchCondition toLowercase path hostname localAddr second
      | found => found := by
  induction first with
  | nil => rfl
  | cons c rest ih =>
      rw [List.cons_append, findMatching, findMatching]
      split
      · rfl
      · rfl
      · exact ih

/-- A configuration without directives and conditions at the end of the scan adds none. -/
theorem findMatching_append_global (list : List ServerConfiguration) {global : ServerConfiguration}
    (hcondition : global.filters.condition = none) (hempty : ∀ name, global.entries.lookup name = none) :
    (findMatching matchCondition toLowercase path hostname localAddr (list ++ [global])).map directives =
      (findMatching matchCondition toLowercase path hostname localAddr list).map directives := by
  rw [findMatching_append]
  split
  · rename_i hnone
    have hdirectives : directives (some global) = directives none := funext hempty
    have hmatches : ∃ matched, matchesRequest matchCondition toLowercase global.filters path hostname
        localAddr = .ok matched := by
      rw [matchesRequest, hcondition]
      split
      · exact ⟨_, rfl⟩
      · exact ⟨_, rfl⟩
    obtain ⟨matched, hmatched⟩ := hmatches
    simp only [hnone, findMatching, hmatched]
    cases matched with
    | true => rw [Except.map, Except.map, hdirectives]
    | false => rfl
  · rfl

/-- What is found among all configurations is found among those that are kept, when it is kept or when
there is none. -/
theorem findMatching_filter {kept : ServerConfiguration → Bool} {list : List ServerConfiguration}
    {found : Option ServerConfiguration}
    (hfound : findMatching matchCondition toLowercase path hostname localAddr list = .ok found)
    (hkept : ∀ d, found = some d → kept d = true) :
    findMatching matchCondition toLowercase path hostname localAddr (list.filter kept) = .ok found := by
  induction list with
  | nil => exact hfound
  | cons c rest ih =>
      rw [findMatching] at hfound
      split at hfound
      · exact absurd hfound (by simp)
      · rename_i hmatches
        obtain rfl := Except.ok.inj hfound
        rw [List.filter_cons_of_pos (hkept c rfl), findMatching, hmatches]
      · rename_i hfails
        rw [List.filter_cons]
        split
        · rw [findMatching, hfails]
          exact ih hfound
        · exact ih hfound

end Scan

/-! ## The global configuration -/

/-- Nothing but the global configuration is as unspecific as it. -/
theorem eq_nonHostGlobal_of_isLE {filters : ServerConfigurationFilters}
    (h : (ServerConfigurationFilters.cmp filters nonHostGlobal).isLE = true) :
    filters = nonHostGlobal := by
  have hmarked : MarkedAt filters 0 nonHostGlobal := ⟨rfl, rfl, rfl, rfl, rfl, rfl⟩
  obtain ⟨hisHost, hport, hip, hhostname, hcondition, herror⟩ :=
    hmarked.self_of_cmp (OrientedCmp.isLE_antisymm hmarked.outer.cmp_isLE h)
  obtain ⟨isHost, hostname, ip, port, condition, errorHandlerStatus⟩ := filters
  simp_all [nonHostGlobal]

/-- The scan goes from the more specific configurations to the less specific ones. -/
theorem pairwise_scanOrder (list : List ServerConfiguration) :
    (scanOrder list).Pairwise fun a b =>
      KeyLE ServerConfigurationFilters.cmp ServerConfiguration.filters b a :=
  List.pairwise_reverse.2 (List.pairwise_insertionSort _ _)

theorem perm_sortedScan (list : List ServerConfiguration) : (sortedScan list).Perm list := by
  refine (List.reverse_perm _).trans ((List.perm_insertionSort _ _).trans ?_)
  exact (List.reverse_perm _).trans (List.perm_insertionSort _ _)

theorem distinctFilters_sortedScan {list : List ServerConfiguration} (h : DistinctFilters list) :
    DistinctFilters (sortedScan list) := by
  refine ((perm_sortedScan list).pairwise_iff ?_).2 h
  intro a b hne
  rw [← hne]
  exact BEq.comm

/-- The global configuration is scanned last. -/
theorem exists_append_global {list : List ServerConfiguration} (hdistinct : DistinctFilters list)
    {c : ServerConfiguration} (hc : c ∈ list) (hglobal : c.filters = nonHostGlobal) :
    ∃ front, sortedScan list = front ++ [c] ∧ ∀ a ∈ front, (a.filters == nonHostGlobal) = false := by
  obtain ⟨front, back, hsplit⟩ := List.append_of_mem ((perm_sortedScan list).mem_iff.2 hc)
  have hne := distinctFilters_sortedScan hdistinct
  have hsorted : (sortedScan list).Pairwise fun a b =>
      KeyLE ServerConfigurationFilters.cmp ServerConfiguration.filters b a := pairwise_scanOrder _
  rw [hsplit] at hne hsorted
  obtain ⟨-, hneBack, hneFront⟩ := List.pairwise_append.1 hne
  have hback : back = [] := by
    rw [List.eq_nil_iff_forall_not_mem]
    intro b hb
    have hle := (List.pairwise_cons.1 (List.pairwise_append.1 hsorted).2.1).1 b hb
    rw [KeyLE, hglobal] at hle
    have hsame := (List.pairwise_cons.1 hneBack).1 b hb
    rw [hglobal, eq_nonHostGlobal_of_isLE hle] at hsame
    exact absurd hsame (by decide)
  subst hback
  exact ⟨front, hsplit, fun a ha => hglobal ▸ hneFront a ha c List.mem_cons_self⟩

section Removal

variable {configurations : List ServerConfiguration}

/-- Where a configuration with a property is empty, nothing is found. -/
theorem bind_find?_of_empty {p : ServerConfiguration → Bool}
    (htogether : EmptyTogether p configurations) {c : ServerConfiguration}
    (hc : c ∈ configurations) (hp : p c = true) (hempty : hasEntries c = false) (name : Str) :
    ((configurations.find? p).bind fun c => c.entries.lookup name) = none := by
  have hnone : (configurations.filter hasEntries).find? p = none := by
    rw [List.find?_eq_none]
    intro b hb hpb
    obtain ⟨hmem, hentries⟩ := List.mem_filter.1 hb
    rw [htogether c hc hp hempty b hmem hpb] at hentries
    exact Bool.false_ne_true hentries
  rw [bind_find?_filter_hasEntries htogether, hnone, Option.bind_none]

/-- The empty global configuration is premerged to one without directives. -/
theorem lookup_global (hdistinct : DistinctFilters configurations) {c d : ServerConfiguration}
    (hc : c ∈ configurations) (hglobal : c.filters = nonHostGlobal) (hempty : hasEntries c = false)
    (hd : PremergesTo configurations c d) (name : Str) : d.entries.lookup name = none := by
  have hlookup : c.entries.lookup name = none := by
    apply lookup_of_isEmpty
    rwa [hasEntries, Bool.not_eq_false'] at hempty
  have hself : tiedBlock nonHostGlobal c = true := by
    rw [tiedBlock, hglobal]
    rfl
  have htied : tiedEntries configurations name c.filters = none := by
    rw [hglobal]
    refine bind_find?_of_empty ?_ hc hself hempty name
    intro a ha hpa _ b hb hpb
    -- no other condition is tied with none
    have hsame : (b.filters == c.filters) = true := by
      apply filters_beq_of_tiedBlock hpb hself
      intro hkey
      rw [hglobal] at hkey ⊢
      exact (compare_key_none_iff b.filters).1 hkey
    rw [hdistinct.eq_of_beq hb hc hsame, hempty]
  have hwith : entriesWith configurations name nonHostGlobal = none := by
    refine bind_find?_of_empty (hdistinct.emptyTogether nonHostGlobal) hc ?_ hempty name
    rw [hglobal]
    rfl
  have houter : outerEntries configurations name c.filters = none := by
    rw [hglobal, outerEntries, List.findSome?_eq_none_iff]
    have hall : ∀ filters ∈ [clearCondition nonHostGlobal, clearHostname nonHostGlobal,
        clearIp nonHostGlobal, clearPort nonHostGlobal, nonHostGlobal], filters = nonHostGlobal := by
      simp [clearCondition, clearHostname, clearIp, clearPort, clearErrorHandlerStatus, nonHostGlobal]
    intro filters hfilters
    rw [hall filters hfilters, hwith]
  rw [hd.lookup_eq, hlookup, htied, houter]
  rfl

/-- A premerged configuration comes from one with entries. -/
def comesFromEntries (configurations : List ServerConfiguration) (d : ServerConfiguration) : Bool :=
  configurations.any fun c => c.filters == d.filters && hasEntries c

theorem subset_addGlobalConfiguration {c : ServerConfiguration} (hc : c ∈ configurations) :
    c ∈ addGlobalConfiguration configurations := by
  rw [addGlobalConfiguration]
  split
  · exact hc
  · exact List.mem_cons_of_mem _ hc

theorem comesFromEntries_iff (hdistinct : DistinctFilters configurations) {c d : ServerConfiguration}
    (hc : c ∈ addGlobalConfiguration configurations) (hfilters : d.filters = c.filters) :
    comesFromEntries configurations d = true ↔ hasEntries c = true := by
  rw [comesFromEntries, List.any_eq_true]
  constructor
  · rintro ⟨c', hc', hboth⟩
    obtain ⟨hsame, hentries⟩ := Bool.and_eq_true_iff.1 hboth
    rw [hfilters] at hsame
    have heq := (distinctFilters_addGlobalConfiguration hdistinct).eq_of_beq
      (subset_addGlobalConfiguration hc') hc hsame
    rw [← heq]
    exact hentries
  · intro hentries
    rcases mem_of_mem_addGlobalConfiguration hc with rfl | hmem
    · exact absurd hentries (by decide)
    · refine ⟨c, hmem, ?_⟩
      rw [hfilters, BEq.rfl, hentries]
      rfl

/-- After the removal the configurations with entries are scanned in the same order. The global one that
is added comes last. -/
theorem sortedScan_removeAndAdd (hdistinct : DistinctFilters configurations) :
    sortedScan (removeAndAddGlobalConfiguration configurations) =
        (sortedScan (addGlobalConfiguration configurations)).filter hasEntries ∨
      ⟨∅, nonHostGlobal⟩ ∈ removeAndAddGlobalConfiguration configurations ∧
        sortedScan (removeAndAddGlobalConfiguration configurations) =
          (sortedScan (addGlobalConfiguration configurations)).filter hasEntries ++
            [⟨∅, nonHostGlobal⟩] := by
  have hfilter : (sortedScan (addGlobalConfiguration configurations)).filter hasEntries =
      (sortedScan (removeAndAddGlobalConfiguration configurations)).filter hasEntries := by
    rw [filter_sortedScan, filter_sortedScan, filter_hasEntries_addGlobalConfiguration,
      filter_hasEntries_removeAndAdd]
  rw [hfilter]
  by_cases hadded : ⟨∅, nonHostGlobal⟩ ∈ removeAndAddGlobalConfiguration configurations
  · obtain ⟨front, hsplit, hfront⟩ :=
      exists_append_global (distinctFilters_removeAndAdd hdistinct) hadded rfl
    refine Or.inr ⟨hadded, ?_⟩
    have hentries : front.filter hasEntries = front := by
      rw [List.filter_eq_self]
      intro c hc
      have hmem : c ∈ removeAndAddGlobalConfiguration configurations := by
        rw [← (perm_sortedScan _).mem_iff, hsplit]
        exact List.mem_append_left _ hc
      rcases mem_of_mem_removeAndAdd hmem with rfl | hkept
      · exact absurd (hfront _ hc) (by decide)
      · exact hkept.2
    have hglobal : [⟨∅, nonHostGlobal⟩].filter hasEntries = [] := rfl
    rw [hsplit, List.filter_append, hentries, hglobal, List.append_nil]
  · refine Or.inl (List.filter_eq_self.2 ?_).symm
    intro c hc
    rw [(perm_sortedScan _).mem_iff] at hc
    rcases mem_of_mem_removeAndAdd hc with rfl | hkept
    · exact absurd hc hadded
    · exact hkept.2

/-- The premerged configurations that come from some with entries, after and without the removal. -/
theorem forall₂_sameDirectives (hdistinct : DistinctFilters configurations)
    (huntied : EmptyUntied configurations) {scanned : List ServerConfiguration}
    (hscanned : List.Forall₂ (fun c d => c ∈ removeAndAddGlobalConfiguration configurations ∧
        PremergesTo (removeAndAddGlobalConfiguration configurations) c d)
      ((sortedScan (addGlobalConfiguration configurations)).filter hasEntries) scanned) :
    List.Forall₂ SameDirectives scanned
      ((scanOrder (premergeConfiguration (addGlobalConfiguration configurations))).filter
        (comesFromEntries configurations)) := by
  have hall := forall₂_scanOrder (addGlobalConfiguration configurations)
  change List.Forall₂ _ (sortedScan (addGlobalConfiguration configurations)) _ at hall
  have hkept := List.rel_filter (p := hasEntries) (q := comesFromEntries configurations)
    (fun {c d} hcd => (comesFromEntries_iff hdistinct hcd.1 hcd.2.filters_eq).symm) hall
  clear hall
  revert hscanned hkept
  generalize (sortedScan (addGlobalConfiguration configurations)).filter hasEntries = sorted
  generalize (scanOrder (premergeConfiguration (addGlobalConfiguration configurations))).filter
    (comesFromEntries configurations) = kept
  intro hscanned hkept
  induction hscanned generalizing kept with
  | nil =>
      cases hkept
      exact List.Forall₂.nil
  | @cons c d sorted scanned hd _ ih =>
      cases hkept with
      | @cons _ e _ rest he hrest =>
          refine List.Forall₂.cons ⟨?_, ?_⟩ (ih rest hrest)
          · rw [hd.2.filters_eq, he.2.filters_eq]
          · exact lookup_removeAndAdd hdistinct huntied hd.2 he.2

/-- The scan of the premerged configurations, with the empty global one last. -/
theorem exists_append_premerged_global {list : List ServerConfiguration} (hdistinct : DistinctFilters list)
    {c : ServerConfiguration} (hc : c ∈ list) (hglobal : c.filters = nonHostGlobal)
    (hempty : hasEntries c = false) :
    ∃ front scanned d, sortedScan list = front ++ [c] ∧
      scanOrder (premergeConfiguration list) = scanned ++ [d] ∧
      List.Forall₂ (fun c d => c ∈ list ∧ PremergesTo list c d) front scanned ∧
      (∀ e ∈ scanned, (e.filters == nonHostGlobal) = false) ∧
      d.filters = nonHostGlobal ∧ ∀ name, d.entries.lookup name = none := by
  obtain ⟨front, hsplit, hother⟩ := exists_append_global hdistinct hc hglobal
  have hall := forall₂_scanOrder list
  change List.Forall₂ _ (sortedScan list) _ at hall
  rw [hsplit] at hall
  have hfront := List.forall₂_take_append _ _ _ hall.flip
  have hlast := List.forall₂_drop_append _ _ _ hall.flip
  have hparts := List.take_append_drop front.length (scanOrder (premergeConfiguration list))
  obtain ⟨d, rest, hd, hrest, hdrop⟩ := List.forall₂_cons_right_iff.1 hlast
  rw [List.forall₂_nil_right_iff.1 hrest] at hdrop
  rw [hdrop] at hparts
  refine ⟨front, _, d, hsplit, hparts.symm, hfront.flip, ?_, hd.2.filters_eq.trans hglobal,
    lookup_global hdistinct hc hglobal hempty hd.2⟩
  intro e he
  obtain ⟨i, hi, rfl⟩ := List.mem_iff_getElem.1 he
  have hsame := hfront.get hi (by rw [← hfront.length_eq]; exact hi)
  rw [List.get_eq_getElem, List.get_eq_getElem] at hsame
  rw [hsame.2.filters_eq]
  exact hother _ (List.getElem_mem _)

end Removal

/-! ## The directives in effect -/

section InEffect

variable {ε : Type}
  (matchCondition : ConditionalData → HashMap Str Str → Except ε (Bool × HashMap Str Str))
  (toLowercase : Str → Str)

/-- The directives that are in effect for a request: those of the premerged configuration that is found. -/
def inEffect (configurations : List ServerConfiguration) (path : Str) (hostname : Option Str)
    (localAddr : LocalAddress) : Except ε (Str → Option ServerConfigurationEntries) :=
  (findConfiguration matchCondition toLowercase (.new (premergeConfiguration configurations)) path
    hostname localAddr).map directives

variable {matchCondition toLowercase} {configurations : List ServerConfiguration} {path : Str}
  {hostname : Option Str} {localAddr : LocalAddress}

/-- After the removal, the scan finds what it would find if it passed over the empty configurations. -/
theorem inEffect_eq_filter (hdistinct : DistinctFilters configurations)
    (huntied : EmptyUntied configurations) :
    inEffect matchCondition toLowercase (removeAndAddGlobalConfiguration configurations) path hostname
        localAddr =
      (findMatching matchCondition toLowercase path hostname localAddr
        ((scanOrder (premergeConfiguration (addGlobalConfiguration configurations))).filter
          (comesFromEntries configurations))).map directives := by
  change (findMatching matchCondition toLowercase path hostname localAddr
    (scanOrder (premergeConfiguration (removeAndAddGlobalConfiguration configurations)))).map
      directives = _
  rcases sortedScan_removeAndAdd hdistinct with hsorted | ⟨hadded, hsorted⟩
  · have hall := forall₂_scanOrder (removeAndAddGlobalConfiguration configurations)
    change List.Forall₂ _ (sortedScan (removeAndAddGlobalConfiguration configurations)) _ at hall
    rw [hsorted] at hall
    exact findMatching_congr (forall₂_sameDirectives hdistinct huntied hall)
  · obtain ⟨front, scanned, d, hfront, hscanned, hall, -, hglobal, hempty⟩ :=
      exists_append_premerged_global (distinctFilters_removeAndAdd hdistinct) hadded rfl rfl
    rw [hsorted] at hfront
    rw [← List.append_cancel_right hfront] at hall
    rw [hscanned, findMatching_append_global scanned (by rw [hglobal]; rfl) hempty]
    exact findMatching_congr (forall₂_sameDirectives hdistinct huntied hall)

/-- When the empty global configuration is found, nothing else matches. -/
theorem findMatching_filter_of_global (hdistinct : DistinctFilters configurations)
    {d : ServerConfiguration} (hglobal : d.filters = nonHostGlobal)
    (hempty : comesFromEntries configurations d = false)
    (hfound : findMatching matchCondition toLowercase path hostname localAddr
      (scanOrder (premergeConfiguration (addGlobalConfiguration configurations))) = .ok (some d)) :
    directives (some d) = directives none ∧
      findMatching matchCondition toLowercase path hostname localAddr
        ((scanOrder (premergeConfiguration (addGlobalConfiguration configurations))).filter
          (comesFromEntries configurations)) = .ok none := by
  have hadd := distinctFilters_addGlobalConfiguration hdistinct
  obtain ⟨before, after, hsplit, -, -⟩ := findMatching_eq_some hfound
  have hd : d ∈ scanOrder (premergeConfiguration (addGlobalConfiguration configurations)) := by
    rw [hsplit]
    exact List.mem_append_right _ List.mem_cons_self
  obtain ⟨c, hc, hpremerges⟩ := premergesTo_of_mem (mem_scanOrder.1 hd)
  have hcglobal : c.filters = nonHostGlobal := hpremerges.filters_eq.symm.trans hglobal
  have hcempty : hasEntries c = false := by
    rw [← Bool.not_eq_true, ← comesFromEntries_iff hdistinct hc hpremerges.filters_eq, hempty]
    exact Bool.false_ne_true
  refine ⟨funext (lookup_global hadd hc hcglobal hcempty hpremerges), ?_⟩
  -- the global configuration comes last, and nothing before it matches
  obtain ⟨-, scanned, last, -, hscanned, -, hother, hlast, -⟩ :=
    exists_append_premerged_global hadd hc hcglobal hcempty
  have hkept : comesFromEntries configurations last = false := by
    rw [comesFromEntries, hlast, ← hglobal]
    exact hempty
  rw [hscanned, findMatching_append] at hfound
  have hnone : findMatching matchCondition toLowercase path hostname localAddr scanned = .ok none := by
    cases hscan : findMatching matchCondition toLowercase path hostname localAddr scanned with
    | error err =>
        rw [hscan] at hfound
        exact absurd hfound (by simp)
    | ok found =>
        cases found with
        | none => rfl
        | some e =>
            rw [hscan] at hfound
            obtain rfl := Option.some.inj (Except.ok.inj hfound)
            obtain ⟨before', after', hsplit', -, -⟩ := findMatching_eq_some hscan
            have hmem : e ∈ scanned := by
              rw [hsplit']
              exact List.mem_append_right _ List.mem_cons_self
            have hdiffer := hother e hmem
            rw [hglobal] at hdiffer
            exact absurd hdiffer (by decide)
  have hfilter : [last].filter (comesFromEntries configurations) = [] := by
    rw [List.filter_cons_of_neg (by rw [hkept]; exact Bool.false_ne_true), List.filter_nil]
  rw [hscanned, List.filter_append, hfilter, List.append_nil]
  exact findMatching_filter hnone fun e he => absurd he (by simp)

/-- After the removal of the empty configurations, a request has the directives of the configuration that
is found in the scan without the removal when the empty ones are passed over. So nothing changes when the
configuration that is found without the removal has entries, or is the global one, or when there is none. -/
theorem inEffect_removeAndAdd {ε : Type}
    (matchCondition : ConditionalData → HashMap Str Str → Except ε (Bool × HashMap Str Str))
    (toLowercase : Str → Str) (configurations : List ServerConfiguration) (path : Str)
    (hostname : Option Str) (localAddr : LocalAddress) (hdistinct : DistinctFilters configurations)
    (huntied : EmptyUntied configurations) :
    inEffect matchCondition toLowercase (removeAndAddGlobalConfiguration configurations) path hostname
        localAddr =
      (findMatching matchCondition toLowercase path hostname localAddr
        ((scanOrder (premergeConfiguration (addGlobalConfiguration configurations))).filter
          (comesFromEntries configurations))).map directives ∧
    ∀ found, findConfiguration matchCondition toLowercase
        (.new (premergeConfiguration (addGlobalConfiguration configurations))) path hostname localAddr =
          .ok found →
      (∀ d, found = some d → comesFromEntries configurations d = true ∨ d.filters = nonHostGlobal) →
      inEffect matchCondition toLowercase (removeAndAddGlobalConfiguration configurations) path hostname
          localAddr =
        inEffect matchCondition toLowercase (addGlobalConfiguration configurations) path hostname
          localAddr := by
  refine ⟨inEffect_eq_filter hdistinct huntied, ?_⟩
  intro found hfound hcases
  rw [inEffect_eq_filter hdistinct huntied, inEffect, hfound]
  by_cases hkept : ∀ d, found = some d → comesFromEntries configurations d = true
  · have hscan : findMatching matchCondition toLowercase path hostname localAddr
        (scanOrder (premergeConfiguration (addGlobalConfiguration configurations))) = .ok found := hfound
    rw [findMatching_filter hscan hkept]
  · push Not at hkept
    obtain ⟨d, rfl, hempty⟩ := hkept
    rw [Ne, Bool.not_eq_true] at hempty
    have hglobal := (hcases d rfl).resolve_left (by rw [hempty]; exact Bool.false_ne_true)
    obtain ⟨hdirectives, hnone⟩ := findMatching_filter_of_global hdistinct hglobal hempty hfound
    rw [hnone, Except.map, Except.map, hdirectives]

end InEffect

/-- A host block with a root, and an empty one for one hostname. -/
def hostBlocks : List ServerConfiguration :=
  [⟨AList.singleton "root".toList (textEntries "/r".toList), ⟨true, none, none, none, none, none⟩⟩,
    ⟨∅, ⟨true, some "b".toList, none, none, none, none⟩⟩]

/-- A request for no hostname has the same directives. -/
theorem inEffect_removeAndAdd_hostBlocks :
    inEffect noCondition id (removeAndAddGlobalConfiguration hostBlocks) "/".toList none ⟨.v4 1, 80⟩ =
      inEffect noCondition id (addGlobalConfiguration hostBlocks) "/".toList none ⟨.v4 1, 80⟩ := by
  have hdistinct : DistinctFilters hostBlocks := by
    unfold DistinctFilters
    decide
  have huntied : EmptyUntied hostBlocks := by
    unfold EmptyUntied
    decide
  refine (inEffect_removeAndAdd noCondition id hostBlocks "/".toList none ⟨.v4 1, 80⟩ hdistinct
    huntied).2 (premergeConfiguration (addGlobalConfiguration hostBlocks))[1]? rfl ?_
  intro d hd
  have hfound : (premergeConfiguration (addGlobalConfiguration hostBlocks))[1]?.map
      (comesFromEntries hostBlocks) = some true := by decide +kernel
  rw [hd] at hfound
  exact Or.inl (Option.some.inj hfound)

/-! ## An empty location in another one -/

/-- A host with a location that sets a root, and an empty location in it. -/
def locationBlocks : List ServerConfiguration :=
  [⟨AList.singleton "root".toList (textEntries "/r".toList),
      ⟨true, none, none, none, some ⟨"/a".toList, []⟩, none⟩⟩,
    ⟨∅, ⟨true, none, none, none, some ⟨"/a/b".toList, []⟩, none⟩⟩]

/-- The directives for a request in the inner location. -/
def innerDirectives (configurations : List ServerConfiguration) :
    Except Empty (Str → Option ServerConfigurationEntries) :=
  inEffect noCondition id configurations "/a/b/c".toList none ⟨.v4 1, 80⟩

/-- A directive is in effect. -/
def isInEffect (name : Str) : Except Empty (Str → Option ServerConfigurationEntries) → Bool
  | .ok directives => (directives name).isSome
  | .error _ => false

/-- The request has a root only after the empty location has been removed. -/
theorem locationBlocks_innerDirectives :
    DistinctFilters locationBlocks ∧ EmptyUntied locationBlocks ∧
      isInEffect "root".toList (innerDirectives (addGlobalConfiguration locationBlocks)) = false ∧
      isInEffect "root".toList (innerDirectives (removeAndAddGlobalConfiguration locationBlocks)) = true ∧
      innerDirectives (removeAndAddGlobalConfiguration locationBlocks) ≠
        innerDirectives (addGlobalConfiguration locationBlocks) := by
  have hkept : isInEffect "root".toList (innerDirectives (addGlobalConfiguration locationBlocks)) =
      false := by decide +kernel
  have hremoved : isInEffect "root".toList
      (innerDirectives (removeAndAddGlobalConfiguration locationBlocks)) = true := by decide +kernel
  refine ⟨?_, ?_, hkept, hremoved, ?_⟩
  · unfold DistinctFilters
    decide
  · unfold EmptyUntied
    decide
  · intro hsame
    rw [hsame, hkept] at hremoved
    exact Bool.false_ne_true hremoved

end Ferron.Config
