import Ferron.Config.EmptyBlocks
import Ferron.Lib.SortedSearch

/-!
# The global configuration

`findGlobalConfiguration` takes the first configuration that is global, and goes on behind it when it is
none of a host: the next configuration of a host decides whether the global one of the hosts is there,
since the configurations are sorted. When none of a host comes behind it, the search ends without a
configuration (`globalFound_iff`).
-/

set_option autoImplicit false

namespace Ferron.Config

open Ferron.Common Ferron.Lib.SortedSearch Ferron.Lib.StableSort Std

/-! ## The search -/

/-- The loop behind the first configuration that is global, which is none of a host. -/
def searchBehind (firstFound : ServerConfiguration) : List ServerConfiguration → Option ServerConfiguration
  | [] => none
  | c :: configurations =>
      if c.filters.isGlobal then some c
      else if !c.filters.isGlobalNonHost then some firstFound
      else searchBehind firstFound configurations

/-- `find_global_configuration` on a slice. -/
def findGlobalConfiguration (configurations : List ServerConfiguration) : Option ServerConfiguration :=
  match configurations.dropWhile fun c => !(c.filters.isGlobal || c.filters.isGlobalNonHost) with
  | [] => none
  | firstFound :: iterator =>
      if firstFound.filters.isGlobal then some firstFound else searchBehind firstFound iterator

/-- `ServerConfigurations::find_global_configuration`, which does the same. -/
def ServerConfigurations.findGlobalConfiguration (configurations : ServerConfigurations) :
    Option ServerConfiguration :=
  Config.findGlobalConfiguration configurations.inner

/-- The configurations that `load_modules` is given. -/
def premergedConfigurations (configurations : List ServerConfiguration) : List ServerConfiguration :=
  premergeConfiguration (removeAndAddGlobalConfiguration configurations)

/-! ## What is found in a sorted list -/

/-- The configurations are sorted by their specificity. -/
def SortedBySpecificity (configurations : List ServerConfiguration) : Prop :=
  configurations.Pairwise (KeyLE ServerConfigurationFilters.cmp ServerConfiguration.filters)

/-- The first of two configurations is not one of a host when the second one is not. -/
theorem isHost_of_keyLE {a b : ServerConfiguration}
    (h : KeyLE ServerConfigurationFilters.cmp ServerConfiguration.filters a b)
    (hb : b.filters.isHost = false) : a.filters.isHost = false := by
  rw [KeyLE, ServerConfigurationFilters.cmp, compareLex, compareOn, hb] at h
  cases ha : a.filters.isHost with
  | false => rfl
  | true =>
      rw [ha] at h
      exact absurd h Bool.false_ne_true

/-- Nothing of a host is sorted before its global configuration but global ones. -/
theorem isGlobal_of_keyLE {a b : ServerConfiguration}
    (h : KeyLE ServerConfigurationFilters.cmp ServerConfiguration.filters a b)
    (ha : a.filters.isHost = true) (hb : b.filters.isGlobal = true) : a.filters.isGlobal = true := by
  simp only [ServerConfigurationFilters.isGlobal, Bool.and_eq_true, Option.isNone_iff_eq_none] at hb
  obtain ⟨⟨⟨⟨⟨hisHost, hhostname⟩, hip⟩, hport⟩, hcondition⟩, hstatus⟩ := hb
  obtain ⟨entries, isHost, hostname, ip, port, condition, status⟩ := a
  dsimp only at ha
  subst ha
  simp only [KeyLE, ServerConfigurationFilters.cmp, compareLex, compareOn, hisHost, hhostname, hip, hport,
    hcondition, hstatus] at h
  have hnone : hostname = none ∧ ip = none ∧ port = none ∧ condition = none ∧ status = none := by
    cases port with
    | some port => exact absurd h Bool.false_ne_true
    | none =>
        cases ip with
        | some ip => exact absurd h Bool.false_ne_true
        | none =>
            cases hostname with
            | some hostname => exact absurd h Bool.false_ne_true
            | none =>
                cases condition with
                | some condition => exact absurd h Bool.false_ne_true
                | none =>
                    cases status with
                    | some status => exact absurd h Bool.false_ne_true
                    | none => exact ⟨rfl, rfl, rfl, rfl, rfl⟩
  obtain ⟨rfl, rfl, rfl, rfl, rfl⟩ := hnone
  rfl

/-- The next configuration of a host ends the loop. -/
theorem searchBehind_eq (firstFound : ServerConfiguration) (configurations : List ServerConfiguration) :
    searchBehind firstFound configurations =
      (configurations.find? fun c => c.filters.isHost).map fun c =>
        if c.filters.isGlobal then c else firstFound := by
  induction configurations with
  | nil => rfl
  | cons c configurations ih =>
      rw [searchBehind, List.find?_cons, ServerConfigurationFilters.isGlobalNonHost]
      cases hhost : c.filters.isHost with
      | true =>
          split <;> rename_i hglobal
          · simp [hglobal]
          · simp [hglobal]
      | false =>
          have hglobal : c.filters.isGlobal = false := by
            rw [ServerConfigurationFilters.isGlobal, hhost]
            rfl
          simp [hglobal, ih]

/-- The global configuration is found: the one of the hosts when there is one, and otherwise one that is
none of a host. -/
def GlobalFound (configurations : List ServerConfiguration) (found : Option ServerConfiguration) : Prop :=
  ∃ c ∈ configurations, found = some c ∧
    if configurations.any fun d => d.filters.isGlobal then c.filters.isGlobal = true
    else c.filters.isGlobalNonHost = true

/-- In a sorted list with a configuration of no host the global configuration is found exactly when there
is a configuration of a host, too. -/
theorem globalFound_sorted_iff {configurations : List ServerConfiguration}
    (hsorted : SortedBySpecificity configurations)
    (hnonHost : ∃ c ∈ configurations, c.filters.isHost = false) :
    GlobalFound configurations (findGlobalConfiguration configurations) ↔
      ∃ c ∈ configurations, c.filters.isHost = true := by
  obtain ⟨first, rest, rfl⟩ : ∃ first rest, configurations = first :: rest := by
    obtain ⟨c, hc, -⟩ := hnonHost
    exact List.exists_cons_of_ne_nil (List.ne_nil_of_mem hc)
  obtain ⟨hfirst, hrest⟩ := List.pairwise_cons.1 hsorted
  -- the configurations of no host come first
  have hfirstHost : first.filters.isHost = false := by
    obtain ⟨c, hc, hhost⟩ := hnonHost
    rcases List.mem_cons.1 hc with rfl | hc
    · exact hhost
    · exact isHost_of_keyLE (hfirst c hc) hhost
  have hfirstGlobal : first.filters.isGlobal = false := by
    rw [ServerConfigurationFilters.isGlobal, hfirstHost]
    rfl
  have hfound : findGlobalConfiguration (first :: rest) =
      (rest.find? fun c => c.filters.isHost).map fun c =>
        if c.filters.isGlobal then c else first := by
    rw [findGlobalConfiguration, List.dropWhile_cons_of_neg, ← searchBehind_eq]
    · dsimp only
      rw [hfirstGlobal, if_neg Bool.false_ne_true]
    · simp [ServerConfigurationFilters.isGlobalNonHost, hfirstHost]
  rw [hfound]
  cases hfind : rest.find? fun c => c.filters.isHost with
  | none =>
      refine iff_of_false ?_ ?_
      · rintro ⟨c, -, h, -⟩
        cases h
      · rintro ⟨c, hc, hhost⟩
        rcases List.mem_cons.1 hc with rfl | hc
        · rw [hhost] at hfirstHost
          cases hfirstHost
        · exact absurd hhost (List.find?_eq_none.1 hfind c hc)
  | some host =>
      have hmem := List.mem_of_find?_eq_some hfind
      have hhost : host.filters.isHost = true := by simpa using List.find?_some hfind
      refine iff_of_true ?_ ⟨host, List.mem_cons_of_mem _ hmem, hhost⟩
      by_cases hglobal : ((first :: rest).any fun d => d.filters.isGlobal) = true
      · -- the first configuration of a host is global, since the global one is not before it
        obtain ⟨d, hd, hdGlobal⟩ := List.any_eq_true.1 hglobal
        have hdHost : d.filters.isHost = true := by
          rw [ServerConfigurationFilters.isGlobal, Bool.and_eq_true, Bool.and_eq_true, Bool.and_eq_true,
            Bool.and_eq_true, Bool.and_eq_true] at hdGlobal
          exact hdGlobal.1.1.1.1.1
        have hhostGlobal : host.filters.isGlobal = true := by
          rcases List.mem_cons.1 hd with rfl | hd
          · rw [hdHost] at hfirstHost
            cases hfirstHost
          rcases rel_of_find? hrest hfind hd hdHost with rfl | hle
          · exact hdGlobal
          · exact isGlobal_of_keyLE hle hhost hdGlobal
        refine ⟨host, List.mem_cons_of_mem _ hmem, ?_, ?_⟩
        · rw [Option.map_some, if_pos hhostGlobal]
        · rw [if_pos hglobal]
          exact hhostGlobal
      · have hhostGlobal : ¬ host.filters.isGlobal = true := fun h =>
          hglobal (List.any_eq_true.2 ⟨host, List.mem_cons_of_mem _ hmem, h⟩)
        refine ⟨first, List.mem_cons_self, ?_, ?_⟩
        · rw [Option.map_some, if_neg hhostGlobal]
        · rw [if_neg hglobal, ServerConfigurationFilters.isGlobalNonHost, hfirstHost]
          rfl

/-! ## The lists that are searched -/

section Premerged

variable (configurations : List ServerConfiguration)

/-- Some configuration has these filters before premerging when one has them behind it. -/
theorem exists_premerged_iff (p : ServerConfigurationFilters → Prop) :
    (∃ c ∈ premergedConfigurations configurations, p c.filters) ↔
      ∃ c ∈ removeAndAddGlobalConfiguration configurations, p c.filters := by
  have hmem : ∀ f, f ∈ (premergedConfigurations configurations).map ServerConfiguration.filters ↔
      f ∈ (removeAndAddGlobalConfiguration configurations).map ServerConfiguration.filters := fun f =>
    (filters_premergeConfiguration_perm (removeAndAddGlobalConfiguration configurations)).mem_iff
  constructor
  · rintro ⟨c, hc, hp⟩
    obtain ⟨d, hd, hfilters⟩ := List.mem_map.1 ((hmem c.filters).1 (List.mem_map_of_mem hc))
    exact ⟨d, hd, by rw [hfilters]; exact hp⟩
  · rintro ⟨c, hc, hp⟩
    obtain ⟨d, hd, hfilters⟩ := List.mem_map.1 ((hmem c.filters).2 (List.mem_map_of_mem hc))
    exact ⟨d, hd, by rw [hfilters]; exact hp⟩

/-- There is always a configuration of no host. -/
theorem exists_nonHost :
    ∃ c ∈ premergedConfigurations configurations, c.filters.isHost = false := by
  apply (exists_premerged_iff configurations fun f => f.isHost = false).2
  rw [removeAndAddGlobalConfiguration]
  split
  · rename_i hany
    obtain ⟨c, hc, hnonHost⟩ := List.any_eq_true.1 hany
    exact ⟨c, hc, by simpa [ServerConfigurationFilters.isGlobalNonHost] using hnonHost⟩
  · exact ⟨_, List.mem_cons_self, rfl⟩

/-- There is a configuration of a host when one with entries was there. -/
theorem exists_host_iff :
    (∃ c ∈ premergedConfigurations configurations, c.filters.isHost = true) ↔
      ∃ c ∈ configurations, hasEntries c = true ∧ c.filters.isHost = true := by
  rw [exists_premerged_iff configurations fun f => f.isHost = true]
  constructor
  · rintro ⟨c, hc, hhost⟩
    rcases mem_of_mem_removeAndAdd hc with rfl | ⟨hmem, hentries⟩
    · exact absurd hhost Bool.false_ne_true
    · exact ⟨c, hmem, hentries, hhost⟩
  · rintro ⟨c, hc, hentries, hhost⟩
    refine ⟨c, ?_, hhost⟩
    have hkept : c ∈ configurations.filter hasEntries := List.mem_filter.2 ⟨hc, hentries⟩
    rw [← filter_hasEntries_removeAndAdd] at hkept
    exact (List.mem_filter.1 hkept).1

theorem sortedBySpecificity_premerged : SortedBySpecificity (premergedConfigurations configurations) := by
  have hfilters := map_filters_premergeConfiguration (removeAndAddGlobalConfiguration configurations)
  have hsorted : ((sortBy ServerConfigurationFilters.cmp ServerConfiguration.filters
      (removeAndAddGlobalConfiguration configurations)).map ServerConfiguration.filters).Pairwise
        (KeyLE ServerConfigurationFilters.cmp id) :=
    List.pairwise_map.2 (List.pairwise_insertionSort _ _)
  rw [← hfilters] at hsorted
  have hkeys : (premergedConfigurations configurations).Pairwise fun a b =>
      KeyLE ServerConfigurationFilters.cmp id a.filters b.filters := List.pairwise_map.1 hsorted
  exact hkeys

/-- Both copies find the global configuration exactly when some configuration of a host has entries. -/
theorem globalFound_iff :
    (GlobalFound (premergedConfigurations configurations)
        (findGlobalConfiguration (premergedConfigurations configurations)) ∧
      GlobalFound (premergedConfigurations configurations)
        (ServerConfigurations.findGlobalConfiguration (.new (premergedConfigurations configurations)))) ↔
      ∃ c ∈ configurations, hasEntries c = true ∧ c.filters.isHost = true := by
  have hslice := globalFound_sorted_iff (sortedBySpecificity_premerged configurations)
    (exists_nonHost configurations)
  rw [exists_host_iff] at hslice
  -- the other copy searches the same configurations in another order of the ties
  have hmem : ∀ c, c ∈ (ServerConfigurations.new (premergedConfigurations configurations)).inner ↔
      c ∈ premergedConfigurations configurations := by
    intro c
    rw [ServerConfigurations.new, sortBy, List.mem_insertionSort, List.mem_reverse]
  have hany : (ServerConfigurations.new (premergedConfigurations configurations)).inner.any
      (fun d => d.filters.isGlobal) =
        (premergedConfigurations configurations).any fun d => d.filters.isGlobal := by
    rw [Bool.eq_iff_iff, List.any_eq_true, List.any_eq_true]
    exact exists_congr fun c => and_congr_left fun _ => hmem c
  have hcopy : GlobalFound (premergedConfigurations configurations)
      (ServerConfigurations.findGlobalConfiguration (.new (premergedConfigurations configurations))) ↔
        ∃ c ∈ configurations, hasEntries c = true ∧ c.filters.isHost = true := by
    have hsorted : SortedBySpecificity
        (ServerConfigurations.new (premergedConfigurations configurations)).inner :=
      List.pairwise_insertionSort _ _
    have hinner := globalFound_sorted_iff hsorted (by
      obtain ⟨c, hc, hhost⟩ := exists_nonHost configurations
      exact ⟨c, (hmem c).2 hc, hhost⟩)
    have hhosts : (∃ c ∈ (ServerConfigurations.new (premergedConfigurations configurations)).inner,
        c.filters.isHost = true) ↔
          ∃ c ∈ configurations, hasEntries c = true ∧ c.filters.isHost = true := by
      rw [← exists_host_iff]
      exact exists_congr fun c => and_congr_left fun _ => hmem c
    rw [← hhosts, ← hinner, GlobalFound, GlobalFound, hany]
    exact exists_congr fun c => and_congr_left fun _ => (hmem c).symm
  rw [hslice, hcopy, and_self]

end Premerged

/-- Without any configuration nothing is found, although one of no host was added. -/
theorem findGlobalConfiguration_of_nil :
    findGlobalConfiguration (premergedConfigurations []) = none ∧
      ServerConfigurations.findGlobalConfiguration (.new (premergedConfigurations [])) = none ∧
      ¬ GlobalFound (premergedConfigurations [])
        (findGlobalConfiguration (premergedConfigurations [])) := by
  have hpremerged : premergedConfigurations [] = [⟨∅, nonHostGlobal⟩] := by rfl
  rw [hpremerged]
  refine ⟨rfl, rfl, ?_⟩
  rintro ⟨c, -, h, -⟩
  nomatch h

end Ferron.Config
