import Ferron.Config.MergeDuplicates
import Ferron.Lib.CmpTrie

/-!
# Inheritance between blocks

`premergeConfiguration` gives every configuration the properties that it lacks from the blocks around
it. The blocks around it are found in a trie of filters, whose maps compare keys by the derived
order. That order ties the conditions that `ConditionalData.cmp` ties, so the first block with tied
conditions answers for all of them.

`premergeConfiguration_correct_iff` says when the result is right: wherever a configuration lacks a
property, the first block with tied conditions gives the same as the block with its own conditions.
-/

set_option autoImplicit false

namespace Ferron.Config

open Ferron.Common Ferron.Lib Ferron.Lib.StableSort Std

/-! ## The trie of filters -/

/-- Configuration filter enum for a trie. -/
inductive ServerConfigurationFilter where
  | isHost (isHost : Bool)
  | port (port : Option UInt16)
  | ip (ip : Option IpAddr)
  | hostname (hostname : Option Str)
  | condition (condition : Option ConditionKey)
  | errorHandlerStatus (status : Option ErrorHandlerStatus)

namespace ServerConfigurationFilter

/-- The position of a variant in the declaration. -/
def discriminant : ServerConfigurationFilter → Nat
  | isHost _ => 0
  | port _ => 1
  | ip _ => 2
  | hostname _ => 3
  | condition _ => 4
  | errorHandlerStatus _ => 5

/-- The derived `cmp`. -/
protected def cmp : ServerConfigurationFilter → ServerConfigurationFilter → Ordering
  | isHost a, isHost b => compare a b
  | port a, port b => compare a b
  | ip a, ip b => compare a b
  | hostname a, hostname b => compare a b
  | condition a, condition b => compare a b
  | errorHandlerStatus a, errorHandlerStatus b => compare a b
  | a, b => compare a.discriminant b.discriminant

theorem cmp_of_discriminant_ne {a b : ServerConfigurationFilter}
    (h : a.discriminant ≠ b.discriminant) :
    ServerConfigurationFilter.cmp a b = compare a.discriminant b.discriminant := by
  cases a <;> cases b <;> first
    | rfl
    | exact absurd rfl h

/-- Keys are tied only when they are of the same variant. -/
theorem discriminant_le_of_cmp {a b : ServerConfigurationFilter}
    (h : (ServerConfigurationFilter.cmp a b).isLE = true) : a.discriminant ≤ b.discriminant := by
  by_cases hne : a.discriminant = b.discriminant
  · exact Nat.le_of_eq hne
  · rw [cmp_of_discriminant_ne hne] at h
    exact Nat.isLE_compare.1 h

instance : TransCmp ServerConfigurationFilter.cmp where
  eq_swap {a b} := by
    by_cases hne : a.discriminant = b.discriminant
    · cases a <;> cases b <;> simp [discriminant] at hne <;>
        simp only [ServerConfigurationFilter.cmp] <;> exact OrientedCmp.eq_swap
    · rw [cmp_of_discriminant_ne hne, cmp_of_discriminant_ne (Ne.symm hne)]
      exact OrientedCmp.eq_swap
  isLE_trans {a b c} hab hbc := by
    have hle := Nat.le_trans (discriminant_le_of_cmp hab) (discriminant_le_of_cmp hbc)
    by_cases hne : a.discriminant = c.discriminant
    · have hb : b.discriminant = a.discriminant :=
        Nat.le_antisymm (hne ▸ discriminant_le_of_cmp hbc) (discriminant_le_of_cmp hab)
      cases a <;> cases c <;> simp [discriminant] at hne <;>
        cases b <;> simp [discriminant] at hb <;>
        simp only [ServerConfigurationFilter.cmp] at hab hbc ⊢ <;>
        exact TransCmp.isLE_trans hab hbc
    · rw [cmp_of_discriminant_ne hne]
      exact Nat.isLE_compare.2 hle

end ServerConfigurationFilter

/-- The keys of some filters, from the root of the trie on. -/
def filterVec (filters : ServerConfigurationFilters) : List ServerConfigurationFilter :=
  [.isHost filters.isHost, .port filters.port, .ip filters.ip, .hostname filters.hostname,
    .condition (ConditionKey.of filters), .errorHandlerStatus filters.errorHandlerStatus]

/-- The keys of some filters, each with whether the node that it leaves gets the index: nothing is
set from there on. -/
def filterPath (filters : ServerConfigurationFilters) : List (ServerConfigurationFilter × Bool) :=
  let noHost := !filters.isHost
  let noPort := filters.port.isNone
  let noIp := filters.ip.isNone
  let noHostname := filters.hostname.isNone
  let noCondition := filters.condition.isNone
  let noErrorHandlerStatus := filters.errorHandlerStatus.isNone
  (filterVec filters).zip
    [noHost && noPort && noIp && noHostname && noCondition && noErrorHandlerStatus,
      noPort && noIp && noHostname && noCondition && noErrorHandlerStatus,
      noIp && noHostname && noCondition && noErrorHandlerStatus,
      noHostname && noCondition && noErrorHandlerStatus,
      noCondition && noErrorHandlerStatus,
      noErrorHandlerStatus]

/-- `ServerConfigurationFilterTrie`. -/
abbrev ServerConfigurationFilterTrie := CmpTrie ServerConfigurationFilter

namespace ServerConfigurationFilterTrie

/-- The trie with the filters of all configurations. -/
def ofConfigurations (configurations : List ServerConfiguration) : ServerConfigurationFilterTrie :=
  CmpTrie.ofPaths ServerConfigurationFilter.cmp (configurations.map fun c => filterPath c.filters)

/-- `find_indices`. -/
def findIndices (trie : ServerConfigurationFilterTrie) (filters : ServerConfigurationFilters) :
    List Nat :=
  (CmpTrie.findIndices ServerConfigurationFilter.cmp (filterVec filters) trie []).reverse

end ServerConfigurationFilterTrie

/-! ## Merging the layers -/

/-- Puts a property over a layer, of which some properties have been processed. -/
def mergeProperty (state : HashMap Str ServerConfigurationEntries × List Str)
    (property : Sigma fun _ : Str => ServerConfigurationEntries) :
    HashMap Str ServerConfigurationEntries × List Str :=
  (match state.1.lookup property.1 with
    | some obtainedProperty =>
        if property.1 ∈ state.2 then
          state.1.insert property.1 ⟨obtainedProperty.inner ++ property.2.inner⟩
        else state.1.insert property.1 property.2
    | none => state.1.insert property.1 property.2,
    property.1 :: state.2)

/-- Puts the entries of a configuration over those of a layer. -/
def mergeLayer (configurationEntries layer : HashMap Str ServerConfigurationEntries) :
    HashMap Str ServerConfigurationEntries :=
  (configurationEntries.entries.foldl mergeProperty (layer, [])).1

/-- Merges a configuration with the layer at an index. An index that is out of bounds is skipped. -/
def mergeLayerAt (remaining : List ServerConfiguration)
    (configurationEntries : HashMap Str ServerConfigurationEntries) (layerIndex : Nat) :
    HashMap Str ServerConfigurationEntries :=
  match remaining[layerIndex]? with
  | some layer => mergeLayer configurationEntries layer.entries
  | none => configurationEntries

/-- Merges a configuration that has just been popped, with the remaining ones before it. -/
def premergeOne (trie : ServerConfigurationFilterTrie) (remaining : List ServerConfiguration)
    (configuration : ServerConfiguration) : ServerConfiguration :=
  { configuration with
    entries := (trie.findIndices configuration.filters).foldl (mergeLayerAt remaining)
      configuration.entries }

/-- Pops all configurations. They are given with the last one first. -/
def premergeAll (trie : ServerConfigurationFilterTrie) :
    List ServerConfiguration → List ServerConfiguration
  | [] => []
  | configuration :: popped =>
      premergeOne trie popped.reverse configuration :: premergeAll trie popped

/-- `premerge_configuration`. -/
def premergeConfiguration (configurations : List ServerConfiguration) : List ServerConfiguration :=
  let sorted := sortBy ServerConfigurationFilters.cmp ServerConfiguration.filters configurations
  (premergeAll (ServerConfigurationFilterTrie.ofConfigurations sorted) sorted.reverse).reverse

/-! ## What a lookup finds -/

/-- A property that comes up for the first time replaces that of the layer. -/
theorem mergeProperty_new (state : HashMap Str ServerConfigurationEntries × List Str)
    (property : Sigma fun _ : Str => ServerConfigurationEntries) (hnew : property.1 ∉ state.2) :
    mergeProperty state property =
      (state.1.insert property.1 property.2, property.1 :: state.2) := by
  rw [mergeProperty]
  cases state.1.lookup property.1 with
  | none => rfl
  | some obtained => simp only [if_neg hnew]

theorem lookup_foldl_mergeProperty (name : Str)
    (properties : List (Sigma fun _ : Str => ServerConfigurationEntries))
    (hkeys : properties.NodupKeys) (state : HashMap Str ServerConfigurationEntries × List Str)
    (hnew : ∀ property ∈ properties, property.1 ∉ state.2) :
    (properties.foldl mergeProperty state).1.lookup name =
      (properties.dlookup name).or (state.1.lookup name) := by
  induction properties generalizing state with
  | nil => rfl
  | cons property properties ih =>
      obtain ⟨k, v⟩ := property
      rw [List.nodupKeys_cons] at hkeys
      -- the other properties have other names, so they are still new
      have hrest : ∀ property ∈ properties, property.1 ∉ k :: state.2 := by
        intro property hproperty hmem
        rcases List.mem_cons.1 hmem with hk | hseen
        · have hkey : property.1 ∈ properties.keys := List.mem_map.2 ⟨property, hproperty, rfl⟩
          rw [hk] at hkey
          exact hkeys.1 hkey
        · exact hnew property (List.mem_cons_of_mem _ hproperty) hseen
      rw [List.foldl_cons, mergeProperty_new state ⟨k, v⟩ (hnew _ List.mem_cons_self),
        ih hkeys.2 _ hrest]
      by_cases hk : name = k
      · subst hk
        rw [AList.lookup_insert, List.dlookup_cons_eq, List.dlookup_eq_none.2 hkeys.1]
        rfl
      · rw [AList.lookup_insert_ne hk, List.dlookup_cons_ne _ _ hk]

theorem lookup_mergeLayer (entries layer : HashMap Str ServerConfigurationEntries) (name : Str) :
    (mergeLayer entries layer).lookup name = (entries.lookup name).or (layer.lookup name) := by
  apply lookup_foldl_mergeProperty name entries.entries entries.nodupKeys
  intro property _ hseen
  exact List.not_mem_nil hseen

/-- The entries of a property in the configuration at an index, when it is in bounds. -/
def entriesAt (remaining : List ServerConfiguration) (name : Str) (index : Nat) :
    Option ServerConfigurationEntries :=
  remaining[index]?.bind fun layer => layer.entries.lookup name

theorem lookup_mergeLayerAt (remaining : List ServerConfiguration) (index : Nat)
    (entries : HashMap Str ServerConfigurationEntries) (name : Str) :
    (mergeLayerAt remaining entries index).lookup name =
      (entries.lookup name).or (entriesAt remaining name index) := by
  rw [mergeLayerAt, entriesAt]
  cases remaining[index]? with
  | none => simp
  | some layer => exact lookup_mergeLayer entries layer.entries name

theorem lookup_foldl_mergeLayerAt (remaining : List ServerConfiguration) (layersIndexes : List Nat)
    (entries : HashMap Str ServerConfigurationEntries) (name : Str) :
    (layersIndexes.foldl (mergeLayerAt remaining) entries).lookup name =
      (entries.lookup name).or (layersIndexes.findSome? (entriesAt remaining name)) := by
  induction layersIndexes generalizing entries with
  | nil => simp
  | cons index layersIndexes ih =>
      rw [List.foldl_cons, ih, lookup_mergeLayerAt, Option.or_assoc, List.findSome?_cons]
      cases entriesAt remaining name index <;> rfl

/-- A node of the trie gives what the first configuration that marks it gives, if that is still
there. -/
theorem bind_findIdx?_entriesAt (p : ServerConfiguration → Bool)
    (before after : List ServerConfiguration) (name : Str) :
    ((before ++ after).findIdx? p).bind (entriesAt before name) =
      (before.find? p).bind fun layer => layer.entries.lookup name := by
  induction before with
  | nil =>
      have hnone : entriesAt [] name = fun _ => none := rfl
      rw [hnone]
      simp
  | cons c before ih =>
      rw [List.cons_append, List.findIdx?_cons, List.find?_cons]
      cases hc : p c with
      | true => rfl
      | false =>
          have hshift : entriesAt (c :: before) name ∘ (· + 1) = entriesAt before name := rfl
          rw [if_neg Bool.false_ne_true, Option.bind_map, hshift, ih]

/-! ## Which configurations mark a node -/

/-- The trie node after some of the keys of these filters is marked by the configuration. -/
def marksNode (filters : ServerConfigurationFilters) (depth : Nat)
    (configuration : ServerConfiguration) : Bool :=
  CmpTrie.Marks ServerConfigurationFilter.cmp ((filterVec filters).take depth)
    (filterPath configuration.filters)

/-- A popped configuration has its own entries over those that the nodes on its way give. -/
theorem lookup_premergeOne (before after : List ServerConfiguration) (c : ServerConfiguration)
    (name : Str) :
    (premergeOne (ServerConfigurationFilterTrie.ofConfigurations (before ++ after)) before
        c).entries.lookup name =
      (c.entries.lookup name).or ((List.range 6).reverse.findSome? fun depth =>
        (before.find? (marksNode c.filters depth)).bind fun layer => layer.entries.lookup name) := by
  rw [premergeOne, lookup_foldl_mergeLayerAt, ServerConfigurationFilterTrie.findIndices,
    CmpTrie.findSome?_findIndices, CmpTrie.deepest_eq_findSome?]
  congr 2
  funext depth
  rw [ServerConfigurationFilterTrie.ofConfigurations, CmpTrie.indexAt_ofPaths, List.findIdx?_map]
  exact bind_findIdx?_entriesAt (marksNode c.filters depth) before after name

/-- Vectors that are tied have the same length. -/
theorem length_eq_of_compare {α : Type} [Ord α] :
    ∀ {as bs : List α}, compare as bs = .eq → as.length = bs.length
  | [], [], _ => rfl
  | _ :: _, _ :: _, h => by
      rw [List.compare_cons_cons, Ordering.then_eq_eq] at h
      rw [List.length_cons, List.length_cons, length_eq_of_compare h.2]

/-- Conditions with tied keys are equally specific. -/
theorem compare_condition_of_key {a b : ServerConfigurationFilters}
    (h : compare (ConditionKey.of a) (ConditionKey.of b) = .eq) :
    compare a.condition b.condition = .eq := by
  unfold ConditionKey.of at h
  cases ha : a.condition with
  | none =>
      cases hb : b.condition with
      | none => rfl
      | some t => simp [ha, hb] at h
  | some s =>
      cases hb : b.condition with
      | none => simp [ha, hb] at h
      | some t =>
          rw [ha, hb] at h
          have hkeys : compare s.locationPrefix t.locationPrefix = .eq ∧
              compare s.conditionals t.conditionals = .eq := compareLex_eq_eq.1 h
          have hlocation := LawfulEqOrd.eq_of_compare hkeys.1
          have hlength := length_eq_of_compare hkeys.2
          change Conditions.cmp s t = .eq
          rw [Conditions.cmp, compareLex_eq_eq]
          constructor
          · rw [compareOn, hlocation]
            exact ReflCmp.compare_self
          · rw [compareOn, hlength]
            exact ReflCmp.compare_self

/-- Each filter is unset or as specific as that of the other configuration. -/
structure Outer (a b : ServerConfigurationFilters) : Prop where
  isHost : a.isHost = false ∨ a.isHost = b.isHost
  port : a.port = none ∨ a.port = b.port
  ip : a.ip = none ∨ a.ip = b.ip
  hostname : a.hostname = none ∨ a.hostname = b.hostname
  condition : a.condition = none ∨ compare a.condition b.condition = .eq
  errorHandlerStatus : a.errorHandlerStatus = none

theorem isLE_compareLex {α : Type} {cmp₁ cmp₂ : α → α → Ordering} {a b : α}
    (h₁ : (cmp₁ a b).isLE = true) (h₂ : (cmp₂ a b).isLE = true) :
    (compareLex cmp₁ cmp₂ a b).isLE = true := by
  rw [compareLex]
  cases h : cmp₁ a b with
  | lt => rfl
  | eq => exact h₂
  | gt => simp [h] at h₁

/-- An option that is unset or the same is not greater, also after a map. -/
theorem isLE_compare_of_none {α β : Type} [Ord β] [ReflOrd β] (f : Option α → β)
    (hnone : ∀ b, (compare (f none) (f b)).isLE = true) {a b : Option α} (h : a = none ∨ a = b) :
    (compare (f a) (f b)).isLE = true := by
  rcases h with rfl | rfl
  · exact hnone b
  · rw [compare_self]
    rfl

/-- Outer filters are not more specific. -/
theorem Outer.cmp_isLE {a b : ServerConfigurationFilters} (h : Outer a b) :
    (ServerConfigurationFilters.cmp a b).isLE = true := by
  refine isLE_compareLex ?isHost (isLE_compareLex ?port (isLE_compareLex ?ip
    (isLE_compareLex ?notWildcard (isLE_compareLex ?domainLevel
      (isLE_compareLex ?condition ?errorHandlerStatus)))))
  case isHost =>
    change (compare a.isHost b.isHost).isLE = true
    rcases h.isHost with hhost | hhost
    · rw [hhost]
      cases b.isHost <;> rfl
    · rw [hhost, compare_self]
      rfl
  case port => exact isLE_compare_of_none Option.isSome (fun b => by cases b <;> rfl) h.port
  case ip => exact isLE_compare_of_none Option.isSome (fun b => by cases b <;> rfl) h.ip
  case notWildcard =>
    exact isLE_compare_of_none (Option.map _) (fun b => by cases b <;> rfl) h.hostname
  case domainLevel =>
    exact isLE_compare_of_none (Option.map _) (fun b => by cases b <;> rfl) h.hostname
  case condition =>
    change (compare a.condition b.condition).isLE = true
    rcases h.condition with hcondition | hcondition
    · rw [hcondition]
      cases b.condition <;> rfl
    · rw [hcondition]
      rfl
  case errorHandlerStatus =>
    exact isLE_compare_of_none Option.isSome (fun b => by cases b <;> rfl)
      (Or.inl h.errorHandlerStatus)

/-- A node is marked by the configurations that have its filters and nothing below them. Conditions
need only be tied. -/
structure MarkedAt (filters : ServerConfigurationFilters) (depth : Nat)
    (g : ServerConfigurationFilters) : Prop where
  isHost : if depth = 0 then g.isHost = false else g.isHost = filters.isHost
  port : if depth ≤ 1 then g.port = none else g.port = filters.port
  ip : if depth ≤ 2 then g.ip = none else g.ip = filters.ip
  hostname : if depth ≤ 3 then g.hostname = none else g.hostname = filters.hostname
  condition : if depth ≤ 4 then g.condition = none
    else compare (ConditionKey.of g) (ConditionKey.of filters) = .eq
  errorHandlerStatus : g.errorHandlerStatus = none

theorem marksNode_iff {filters : ServerConfigurationFilters} {depth : Nat} {g : ServerConfiguration}
    (hdepth : depth < 6) : marksNode filters depth g = true ↔ MarkedAt filters depth g.filters := by
  constructor
  · intro h
    interval_cases depth <;>
      simp [marksNode, filterVec, filterPath, CmpTrie.Marks, ServerConfigurationFilter.cmp] at h <;>
      constructor <;> simp_all [OrientedCmp.eq_comm]
  · rintro ⟨hisHost, hport, hip, hhostname, hcondition, herror⟩
    interval_cases depth <;>
      simp_all [marksNode, filterVec, filterPath, CmpTrie.Marks, ServerConfigurationFilter.cmp,
        OrientedCmp.eq_comm]

section Field

variable {α : Type} {p : Prop} [Decidable p] {x y z : Option α}

/-- A filter is unset from some depth on, or given. -/
theorem none_or_eq_of_ite (hx : if p then x = none else x = z) : x = none ∨ x = z := by
  split at hx
  · exact Or.inl hx
  · exact Or.inr hx

theorem none_or_eq_of_both (hx : if p then x = none else x = z)
    (hy : if p then y = none else y = z) : x = none ∨ x = y := by
  split at hx
  · exact Or.inl hx
  · rename_i hp
    rw [if_neg hp] at hy
    exact Or.inr (hx.trans hy.symm)

theorem ite_of_isSome_eq (hx : if p then x = none else x = z) (hsome : x.isSome = z.isSome) :
    if p then z = none else z = z := by
  split at hx
  · rename_i hp
    rw [hx, Option.isSome_none] at hsome
    rw [if_pos hp]
    exact Option.not_isSome_iff_eq_none.1 (by simp [← hsome])
  · rename_i hp
    rw [if_neg hp]

end Field

namespace MarkedAt

variable {filters a b : ServerConfigurationFilters} {depth : Nat}

/-- Configurations that mark the same node are equally specific. -/
theorem outer_of_both (ha : MarkedAt filters depth a) (hb : MarkedAt filters depth b) :
    Outer a b where
  isHost := by
    have hhosta := ha.isHost
    have hhostb := hb.isHost
    split at hhosta
    · exact Or.inl hhosta
    · rename_i hdepth
      rw [if_neg hdepth] at hhostb
      exact Or.inr (hhosta.trans hhostb.symm)
  port := none_or_eq_of_both ha.port hb.port
  ip := none_or_eq_of_both ha.ip hb.ip
  hostname := none_or_eq_of_both ha.hostname hb.hostname
  condition := by
    have hconditiona := ha.condition
    have hconditionb := hb.condition
    split at hconditiona
    · exact Or.inl hconditiona
    · rename_i hdepth
      rw [if_neg hdepth] at hconditionb
      exact Or.inr (compare_condition_of_key
        (TransCmp.eq_trans hconditiona (OrientedCmp.eq_symm hconditionb)))
  errorHandlerStatus := ha.errorHandlerStatus

/-- A configuration that marks a node on the way of some filters is not more specific. -/
theorem outer (h : MarkedAt filters depth a) : Outer a filters where
  isHost := by
    have hhost := h.isHost
    split at hhost
    · exact Or.inl hhost
    · exact Or.inr hhost
  port := none_or_eq_of_ite h.port
  ip := none_or_eq_of_ite h.ip
  hostname := none_or_eq_of_ite h.hostname
  condition := by
    have hcondition := h.condition
    split at hcondition
    · exact Or.inl hcondition
    · exact Or.inr (compare_condition_of_key hcondition)
  errorHandlerStatus := h.errorHandlerStatus

/-- Filters that are no more specific than those of a node on their way mark it as well. -/
theorem self_of_cmp (h : MarkedAt filters depth a)
    (hcmp : ServerConfigurationFilters.cmp a filters = .eq) : MarkedAt filters depth filters := by
  simp only [ServerConfigurationFilters.cmp, compareLex_eq_eq] at hcmp
  obtain ⟨hisHost, hport, hip, -, hdomainLevel, hcondition, herror⟩ := hcmp
  have hhostname : a.hostname.isSome = filters.hostname.isSome := by
    simpa using congrArg Option.isSome (LawfulEqOrd.eq_of_compare hdomainLevel)
  refine ⟨?isHost, ite_of_isSome_eq h.port (LawfulEqOrd.eq_of_compare hport),
    ite_of_isSome_eq h.ip (LawfulEqOrd.eq_of_compare hip), ite_of_isSome_eq h.hostname hhostname,
    ?condition, ?errorHandlerStatus⟩
  case isHost =>
    have hsame : a.isHost = filters.isHost := LawfulEqOrd.eq_of_compare hisHost
    rw [← hsame]
    have hhost := h.isHost
    split at hhost
    · rename_i hdepth
      rw [if_pos hdepth]
      exact hhost
    · rename_i hdepth
      rw [if_neg hdepth]
  case condition =>
    have hmarked := h.condition
    split at hmarked
    · rename_i hdepth
      rw [if_pos hdepth]
      change compare a.condition filters.condition = .eq at hcondition
      rw [hmarked] at hcondition
      cases hfilters : filters.condition with
      | none => rfl
      | some s => simp [hfilters] at hcondition
    · rename_i hdepth
      rw [if_neg hdepth]
      exact compare_self
  case errorHandlerStatus =>
    have hsome : a.errorHandlerStatus.isSome = filters.errorHandlerStatus.isSome :=
      LawfulEqOrd.eq_of_compare herror
    rw [h.errorHandlerStatus, Option.isSome_none] at hsome
    exact Option.not_isSome_iff_eq_none.1 (by simp [← hsome])

end MarkedAt

/-! ## The blocks around a configuration -/

/-- The filters without the error status. -/
def clearErrorHandlerStatus (filters : ServerConfigurationFilters) : ServerConfigurationFilters :=
  { filters with errorHandlerStatus := none }

/-- The filters without the condition and the error status. -/
def clearCondition (filters : ServerConfigurationFilters) : ServerConfigurationFilters :=
  { clearErrorHandlerStatus filters with condition := none }

/-- The filters without the hostname and what follows it. -/
def clearHostname (filters : ServerConfigurationFilters) : ServerConfigurationFilters :=
  { clearCondition filters with hostname := none }

/-- The filters without the IP address and what follows it. -/
def clearIp (filters : ServerConfigurationFilters) : ServerConfigurationFilters :=
  { clearHostname filters with ip := none }

/-- The filters without the port and what follows it. -/
def clearPort (filters : ServerConfigurationFilters) : ServerConfigurationFilters :=
  { clearIp filters with port := none }

/-- The filters of the non-host global configuration. -/
def nonHostGlobal : ServerConfigurationFilters := ⟨false, none, none, none, none, none⟩

/-- The entries of a property in the configuration with these filters. -/
def entriesWith (configurations : List ServerConfiguration) (name : Str)
    (filters : ServerConfigurationFilters) : Option ServerConfigurationEntries :=
  (configurations.find? fun c => c.filters == filters).bind fun c => c.entries.lookup name

/-- The entries of a property in the blocks around the condition, the nearest one first. -/
def outerEntries (configurations : List ServerConfiguration) (name : Str)
    (filters : ServerConfigurationFilters) : Option ServerConfigurationEntries :=
  [clearCondition filters, clearHostname filters, clearIp filters, clearPort filters,
    nonHostGlobal].findSome? (entriesWith configurations name)

/-- The entries of a property in the nearest block that has it: the one with the filters, the one
without the error status, then the blocks around the condition. -/
def nearestEntries (configurations : List ServerConfiguration) (name : Str)
    (filters : ServerConfigurationFilters) : Option ServerConfigurationEntries :=
  (entriesWith configurations name filters).or
    ((entriesWith configurations name (clearErrorHandlerStatus filters)).or
      (outerEntries configurations name filters))

/-- The filters that the node at a depth stands for. -/
def nodeFilters (filters : ServerConfigurationFilters) : Nat → ServerConfigurationFilters
  | 0 => nonHostGlobal
  | 1 => clearPort filters
  | 2 => clearIp filters
  | 3 => clearHostname filters
  | _ => clearCondition filters

/-- Above the conditions a node is marked by exactly the configuration with its filters. -/
theorem marksNode_eq_beq (filters : ServerConfigurationFilters) {depth : Nat} (hdepth : depth < 5) :
    marksNode filters depth = fun g => g.filters == nodeFilters filters depth := by
  funext g
  rw [Bool.eq_iff_iff, marksNode_iff (by omega), ServerConfigurationFilters.beq_iff]
  constructor
  · rintro ⟨hisHost, hport, hip, hhostname, hcondition, herror⟩
    interval_cases depth <;> simp_all [nodeFilters, nonHostGlobal, clearPort, clearIp, clearHostname,
      clearCondition, clearErrorHandlerStatus]
  · rintro ⟨hisHost, hhostname, hip, hport, hcondition, herror⟩
    interval_cases depth <;> constructor <;> simp_all [nodeFilters, nonHostGlobal, clearPort,
      clearIp, clearHostname, clearCondition, clearErrorHandlerStatus]

/-- Two blocks differ at most in conditions that the order ties, and the second one has no error
status. -/
def tiedBlock (filters : ServerConfigurationFilters) (g : ServerConfiguration) : Bool :=
  g.filters.isHost == filters.isHost && g.filters.port == filters.port &&
    g.filters.ip == filters.ip && g.filters.hostname == filters.hostname &&
    compare (ConditionKey.of g.filters) (ConditionKey.of filters) == .eq &&
    g.filters.errorHandlerStatus.isNone

/-- The node of the conditions is marked by the blocks with tied conditions. -/
theorem marksNode_eq_tiedBlock (filters : ServerConfigurationFilters) :
    marksNode filters 5 = tiedBlock filters := by
  funext g
  rw [Bool.eq_iff_iff, marksNode_iff (by omega)]
  constructor
  · rintro ⟨hisHost, hport, hip, hhostname, hcondition, herror⟩
    simp_all [tiedBlock]
  · intro h
    simp only [tiedBlock, Bool.and_eq_true, beq_iff_eq, Option.isNone_iff_eq_none] at h
    obtain ⟨⟨⟨⟨⟨hisHost, hport⟩, hip⟩, hhostname⟩, hcondition⟩, herror⟩ := h
    constructor <;> simp_all

/-- The entries of a property in the first block with tied conditions. -/
def tiedEntries (configurations : List ServerConfiguration) (name : Str)
    (filters : ServerConfigurationFilters) : Option ServerConfigurationEntries :=
  (configurations.find? (tiedBlock filters)).bind fun c => c.entries.lookup name

section Sorted

variable {configurations before after : List ServerConfiguration} {c : ServerConfiguration}

/-- The first configuration that marks a node comes before a popped one that lacks the property, if
it has the property. -/
theorem bind_find?_before {depth : Nat} (hdepth : depth < 6) {name : Str}
    (hsorted : (before ++ c :: after).Pairwise
      (KeyLE ServerConfigurationFilters.cmp ServerConfiguration.filters))
    (hlacks : c.entries.lookup name = none) :
    (before.find? (marksNode c.filters depth)).bind (fun layer => layer.entries.lookup name) =
      ((before ++ c :: after).find? (marksNode c.filters depth)).bind fun layer =>
        layer.entries.lookup name := by
  rw [List.find?_append]
  cases before.find? (marksNode c.filters depth) with
  | some layer => rfl
  | none =>
      rw [Option.none_or, List.find?_cons]
      cases hself : marksNode c.filters depth c with
      | true => exact hlacks.symm
      | false =>
          -- a later configuration that marks the node is no more specific, so this one marks it
          have hnone : after.find? (marksNode c.filters depth) = none := by
            rw [List.find?_eq_none]
            intro g hg hmarks
            have hmarked := (marksNode_iff hdepth).1 hmarks
            have hle : (ServerConfigurationFilters.cmp c.filters g.filters).isLE = true :=
              List.rel_of_pairwise_cons (List.pairwise_append.1 hsorted).2.1 hg
            have htied := OrientedCmp.isLE_antisymm hmarked.outer.cmp_isLE hle
            have hmark := (marksNode_iff hdepth).2 (hmarked.self_of_cmp htied)
            rw [hself] at hmark
            exact Bool.false_ne_true hmark
          rw [hnone]

/-- Sorting leaves the first configuration that marks a node the first. -/
theorem find?_sortBy_marksNode {depth : Nat} (hdepth : depth < 6)
    (filters : ServerConfigurationFilters) (configurations : List ServerConfiguration) :
    (sortBy ServerConfigurationFilters.cmp ServerConfiguration.filters configurations).find?
      (marksNode filters depth) = configurations.find? (marksNode filters depth) := by
  apply find?_insertionSort
  intro a b ha hb
  exact (((marksNode_iff hdepth).1 ha).outer_of_both ((marksNode_iff hdepth).1 hb)).cmp_isLE

/-- A configuration of the result has its own entries, then those of the first block with tied
conditions, then those of the blocks around the conditions. -/
theorem lookup_premerged (name : Str)
    (hsorted : sortBy ServerConfigurationFilters.cmp ServerConfiguration.filters configurations =
      before ++ c :: after) :
    (premergeOne (ServerConfigurationFilterTrie.ofConfigurations (before ++ c :: after)) before
        c).entries.lookup name =
      (c.entries.lookup name).or ((tiedEntries configurations name c.filters).or
        (outerEntries configurations name c.filters)) := by
  rw [lookup_premergeOne]
  cases hlacks : c.entries.lookup name with
  | some entries => rfl
  | none =>
      have hpairwise : (before ++ c :: after).Pairwise
          (KeyLE ServerConfigurationFilters.cmp ServerConfiguration.filters) := by
        rw [← hsorted]
        exact List.pairwise_insertionSort _ _
      have hnode : ∀ depth, depth < 6 →
          ((before.find? (marksNode c.filters depth)).bind fun layer =>
            layer.entries.lookup name) =
          (configurations.find? (marksNode c.filters depth)).bind fun layer =>
            layer.entries.lookup name := by
        intro depth hdepth
        rw [bind_find?_before hdepth hpairwise hlacks, ← hsorted, find?_sortBy_marksNode hdepth]
      have hnodes : (List.range 6).reverse = [5, 4, 3, 2, 1, 0] := by decide
      have houter : ∀ depth, depth < 5 →
          ((before.find? (marksNode c.filters depth)).bind fun layer =>
            layer.entries.lookup name) =
          entriesWith configurations name (nodeFilters c.filters depth) := by
        intro depth hdepth
        rw [hnode depth (by omega), marksNode_eq_beq c.filters hdepth]
        rfl
      rw [Option.none_or, Option.none_or, hnodes, List.findSome?_cons, hnode 5 (by omega),
        marksNode_eq_tiedBlock]
      change _ = (tiedEntries configurations name c.filters).or _
      simp only [List.findSome?_cons, houter 4 (by omega), houter 3 (by omega),
        houter 2 (by omega), houter 1 (by omega), houter 0 (by omega), outerEntries, nodeFilters,
        tiedEntries, List.findSome?_nil]
      cases (configurations.find? (tiedBlock c.filters)).bind fun layer =>
        layer.entries.lookup name <;> rfl

end Sorted

/-! ## When inheritance is right -/

/-- The configurations of the result are the popped ones, each with those before it. -/
theorem mem_premergeAll {trie : ServerConfigurationFilterTrie} {d : ServerConfiguration}
    {stack : List ServerConfiguration} :
    d ∈ premergeAll trie stack ↔
      ∃ front c popped, stack = front ++ c :: popped ∧ d = premergeOne trie popped.reverse c := by
  induction stack with
  | nil => simp [premergeAll]
  | cons top stack ih =>
      rw [premergeAll, List.mem_cons, ih]
      constructor
      · rintro (rfl | ⟨front, c, popped, rfl, rfl⟩)
        · exact ⟨[], top, stack, rfl, rfl⟩
        · exact ⟨top :: front, c, popped, rfl, rfl⟩
      · rintro ⟨front, c, popped, hstack, rfl⟩
        rcases front with - | ⟨head, front⟩
        · obtain ⟨rfl, rfl⟩ := List.cons.inj hstack
          exact Or.inl rfl
        · obtain ⟨rfl, rfl⟩ := List.cons.inj hstack
          exact Or.inr ⟨front, c, popped, rfl, rfl⟩

theorem filters_premergeAll (trie : ServerConfigurationFilterTrie)
    (stack : List ServerConfiguration) :
    (premergeAll trie stack).map ServerConfiguration.filters =
      stack.map ServerConfiguration.filters := by
  induction stack with
  | nil => rfl
  | cons top stack ih =>
      rw [premergeAll, List.map_cons, List.map_cons, ih]
      rfl

/-- Each configuration of the result comes from one of the sorted configurations. -/
theorem mem_premergeConfiguration {configurations : List ServerConfiguration}
    {d : ServerConfiguration} :
    d ∈ premergeConfiguration configurations ↔
      ∃ before c after,
        sortBy ServerConfigurationFilters.cmp ServerConfiguration.filters configurations =
          before ++ c :: after ∧
        d = premergeOne (ServerConfigurationFilterTrie.ofConfigurations (before ++ c :: after))
          before c := by
  rw [premergeConfiguration, List.mem_reverse, mem_premergeAll]
  constructor
  · rintro ⟨front, c, popped, hstack, rfl⟩
    have hsorted := congrArg List.reverse hstack
    rw [List.reverse_reverse, List.reverse_append, List.reverse_cons, List.append_assoc,
      List.singleton_append] at hsorted
    exact ⟨popped.reverse, c, front.reverse, hsorted, by rw [hsorted]⟩
  · rintro ⟨before, c, after, hsorted, rfl⟩
    refine ⟨after.reverse, c, before.reverse, ?_, by rw [hsorted, List.reverse_reverse]⟩
    rw [hsorted, List.reverse_append, List.reverse_cons, List.append_assoc, List.singleton_append]

/-- The result of premerging: the filters are those of the input, and each configuration has exactly
the entries that the nearest block around it has. -/
structure Premerges (configurations result : List ServerConfiguration) : Prop where
  filters_perm : (result.map ServerConfiguration.filters).Perm
    (configurations.map ServerConfiguration.filters)
  entries_eq : ∀ d ∈ result, ∀ name,
    d.entries.lookup name = nearestEntries configurations name d.filters

/-- Wherever a configuration lacks a property, the first block with tied conditions gives the same
over the outer blocks as the block with the conditions of the configuration. -/
def TiedBlocksAgree (configurations : List ServerConfiguration) : Prop :=
  ∀ c ∈ configurations, ∀ name, c.entries.lookup name = none →
    (tiedEntries configurations name c.filters).or (outerEntries configurations name c.filters) =
      (entriesWith configurations name (clearErrorHandlerStatus c.filters)).or
        (outerEntries configurations name c.filters)

/-- The filters are kept, in the order of the sort. -/
theorem map_filters_premergeConfiguration (configurations : List ServerConfiguration) :
    (premergeConfiguration configurations).map ServerConfiguration.filters =
      (sortBy ServerConfigurationFilters.cmp ServerConfiguration.filters configurations).map
        ServerConfiguration.filters := by
  rw [premergeConfiguration, List.map_reverse, filters_premergeAll, List.map_reverse,
    List.reverse_reverse]

theorem filters_premergeConfiguration_perm (configurations : List ServerConfiguration) :
    ((premergeConfiguration configurations).map ServerConfiguration.filters).Perm
      (configurations.map ServerConfiguration.filters) := by
  rw [map_filters_premergeConfiguration]
  exact (List.perm_insertionSort _ configurations).map _

/-- With different filters a configuration is found under its own. -/
theorem entriesWith_self {configurations : List ServerConfiguration}
    (hdistinct : configurations.Pairwise fun a b => (a.filters == b.filters) = false)
    {c : ServerConfiguration} (hc : c ∈ configurations) (name : Str) :
    entriesWith configurations name c.filters = c.entries.lookup name := by
  have hfind : configurations.find? (fun g => g.filters == c.filters) = some c := by
    induction hdistinct with
    | nil => exact absurd hc List.not_mem_nil
    | cons hne _ ih =>
        rename_i head rest
        rcases List.mem_cons.1 hc with rfl | hrest
        · rw [List.find?_cons, BEq.rfl]
        · rw [List.find?_cons, hne c hrest]
          exact ih hrest
  rw [entriesWith, hfind]
  rfl

/-- A configuration and what becomes of it: its entries come first, then those of the first block with
tied conditions, then those of the blocks around the conditions. -/
structure PremergesTo (configurations : List ServerConfiguration) (c d : ServerConfiguration) :
    Prop where
  filters_eq : d.filters = c.filters
  lookup_eq : ∀ name, d.entries.lookup name = (c.entries.lookup name).or
    ((tiedEntries configurations name c.filters).or (outerEntries configurations name c.filters))

/-- Each configuration is premerged. -/
theorem exists_premerged {configurations : List ServerConfiguration} {c : ServerConfiguration}
    (hc : c ∈ configurations) :
    ∃ d ∈ premergeConfiguration configurations, PremergesTo configurations c d := by
  obtain ⟨before, after, hsorted⟩ := List.append_of_mem
    ((List.mem_insertionSort
      (KeyLE ServerConfigurationFilters.cmp ServerConfiguration.filters)).2 hc)
  exact ⟨_, mem_premergeConfiguration.2 ⟨before, c, after, hsorted, rfl⟩, rfl,
    fun name => lookup_premerged name hsorted⟩

/-- Each premerged configuration comes from one. -/
theorem premergesTo_of_mem {configurations : List ServerConfiguration} {d : ServerConfiguration}
    (hd : d ∈ premergeConfiguration configurations) :
    ∃ c ∈ configurations, PremergesTo configurations c d := by
  obtain ⟨before, c, after, hsorted, rfl⟩ := mem_premergeConfiguration.1 hd
  refine ⟨c, ?_, rfl, fun name => lookup_premerged name hsorted⟩
  rw [← List.mem_insertionSort (KeyLE ServerConfigurationFilters.cmp ServerConfiguration.filters)]
  change c ∈ sortBy ServerConfigurationFilters.cmp ServerConfiguration.filters configurations
  rw [hsorted]
  exact List.mem_append_right _ List.mem_cons_self

/-- What a right result says about a configuration that lacks a property. -/
theorem tiedBlocksAgree_of_premerges {configurations : List ServerConfiguration}
    (hdistinct : configurations.Pairwise fun a b => (a.filters == b.filters) = false)
    (h : Premerges configurations (premergeConfiguration configurations)) :
    TiedBlocksAgree configurations := by
  intro c hc name hlacks
  obtain ⟨d, hd, hpremerges⟩ := exists_premerged hc
  have hentries := h.entries_eq d hd name
  rw [hpremerges.lookup_eq, hlacks, Option.none_or] at hentries
  rw [hentries, nearestEntries, hpremerges.filters_eq, entriesWith_self hdistinct hc, hlacks,
    Option.none_or]

/-- When the blocks with tied conditions agree, every configuration finds the nearest block. -/
theorem premerges_of_tiedBlocksAgree {configurations : List ServerConfiguration}
    (hdistinct : configurations.Pairwise fun a b => (a.filters == b.filters) = false)
    (hagree : TiedBlocksAgree configurations) :
    Premerges configurations (premergeConfiguration configurations) := by
  refine ⟨filters_premergeConfiguration_perm configurations, ?_⟩
  intro d hd name
  obtain ⟨c, hc, hpremerges⟩ := premergesTo_of_mem hd
  rw [hpremerges.lookup_eq, nearestEntries, hpremerges.filters_eq, entriesWith_self hdistinct hc]
  cases hlacks : c.entries.lookup name with
  | some entries => rfl
  | none => rw [Option.none_or, Option.none_or, hagree c hc name hlacks]

/-- With different filters, inheritance is right exactly when the blocks with tied conditions
agree. -/
theorem premergeConfiguration_correct_iff (configurations : List ServerConfiguration)
    (hdistinct : configurations.Pairwise fun a b => (a.filters == b.filters) = false) :
    Premerges configurations (premergeConfiguration configurations) ↔
      TiedBlocksAgree configurations :=
  ⟨tiedBlocksAgree_of_premerges hdistinct, premerges_of_tiedBlocksAgree hdistinct⟩

/-- An entry with a text. -/
def textEntries (value : Str) : ServerConfigurationEntries := ⟨[⟨[.string value], ∅⟩]⟩

/-- A configuration with a root for the clients that prefer a language. -/
def rootedLanguageConfiguration (language root : Str) : ServerConfiguration :=
  { languageConfiguration language with
    entries := AList.insert "root".toList (textEntries root) ∅ }

/-- Blocks for different languages have different filters. -/
theorem premergeConfiguration_correct_iff_languages :
    Premerges
        [rootedLanguageConfiguration "en".toList "/en".toList, languageConfiguration "de".toList]
        (premergeConfiguration [rootedLanguageConfiguration "en".toList "/en".toList,
          languageConfiguration "de".toList]) ↔
      TiedBlocksAgree
        [rootedLanguageConfiguration "en".toList "/en".toList, languageConfiguration "de".toList] :=
  premergeConfiguration_correct_iff _ (by decide)

/-- The root of the block for one language comes into the block for another one. -/
theorem premergeConfiguration_language_leaks :
    ¬ Premerges
      [rootedLanguageConfiguration "en".toList "/en".toList, languageConfiguration "de".toList]
      (premergeConfiguration [rootedLanguageConfiguration "en".toList "/en".toList,
        languageConfiguration "de".toList]) := by
  intro h
  have hagree := tiedBlocksAgree_of_premerges (by decide) h
  have hleak := hagree (languageConfiguration "de".toList) (by simp) "root".toList (by decide)
  exact absurd hleak (by decide)

end Ferron.Config
