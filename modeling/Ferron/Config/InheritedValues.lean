import Ferron.Config.NestedBlocks
import Ferron.Config.YamlLegacy
import Ferron.Lib.Layers

/-!
# The values of directives in hosts and locations

When no block has conditions other than locations, the blocks around a block are the ones that are obtained
by unsetting filters (`around`), and the processed configurations have each directive from the nearest of
them that sets it (`lookup_processed`).

In a document like those of the converter the blocks with some filters are the ones at a place in the
top-level blocks: in these, in locations, or in the error configurations of either (`blocksAt`). So the
values of a directive in effect are read off the document (`directiveValues_processed`).
-/

set_option autoImplicit false

namespace Ferron.Config

open Ferron.Common Ferron.Lib.AdjacentMerge Ferron.Lib.Layers Ferron.Lib.StableSort Std

/-! ## The blocks around a block -/

/-- The filters of a block and of the blocks around it, the nearest one first. -/
def around (filters : ServerConfigurationFilters) : List ServerConfigurationFilters :=
  [filters, clearErrorHandlerStatus filters, clearCondition filters, clearHostname filters,
    clearIp filters, clearPort filters, nonHostGlobal]

theorem LocationOnly.clearErrorHandlerStatus {filters : ServerConfigurationFilters}
    (h : LocationOnly filters) : LocationOnly (clearErrorHandlerStatus filters) := h

theorem locationOnly_of_mem_around {filters g : ServerConfigurationFilters} (h : LocationOnly filters)
    (hg : g ∈ around filters) : LocationOnly g := by
  simp only [around, List.mem_cons, List.not_mem_nil, or_false] at hg
  rcases hg with rfl | rfl | rfl | rfl | rfl | rfl | rfl
  · exact h
  · exact h
  all_goals exact .of_none rfl

/-- Where some filters stand at most once, a configuration is found under its own. -/
theorem entriesWith_of_once {configurations : List ServerConfiguration} {c : ServerConfiguration}
    (honce : configurations.Pairwise
      fun a b => (a.filters == c.filters) = true → (b.filters == c.filters) = false)
    (hc : c ∈ configurations) (name : Str) :
    entriesWith configurations name c.filters = c.entries.lookup name := by
  induction configurations with
  | nil => exact absurd hc List.not_mem_nil
  | cons head rest ih =>
      obtain ⟨hhead, hrest⟩ := List.pairwise_cons.1 honce
      rw [entriesWith, List.find?_cons]
      rcases List.mem_cons.1 hc with rfl | hmem
      · rw [BEq.rfl]
        rfl
      · cases hsame : head.filters == c.filters with
        | true =>
            have hother := hhead c hmem hsame
            rw [BEq.rfl] at hother
            cases hother
        | false => exact ih hrest hmem

/-- The first block with tied conditions is the block without the error status. -/
theorem tiedEntries_of_locationOnly {filters : ServerConfigurationFilters} (h : LocationOnly filters)
    (configurations : List ServerConfiguration) (name : Str) :
    tiedEntries configurations name filters =
      entriesWith configurations name (clearErrorHandlerStatus filters) := by
  have hblock : tiedBlock filters = fun g => g.filters == clearErrorHandlerStatus filters := by
    funext g
    rw [Bool.eq_iff_iff, ServerConfigurationFilters.beq_iff]
    simp only [tiedBlock, Bool.and_eq_true, beq_iff_eq, Option.isNone_iff_eq_none, compare_key_iff h]
    constructor
    · rintro ⟨⟨⟨⟨⟨hisHost, hport⟩, hip⟩, hhostname⟩, hcondition⟩, herror⟩
      exact ⟨hisHost, hhostname, hip, hport, hcondition, herror⟩
    · rintro ⟨hisHost, hhostname, hip, hport, hcondition, herror⟩
      exact ⟨⟨⟨⟨⟨hisHost, hport⟩, hip⟩, hhostname⟩, hcondition⟩, herror⟩
  rw [tiedEntries, hblock]
  rfl

/-- A processed configuration has each directive from the nearest block around it that sets it. -/
theorem lookup_processed {configurations : List ServerConfiguration}
    (hall : ∀ c ∈ configurations, LocationOnly c.filters) {d : ServerConfiguration}
    (hd : d ∈ processConfigurations configurations) (name : Str) :
    d.entries.lookup name =
      (around d.filters).findSome? fun filters => entriesUnder filters name configurations := by
  obtain ⟨c, hc, hpremerges⟩ := premergesTo_of_mem hd
  have hfilters : LocationOnly c.filters := by
    rcases filters_of_mem_prepareConfigurations hc with rfl | ⟨g, hg, hsame⟩
    · exact .of_none rfl
    · exact hsame ▸ hall g hg
  have hwith : ∀ g, LocationOnly g →
      entriesWith (prepareConfigurations configurations) name g = entriesUnder g name configurations :=
    fun g hg => entriesWith_prepareConfigurations hg name configurations
  have hown := entriesWith_of_once (pairwise_prepareConfigurations hfilters configurations) hc name
  rw [hpremerges.lookup_eq, hpremerges.filters_eq, ← hown, tiedEntries_of_locationOnly hfilters,
    hwith _ hfilters, hwith _ hfilters.clearErrorHandlerStatus, outerEntries, around,
    List.findSome?_cons, List.findSome?_cons]
  simp only [List.findSome?_cons, hwith _ (.of_none rfl : LocationOnly (clearCondition c.filters)),
    hwith _ (.of_none rfl : LocationOnly (clearHostname c.filters)),
    hwith _ (.of_none rfl : LocationOnly (clearIp c.filters)),
    hwith _ (.of_none rfl : LocationOnly (clearPort c.filters)),
    hwith _ (.of_none rfl : LocationOnly nonHostGlobal)]
  cases entriesUnder c.filters name configurations with
  | some entries => rfl
  | none =>
      cases entriesUnder (clearErrorHandlerStatus c.filters) name configurations with
      | some entries => rfl
      | none => rfl

/-! ## The values of a directive -/

/-- The values of a directive in the configurations with these filters, one after the other. -/
def valuesUnder (name : Str) (configurations : List ServerConfiguration)
    (filters : ServerConfigurationFilters) : List ServerConfigurationEntry :=
  configurations.flatMap fun c => if c.filters == filters then directiveValues c.entries name else []

/-- The configuration gives the directive values when it has it. -/
def SetsValues (name : Str) (c : ServerConfiguration) : Prop :=
  ∀ present, c.entries.lookup name = some present → present.inner ≠ []

theorem valuesUnder_append (name : Str) (front back : List ServerConfiguration)
    (filters : ServerConfigurationFilters) :
    valuesUnder name (front ++ back) filters =
      valuesUnder name front filters ++ valuesUnder name back filters :=
  List.flatMap_append

theorem valuesUnder_flatMap {α : Type} (name : Str) (f : α → List ServerConfiguration) (l : List α)
    (filters : ServerConfigurationFilters) :
    valuesUnder name (l.flatMap f) filters = l.flatMap fun a => valuesUnder name (f a) filters :=
  List.flatMap_assoc

/-- The entries under some filters are there when they have values. -/
theorem entriesUnder_eq_valuesUnder {name : Str} {configurations : List ServerConfiguration}
    (hvalues : ∀ c ∈ configurations, SetsValues name c) (filters : ServerConfigurationFilters) :
    entriesUnder filters name configurations =
      if (valuesUnder name configurations filters).isEmpty then none
      else some ⟨valuesUnder name configurations filters⟩ := by
  have hfound : ((configurations.filter fun c => c.filters == filters).filterMap fun c =>
      c.entries.lookup name).flatMap ServerConfigurationEntries.inner =
        valuesUnder name configurations filters ∧
      ∀ present ∈ (configurations.filter fun c => c.filters == filters).filterMap fun c =>
        c.entries.lookup name, present.inner ≠ [] := by
    induction configurations with
    | nil => exact ⟨rfl, fun _ h => absurd h List.not_mem_nil⟩
    | cons c configurations ih =>
        obtain ⟨hinner, hne⟩ := ih fun c hc => hvalues c (List.mem_cons_of_mem _ hc)
        rw [valuesUnder, List.flatMap_cons, List.filter_cons]
        cases hsame : c.filters == filters with
        | false => exact ⟨hinner, hne⟩
        | true =>
            rw [if_pos rfl, if_pos rfl, List.filterMap_cons, directiveValues]
            cases hlookup : c.entries.lookup name with
            | none => exact ⟨hinner, hne⟩
            | some present =>
                refine ⟨congrArg (present.inner ++ ·) hinner, fun other hother => ?_⟩
                rcases List.mem_cons.1 hother with rfl | hmem
                · exact hvalues c List.mem_cons_self other hlookup
                · exact hne other hmem
  rw [entriesUnder, concatEntries, ← hfound.1]
  cases hall : (configurations.filter fun c => c.filters == filters).filterMap fun c =>
      c.entries.lookup name with
  | nil => rfl
  | cons present rest =>
      rw [hall] at hfound
      have hpresent := hfound.2 present List.mem_cons_self
      rw [if_neg (List.cons_ne_nil _ _), if_neg]
      rw [List.isEmpty_iff, List.flatMap_cons, List.append_eq_nil_iff]
      exact fun h => hpresent h.1

/-- A processed configuration has the values of the nearest block around it that has some. -/
theorem directiveValues_processed {configurations : List ServerConfiguration} {name : Str}
    (hall : ∀ c ∈ configurations, LocationOnly c.filters)
    (hvalues : ∀ c ∈ configurations, SetsValues name c) {d : ServerConfiguration}
    (hd : d ∈ processConfigurations configurations) :
    directiveValues d.entries name =
      firstNonempty ((around d.filters).map (valuesUnder name configurations)) := by
  rw [directiveValues, lookup_processed hall hd]
  generalize around d.filters = filters
  induction filters with
  | nil => rfl
  | cons g filters ih =>
      rw [List.findSome?_cons, List.map_cons, entriesUnder_eq_valuesUnder hvalues, firstNonempty,
        List.find?_cons]
      cases hempty : (valuesUnder name configurations g).isEmpty with
      | true => exact ih
      | false => rfl

/-! ## The blocks of a document -/

/-- The nodes in a block. -/
def childNodes (node : KdlNode) : KdlDocument := node.children.getD []

/-- The values that some nodes give a directive. -/
def valuesOf (name : Str) (nodes : KdlDocument) : List ServerConfigurationEntry :=
  (nodes.filter fun node => node.name = name).map kdlNodeToConfigurationEntry

/-- The error configurations for a status among some nodes. -/
def errorConfigsWith (status : ErrorHandlerStatus) (nodes : KdlDocument) : List KdlDocument :=
  (nodes.filter fun node => isErrorConfiguration node && errorStatus node = status).map childNodes

theorem errorConfigsWith_append (status : ErrorHandlerStatus) (front back : KdlDocument) :
    errorConfigsWith status (front ++ back) =
      errorConfigsWith status front ++ errorConfigsWith status back := by
  rw [errorConfigsWith, List.filter_append, List.map_append]
  rfl

/-- The locations with a path among some nodes. -/
def locationsWith (path : Str) (nodes : KdlDocument) : List KdlDocument :=
  (nodes.filter fun node => isLocation node && node.firstString.getD [] = path).map childNodes

theorem locationsWith_append (path : Str) (front back : KdlDocument) :
    locationsWith path (front ++ back) = locationsWith path front ++ locationsWith path back := by
  rw [locationsWith, List.filter_append, List.map_append]
  rfl

/-- The blocks at a place in a top-level block: itself or its locations with a path, or the error
configurations for a status in these. -/
def blocksAt (path : Option Str) (status : Option ErrorHandlerStatus) (children : KdlDocument) :
    List KdlDocument :=
  let places := match path with
    | none => [children]
    | some path => locationsWith path children
  match status with
  | none => places
  | some status => places.flatMap (errorConfigsWith status)

theorem blocksAt_some (path : Str) (status : Option ErrorHandlerStatus) (children : KdlDocument) :
    blocksAt (some path) status children =
      match status with
      | none => locationsWith path children
      | some status => (locationsWith path children).flatMap (errorConfigsWith status) := rfl

theorem blocksAt_append (path : Str) (status : Option ErrorHandlerStatus) (front back : KdlDocument) :
    blocksAt (some path) status (front ++ back) =
      blocksAt (some path) status front ++ blocksAt (some path) status back := by
  rw [blocksAt_some, blocksAt_some, blocksAt_some, locationsWith_append]
  cases status with
  | none => rfl
  | some status => exact List.flatMap_append

/-- The names that are no directives: those of blocks, and the marker of a base that is removed. -/
def reservedNames : List Str :=
  ["location".toList, "error_config".toList, "UNDOCUMENTED_REMOVE_PATH_PREFIX".toList]

section Flatten

variable {name : Str} (hname : name ∉ reservedNames)

theorem directiveValues_directiveEntries (name : Str) (nodes : KdlDocument) :
    directiveValues (directiveEntries nodes) name = valuesOf name nodes :=
  directiveValues_foldl nodes ∅ name

include hname

theorem valuesOf_filter {p : KdlNode → Bool}
    (hp : ∀ node, p node = false → isLocation node = true ∨ isErrorConfiguration node = true)
    (nodes : KdlDocument) : valuesOf name (nodes.filter p) = valuesOf name nodes := by
  rw [valuesOf, valuesOf, List.filter_filter]
  refine congrArg (List.map _) (List.filter_congr fun node _ => ?_)
  cases hnode : p node with
  | true => exact Bool.and_true _
  | false =>
      rw [Bool.and_false]
      symm
      refine decide_eq_false fun heq => hname ?_
      rcases hp node hnode with h | h
      · rw [← heq, of_decide_eq_true h]
        exact List.mem_cons_self
      · rw [← heq, of_decide_eq_true h]
        exact List.mem_cons_of_mem _ List.mem_cons_self

theorem directiveValues_locationEntries (node : KdlNode) (location : Str)
    (entries : HashMap Str ServerConfigurationEntries) :
    directiveValues (locationEntries node location entries) name = directiveValues entries name := by
  rw [locationEntries]
  split
  · rw [directiveValues, AList.lookup_insert_ne]
    · rfl
    · rintro rfl
      exact hname (List.mem_cons_of_mem _ (List.mem_cons_of_mem _ List.mem_cons_self))
  · rfl

theorem directiveValues_location (node : KdlNode) (location : Str) (nodes : KdlDocument) :
    directiveValues (locationEntries node location
      (directiveEntries (nodes.filter fun child => !isErrorConfiguration child))) name =
        valuesOf name nodes := by
  rw [directiveValues_locationEntries hname, directiveValues_directiveEntries, valuesOf_filter hname]
  intro child hchild
  exact .inr (by rwa [Bool.not_eq_false'] at hchild)

end Flatten

theorem inner_ne_nil_addDirective {entries : HashMap Str ServerConfigurationEntries}
    (h : ∀ name present, entries.lookup name = some present → present.inner ≠ []) (node : KdlNode)
    (name : Str) (present : ServerConfigurationEntries)
    (hpresent : (addDirective entries node).lookup name = some present) : present.inner ≠ [] := by
  rw [addDirective] at hpresent
  by_cases hname : name = node.name
  · rw [hname] at hpresent
    cases hlookup : entries.lookup node.name with
    | none =>
        rw [hlookup] at hpresent
        dsimp only at hpresent
        rw [AList.lookup_insert] at hpresent
        rw [← Option.some.inj hpresent]
        exact List.cons_ne_nil _ _
    | some before =>
        rw [hlookup] at hpresent
        dsimp only at hpresent
        rw [AList.lookup_insert] at hpresent
        rw [← Option.some.inj hpresent]
        exact List.append_ne_nil_of_right_ne_nil _ (List.cons_ne_nil _ _)
  · have hother : (addDirective entries node).lookup name = entries.lookup name := by
      rw [addDirective]
      cases entries.lookup node.name with
      | none => exact AList.lookup_insert_ne hname
      | some before => exact AList.lookup_insert_ne hname
    rw [← addDirective, hother] at hpresent
    exact h name present hpresent

/-- The directives of a block have values. -/
theorem inner_ne_nil_directiveEntries (nodes : KdlDocument) :
    ∀ name present, (directiveEntries nodes).lookup name = some present → present.inner ≠ [] := by
  rw [directiveEntries]
  have hfold : ∀ entries : HashMap Str ServerConfigurationEntries,
      (∀ name present, entries.lookup name = some present → present.inner ≠ []) →
        ∀ name present, (nodes.foldl addDirective entries).lookup name = some present →
          present.inner ≠ [] := by
    induction nodes with
    | nil => exact fun _ h => h
    | cons node nodes ih => exact fun entries h => ih _ (inner_ne_nil_addDirective h node)
  refine hfold ∅ fun name present hpresent => ?_
  rw [AList.lookup_empty] at hpresent
  exact absurd hpresent.symm (Option.some_ne_none present)

theorem inner_ne_nil_locationEntries (node : KdlNode) (location : Str) (nodes : KdlDocument) (name : Str)
    (present : ServerConfigurationEntries)
    (hpresent : (locationEntries node location (directiveEntries nodes)).lookup name = some present) :
    present.inner ≠ [] := by
  rw [locationEntries] at hpresent
  split at hpresent
  · by_cases hname : name = "UNDOCUMENTED_REMOVE_PATH_PREFIX".toList
    · rw [hname, AList.lookup_insert] at hpresent
      rw [← Option.some.inj hpresent]
      exact List.cons_ne_nil _ _
    · rw [AList.lookup_insert_ne hname] at hpresent
      exact inner_ne_nil_directiveEntries nodes name present hpresent
  · exact inner_ne_nil_directiveEntries nodes name present hpresent

/-- What is said of the configurations of a document: they have the filters of a host at a place, and
their directives have values. -/
structure InHost (host : HostFilter) (c : ServerConfiguration) : Prop where
  filters : ∃ (path : Option Str) (status : Option ErrorHandlerStatus),
    c.filters = host.filters (path.map fun path => ⟨path, []⟩) status
  values : ∀ name, SetsValues name c

theorem inHost_flattenNode (host : HostFilter) (node : KdlNode) :
    ∀ c ∈ flattenNode some host node, InHost host c := by
  intro c hc
  rw [flattenNode] at hc
  split at hc
  · rcases List.mem_append.1 hc with hc | hc
    · obtain ⟨child, -, rfl⟩ := List.mem_map.1 hc
      exact ⟨⟨some _, _, rfl⟩, fun name => inner_ne_nil_directiveEntries _ name⟩
    · rw [List.mem_singleton.1 hc]
      exact ⟨⟨some _, _, rfl⟩, fun name => inner_ne_nil_locationEntries _ _ _ name⟩
  · split at hc
    · rw [List.mem_singleton.1 hc]
      exact ⟨⟨none, _, rfl⟩, fun name => inner_ne_nil_directiveEntries _ name⟩
    · exact absurd hc List.not_mem_nil

theorem inHost_flattenHost (children : KdlDocument) (host : HostFilter) :
    ∀ c ∈ flattenHost some children host, InHost host c := by
  intro c hc
  rcases List.mem_append.1 hc with hc | hc
  · obtain ⟨child, -, hc⟩ := List.mem_flatMap.1 hc
    exact inHost_flattenNode host child c hc
  · rw [List.mem_singleton.1 hc]
    exact ⟨⟨none, _, rfl⟩, fun name => inner_ne_nil_directiveEntries _ name⟩

theorem exists_inHost {env : Environment} {document : KdlDocument} :
    ∀ c ∈ flattenDocument some env document, ∃ host, InHost host c := by
  intro c hc
  obtain ⟨node, -, hc⟩ := List.mem_flatMap.1 hc
  obtain ⟨name, -, hc⟩ := List.mem_flatMap.1 hc
  rw [flattenName] at hc
  split at hc
  · exact ⟨_, inHost_flattenHost _ _ c hc⟩
  · exact absurd hc List.not_mem_nil

theorem InHost.locationOnly {host : HostFilter} {c : ServerConfiguration} (h : InHost host c) :
    LocationOnly c.filters := by
  obtain ⟨path, status, hfilters⟩ := h.filters
  rw [hfilters]
  intro condition hcondition
  obtain ⟨path, -, rfl⟩ := Option.map_eq_some_iff.1 hcondition
  rfl

/-- The path of the location that some filters are in. -/
def pathOf (filters : ServerConfigurationFilters) : Option Str :=
  filters.condition.map Conditions.locationPrefix

theorem beq_hostFilters_iff {host : HostFilter} {filters : ServerConfigurationFilters}
    (hfilters : LocationOnly filters) (path : Option Str) (status : Option ErrorHandlerStatus) :
    (host.filters (path.map fun path => ⟨path, []⟩) status == filters) = true ↔
      host.filters none none = clearCondition filters ∧ path = pathOf filters ∧
        status = filters.errorHandlerStatus := by
  obtain ⟨isHost, hostname, ip, port, condition, errorHandlerStatus⟩ := filters
  have hcondition : (path.map (fun path => (⟨path, []⟩ : Conditions)) == condition) = true ↔
      path = condition.map Conditions.locationPrefix := by
    cases condition with
    | none => cases path <;> simp
    | some condition =>
        have hnil := hfilters condition rfl
        obtain ⟨prefixPath, conditionals⟩ := condition
        obtain rfl : conditionals = [] := hnil
        cases path with
        | none => simp
        | some path =>
            change (path == prefixPath && true) = true ↔ _
            simp
  rw [ServerConfigurationFilters.beq_iff]
  simp only [HostFilter.filters, hcondition, clearCondition, clearErrorHandlerStatus, pathOf,
    ServerConfigurationFilters.mk.injEq, and_true]
  constructor
  · rintro ⟨hisHost, hhostname, hip, hport, hpath, hstatus⟩
    exact ⟨⟨hisHost, hhostname, hip, hport⟩, hpath, hstatus⟩
  · rintro ⟨⟨hisHost, hhostname, hip, hport⟩, hpath, hstatus⟩
    exact ⟨hisHost, hhostname, hip, hport, hpath, hstatus⟩

section Place

variable {host : HostFilter} {filters : ServerConfigurationFilters} (hfilters : LocationOnly filters)

include hfilters

/-- Other hosts have nothing under some filters. -/
theorem valuesUnder_of_other {configurations : List ServerConfiguration}
    (hall : ∀ c ∈ configurations, InHost host c)
    (hother : host.filters none none ≠ clearCondition filters) (name : Str) :
    valuesUnder name configurations filters = [] := by
  rw [valuesUnder, List.flatMap_eq_nil_iff]
  intro c hc
  rw [if_neg]
  obtain ⟨path, status, hsame⟩ := (hall c hc).filters
  rw [hsame, beq_hostFilters_iff hfilters]
  exact fun h => hother h.1

variable (hhost : host.filters none none = clearCondition filters)

include hhost

theorem valuesUnder_singleton (name : Str) (entries : HashMap Str ServerConfigurationEntries)
    (path : Option Str) (status : Option ErrorHandlerStatus) :
    valuesUnder name [⟨entries, host.filters (path.map fun path => ⟨path, []⟩) status⟩] filters =
      if path = pathOf filters ∧ status = filters.errorHandlerStatus then directiveValues entries name
      else [] := by
  rw [valuesUnder, List.flatMap_singleton]
  refine if_congr ?_ rfl rfl
  rw [beq_hostFilters_iff hfilters]
  exact ⟨fun h => h.2, fun h => ⟨hhost, h⟩⟩

/-- The values of the error configurations among some nodes. -/
theorem valuesUnder_errorConfigs (name : Str) (path : Option Str) (nodes : KdlDocument) :
    valuesUnder name ((nodes.filter isErrorConfiguration).map
        (flattenErrorConfig host (path.map fun path => ⟨path, []⟩))) filters =
      if path = pathOf filters then
        (filters.errorHandlerStatus.toList.flatMap fun status => errorConfigsWith status nodes).flatMap
          (valuesOf name)
      else [] := by
  induction nodes with
  | nil => cases filters.errorHandlerStatus <;> simp [valuesUnder, errorConfigsWith]
  | cons node nodes ih =>
      cases herror : isErrorConfiguration node with
      | false =>
          rw [List.filter_cons_of_neg (by rw [herror]; exact Bool.false_ne_true), ih]
          refine if_congr Iff.rfl (congrArg (List.flatMap _) ?_) rfl
          cases filters.errorHandlerStatus with
          | none => rfl
          | some status =>
              simp only [Option.toList_some, List.flatMap_singleton, errorConfigsWith]
              rw [List.filter_cons_of_neg (by rw [herror]; exact Bool.false_ne_true)]
      | true =>
          rw [List.filter_cons_of_pos herror, List.map_cons, ← List.singleton_append, valuesUnder_append,
            ih, flattenErrorConfig, valuesUnder_singleton hfilters hhost, directiveValues_directiveEntries]
          by_cases hpath : path = pathOf filters
          · rw [if_pos hpath, if_pos hpath]
            cases hstatus : filters.errorHandlerStatus with
            | none => simp [hpath]
            | some status =>
                simp only [Option.toList_some, List.flatMap_singleton, errorConfigsWith]
                by_cases hsame : errorStatus node = status
                · rw [if_pos ⟨hpath, congrArg some hsame⟩,
                    List.filter_cons_of_pos (by rw [herror, hsame]; simp), List.map_cons,
                    List.flatMap_cons]
                  rfl
                · rw [if_neg fun h => hsame (Option.some.inj h.2),
                    List.filter_cons_of_neg (by rw [herror]; simp [hsame])]
                  rfl
          · rw [if_neg hpath, if_neg hpath, if_neg fun h => hpath h.1]
            rfl

/-- The values of an error configuration of the host. -/
theorem valuesUnder_not_location (name : Str) {node : KdlNode} (hlocation : isLocation node = false) :
    valuesUnder name (flattenNode some host node) filters =
      if none = pathOf filters then
        (filters.errorHandlerStatus.toList.flatMap fun status => errorConfigsWith status [node]).flatMap
          (valuesOf name)
      else [] := by
  have herrors := valuesUnder_errorConfigs hfilters hhost name none [node]
  rw [← herrors, flattenNode, if_neg (by rw [hlocation]; exact Bool.false_ne_true)]
  cases herror : isErrorConfiguration node with
  | true => rw [List.filter_cons_of_pos herror]; rfl
  | false => rw [List.filter_cons_of_neg (by rw [herror]; exact Bool.false_ne_true)]; rfl

variable {name : Str} (hname : name ∉ reservedNames)

include hname

/-- The values of a location and of the error configurations in it. -/
theorem valuesUnder_location {node : KdlNode} (hlocation : isLocation node = true) :
    valuesUnder name (flattenNode some host node) filters =
      if some (node.firstString.getD []) = pathOf filters then
        match filters.errorHandlerStatus with
        | none => valuesOf name (childNodes node)
        | some status => (errorConfigsWith status (childNodes node)).flatMap (valuesOf name)
      else [] := by
  rw [flattenNode, if_pos hlocation, valuesUnder_append]
  have herrors := valuesUnder_errorConfigs hfilters hhost name (some (node.firstString.getD []))
    (childNodes node)
  have hown := valuesUnder_singleton hfilters hhost name (locationEntries node (node.firstString.getD [])
    (directiveEntries ((childNodes node).filter fun child => !isErrorConfiguration child)))
    (some (node.firstString.getD [])) none
  refine (congrArg₂ (· ++ ·) herrors hown).trans ?_
  rw [directiveValues_location hname]
  by_cases hpath : some (node.firstString.getD []) = pathOf filters
  · rw [if_pos hpath, if_pos hpath]
    cases filters.errorHandlerStatus with
    | none => simp [hpath]
    | some status => simp
  · rw [if_neg hpath, if_neg hpath, if_neg fun h => hpath h.1]
    rfl

/-- Outside of locations there are the error configurations of the host. -/
theorem valuesUnder_nodes_of_none (hpath : pathOf filters = none) (children : KdlDocument) :
    valuesUnder name (children.flatMap (flattenNode some host)) filters =
      (filters.errorHandlerStatus.toList.flatMap fun status => errorConfigsWith status children).flatMap
        (valuesOf name) := by
  rw [valuesUnder_flatMap]
  induction children with
  | nil => cases filters.errorHandlerStatus <;> rfl
  | cons node children ih =>
      rw [List.flatMap_cons, ih]
      cases hlocation : isLocation node with
      | true =>
          have hnot : isErrorConfiguration node = false :=
            decide_eq_false (by rw [of_decide_eq_true hlocation]; decide)
          rw [valuesUnder_location hfilters hhost hname hlocation, hpath, if_neg nofun]
          cases filters.errorHandlerStatus with
          | none => rfl
          | some status =>
              simp only [Option.toList_some, List.flatMap_singleton, errorConfigsWith]
              rw [List.filter_cons_of_neg (by rw [hnot]; exact Bool.false_ne_true)]
              rfl
      | false =>
          rw [valuesUnder_not_location hfilters hhost name hlocation, hpath, if_pos rfl]
          cases filters.errorHandlerStatus with
          | none => rfl
          | some status =>
              simp only [Option.toList_some, List.flatMap_singleton]
              rw [← List.flatMap_append, ← errorConfigsWith_append]
              rfl

/-- In a location there are itself and its error configurations. -/
theorem valuesUnder_nodes_of_some {path : Str} (hpath : pathOf filters = some path)
    (children : KdlDocument) :
    valuesUnder name (children.flatMap (flattenNode some host)) filters =
      (blocksAt (some path) filters.errorHandlerStatus children).flatMap (valuesOf name) := by
  rw [valuesUnder_flatMap]
  induction children with
  | nil => cases filters.errorHandlerStatus <;> rfl
  | cons node children ih =>
      rw [List.flatMap_cons, ih, ← List.singleton_append, blocksAt_append, List.flatMap_append]
      refine congrArg (· ++ _) ?_
      cases hlocation : isLocation node with
      | true =>
          rw [valuesUnder_location hfilters hhost hname hlocation, hpath]
          by_cases hsame : node.firstString.getD [] = path
          · have hblocks : locationsWith path [node] = [childNodes node] := by
              rw [locationsWith, List.filter_cons_of_pos (by simp [hlocation, hsame])]
              rfl
            rw [if_pos (congrArg some hsame), blocksAt_some, hblocks]
            cases filters.errorHandlerStatus with
            | none => exact (List.flatMap_singleton _ _).symm
            | some status =>
                dsimp only
                rw [List.flatMap_singleton]
          · have hblocks : locationsWith path [node] = [] := by
              rw [locationsWith, List.filter_cons_of_neg (by simp [hsame])]
              rfl
            rw [if_neg fun h => hsame (Option.some.inj h), blocksAt_some, hblocks]
            cases filters.errorHandlerStatus <;> rfl
      | false =>
          have hblocks : locationsWith path [node] = [] := by
            rw [locationsWith, List.filter_cons_of_neg (by simp [hlocation])]
            rfl
          rw [valuesUnder_not_location hfilters hhost name hlocation, hpath, if_neg nofun, blocksAt_some,
            hblocks]
          cases filters.errorHandlerStatus <;> rfl

/-- The values of the blocks in a host are those of the blocks at the place. -/
theorem valuesUnder_flattenHost (children : KdlDocument) :
    valuesUnder name (flattenHost some children host) filters =
      (blocksAt (pathOf filters) filters.errorHandlerStatus children).flatMap (valuesOf name) := by
  rw [flattenHost, valuesUnder_append]
  have hplain := valuesUnder_singleton hfilters hhost name
    (directiveEntries (children.filter isHostDirective)) none none
  rw [directiveValues_directiveEntries, valuesOf_filter hname] at hplain
  · refine (congrArg (_ ++ ·) hplain).trans ?_
    cases hpath : pathOf filters with
    | none =>
        rw [valuesUnder_nodes_of_none hfilters hhost hname hpath]
        cases filters.errorHandlerStatus with
        | none => simp [blocksAt]
        | some status => simp [blocksAt]
    | some path =>
        rw [valuesUnder_nodes_of_some hfilters hhost hname hpath,
          if_neg fun h => Option.some_ne_none path h.1.symm]
        exact List.append_nil _
  · intro node hnode
    rw [isHostDirective, Bool.and_eq_false_iff, Bool.not_eq_false', Bool.not_eq_false'] at hnode
    exact hnode

end Place

/-! ## The blocks with some filters -/

/-- Some filters are those of a host or of a place in it. -/
def HostFilter.isOf (host : HostFilter) (filters : ServerConfigurationFilters) : Bool :=
  host.filters none none == clearCondition filters

theorem HostFilter.isOf_iff {host : HostFilter} {filters : ServerConfigurationFilters} :
    host.isOf filters = true ↔ host.filters none none = clearCondition filters := by
  have hiff := @beq_hostFilters_iff host (clearCondition filters) (.of_none rfl) none none
  exact hiff.trans ⟨fun h => h.1, fun h => ⟨h, rfl, rfl⟩⟩

/-- What stands in the hosts of a block that some filters are of. -/
def underName {α : Type} (env : Environment) (filters : ServerConfigurationFilters) (name : Str)
    (found : List α) : List α :=
  (name.splitOn ',').flatMap fun name =>
    match parseHostFilter env [] name with
    | .ok host => if host.isOf filters then found else []
    | .error _ => []

/-- The blocks of a document with some filters. -/
def blocksUnder (env : Environment) (filters : ServerConfigurationFilters) (document : KdlDocument) :
    List KdlDocument :=
  document.flatMap fun node =>
    underName env filters node.name (blocksAt (pathOf filters) filters.errorHandlerStatus (childNodes node))

section Under

variable {α β : Type} {env : Environment} {filters : ServerConfigurationFilters} {name : Str}

theorem flatMap_underName (f : α → List β) (found : List α) :
    (underName env filters name found).flatMap f = underName env filters name (found.flatMap f) := by
  rw [underName, underName, List.flatMap_assoc]
  refine List.flatMap_congr fun part _ => ?_
  split
  · split <;> rfl
  · rfl

end Under

/-- The values under some filters are those in the blocks of the document with them. -/
theorem valuesUnder_flattenDocument {name : Str} (hname : name ∉ reservedNames)
    {filters : ServerConfigurationFilters} (hfilters : LocationOnly filters) (env : Environment)
    (document : KdlDocument) :
    valuesUnder name (flattenDocument some env document) filters =
      (blocksUnder env filters document).flatMap (valuesOf name) := by
  rw [flattenDocument, valuesUnder_flatMap, blocksUnder, List.flatMap_assoc]
  refine List.flatMap_congr fun node _ => ?_
  rw [flattenBlock, valuesUnder_flatMap, flatMap_underName, underName]
  refine List.flatMap_congr fun part _ => ?_
  rw [flattenName]
  cases parseHostFilter env [] part with
  | error message => rfl
  | ok host =>
      dsimp only
      split
      · rename_i hhost
        exact valuesUnder_flattenHost hfilters (HostFilter.isOf_iff.1 hhost) hname _
      · rename_i hother
        exact valuesUnder_of_other hfilters (inHost_flattenHost _ _)
          (fun h => hother (HostFilter.isOf_iff.2 h)) name

/-- The values in effect in a document: a processed configuration has those of the nearest block around it
with some. -/
theorem directiveValues_document {env : Environment} {document : KdlDocument} {d : ServerConfiguration}
    (hd : d ∈ processConfigurations (flattenDocument some env document)) :
    LocationOnly d.filters ∧ ∀ name ∉ reservedNames, directiveValues d.entries name =
      firstNonempty ((around d.filters).map fun filters =>
        (blocksUnder env filters document).flatMap (valuesOf name)) := by
  have hall : ∀ c ∈ flattenDocument some env document, LocationOnly c.filters := by
    intro c hc
    obtain ⟨host, hinHost⟩ := exists_inHost c hc
    exact hinHost.locationOnly
  have hfilters : LocationOnly d.filters := by
    obtain ⟨c, hc, hpremerges⟩ := premergesTo_of_mem hd
    rw [hpremerges.filters_eq]
    rcases filters_of_mem_prepareConfigurations hc with rfl | ⟨g, hg, hsame⟩
    · exact .of_none rfl
    · exact hsame ▸ hall g hg
  refine ⟨hfilters, fun name hname => ?_⟩
  rw [directiveValues_processed hall (fun c hc => ?_) hd]
  · refine congrArg firstNonempty (List.map_congr_left fun g hg => ?_)
    exact valuesUnder_flattenDocument hname (locationOnly_of_mem_around hfilters hg) env document
  · obtain ⟨host, hinHost⟩ := exists_inHost c hc
    exact hinHost.values name

/-- Filters are there in the result when a block with them has some values. -/
theorem exists_processed_of_blocksUnder {env : Environment} {document : KdlDocument}
    {filters : ServerConfigurationFilters} (hfilters : LocationOnly filters) {name : Str}
    (hname : name ∉ reservedNames) (h : (blocksUnder env filters document).flatMap (valuesOf name) ≠ []) :
    ∃ d ∈ processConfigurations (flattenDocument some env document), (d.filters == filters) = true := by
  refine @exists_processed_of_entriesUnder _ _ name ?_
  rw [entriesUnder_eq_valuesUnder, valuesUnder_flattenDocument hname hfilters, if_neg (by simpa using h)]
  · exact Option.some_ne_none _
  · intro c hc
    obtain ⟨host, hinHost⟩ := exists_inHost c hc
    exact hinHost.values name

end Ferron.Config
