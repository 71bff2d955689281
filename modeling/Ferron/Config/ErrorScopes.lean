import Ferron.Config.EmptyBlocks
import Ferron.Config.ErrorConfiguration
import Ferron.Config.WrittenCodes
import Ferron.Lib.SortedSearch

/-!
# The scopes of error configurations

An `error_config` block in a location or a conditional block is loaded without its conditions, and a status
code is cut to 16 bits. `returned_iff` says when the directives of an error configuration are returned: it
is one of the host, for the status code or for all of them, and not hidden by one for all of them. So it
keeps to its scope exactly when the request has the conditions of the block around it and its code is one
of 16 bits (`scoped_iff`).
-/

set_option autoImplicit false

namespace Ferron.Config

open Ferron.Common Ferron.Lib.AdjacentMerge Ferron.Lib.SortedSearch Ferron.Lib.StableSort Std

/-! ## Scopes -/

/-- The directives of an error configuration are returned for a request and a status code: it has some, and
what is found has its filters. -/
structure Returned (blocks : List Block) (filters : ServerConfigurationFilters) (statusCode : UInt16)
    (b : Block) : Prop where
  entries : hasEntries b.configuration = true
  found : ∃ d, findErrorConfiguration
      (.new (processConfigurations (blocks.map Block.configuration))) filters statusCode = some d ∧
    (d.filters == b.filters) = true

/-- A request and a status code are in the scope of an error configuration: the configuration of the request
has the conditions of the block around it, and the status code is the one that is written. -/
structure InScope (filters : ServerConfigurationFilters) (statusCode : UInt16) (b : Block)
    (code : Option Int) : Prop where
  condition : ∀ c rest, b.enclosing = c :: rest → (filters.condition == some c) = true
  status : ∀ n, code = some n → (statusCode.toNat : Int) = n

/-- The error configurations are returned in their scopes only. -/
def Scoped (blocks : List Block) (codes : List (Option Int)) (filters : ServerConfigurationFilters) :
    Prop :=
  ∀ statusCode, ∀ p ∈ blocks.zip codes, p.1.filters.errorHandlerStatus.isSome = true →
    Returned blocks filters statusCode p.1 → InScope filters statusCode p.1 p.2

/-- An error configuration of the host that some filters are for, with directives. -/
structure IsErrorOf (filters : ServerConfigurationFilters) (b : Block) : Prop where
  entries : hasEntries b.configuration = true
  status : b.filters.errorHandlerStatus.isSome = true
  isHost : b.filters.isHost = true
  hostname : b.filters.hostname = filters.hostname
  ip : b.filters.ip = filters.ip
  port : b.filters.port = filters.port

/-- An error configuration for a status code is hidden by one for all of them in its host. -/
def Hidden (blocks : List Block) (filters : ServerConfigurationFilters) (b : Block) : Prop :=
  b.filters.errorHandlerStatus ≠ some .any ∧
    ∃ a ∈ blocks, IsErrorOf filters a ∧ a.filters.errorHandlerStatus = some .any

/-- Error configurations have no conditions. -/
def ErrorsWithoutConditions (configurations : List ServerConfiguration) : Prop :=
  ∀ c ∈ configurations, c.filters.errorHandlerStatus.isSome = true → c.filters.condition = none

/-! ## What is found -/

/-- A configuration that answers an error is an error configuration. -/
theorem isSome_of_answersError {filters c : ServerConfigurationFilters} {statusCode : UInt16}
    (h : answersError filters statusCode c = true) : c.errorHandlerStatus.isSome = true := by
  rcases (answersError_iff.1 h).2 with hstatus | hstatus
  · rw [hstatus]
    rfl
  · rw [hstatus]
    rfl

/-- Without conditions the first one that answers is found: premerging and the search keep the order. -/
theorem find_premerged_eq {configurations : List ServerConfiguration}
    (hunconditional : ErrorsWithoutConditions configurations) (filters : ServerConfigurationFilters)
    (statusCode : UInt16) :
    (findErrorConfiguration (.new (premergeConfiguration configurations)) filters statusCode).map
        ServerConfiguration.filters =
      (configurations.find? fun c => answersError filters statusCode c.filters).map
        ServerConfiguration.filters := by
  let answers : ServerConfigurationFilters → Bool := fun f =>
    answersError filters statusCode f && f.condition.isNone
  -- the order puts configurations that answer neither before nor behind each other
  have htied : ∀ f g, answers f = true → answers g = true →
      (ServerConfigurationFilters.cmp f g).isLE = true := by
    intro f g hf hg
    rw [Bool.and_eq_true, Option.isNone_iff_eq_none] at hf hg
    rw [cmp_of_answersError hf.1 hg.1, hf.2, hg.2]
    rfl
  have hanswers : ∀ f, f ∈ configurations.map ServerConfiguration.filters →
      answersError filters statusCode f = answers f := by
    intro f hf
    obtain ⟨c, hc, rfl⟩ := List.mem_map.1 hf
    cases h : answersError filters statusCode c.filters with
    | false =>
        change false = (answersError filters statusCode c.filters && _)
        rw [h, Bool.false_and]
    | true =>
        change true = (answersError filters statusCode c.filters && _)
        rw [h, hunconditional c hc (isSome_of_answersError h)]
        rfl
  have hmem : ∀ c ∈ premergeConfiguration configurations,
      c.filters ∈ configurations.map ServerConfiguration.filters := fun c hc =>
    (filters_premergeConfiguration_perm configurations).mem_iff.1 (List.mem_map_of_mem hc)
  have hnew : findErrorConfiguration (.new (premergeConfiguration configurations)) filters statusCode =
      (premergeConfiguration configurations).find? fun c => answers c.filters := by
    rw [findErrorConfiguration, ServerConfigurations.new, sortBy]
    apply find?_reverse_insertionSort_reverse
    intro a ha
    rw [← hanswers a.filters (hmem a ha)]
    refine (and_iff_left_of_imp fun hanswersA b hb hanswersB => ?_).symm
    rw [hanswers b.filters (hmem b hb)] at hanswersB
    rw [hanswers a.filters (hmem a ha)] at hanswersA
    exact htied b.filters a.filters hanswersB hanswersA
  -- merging keeps the filters, in their sorted order
  have hpremerge : ((premergeConfiguration configurations).find? fun c => answers c.filters).map
        ServerConfiguration.filters =
      ((sortBy ServerConfigurationFilters.cmp ServerConfiguration.filters configurations).find? fun c =>
        answers c.filters).map ServerConfiguration.filters := by
    have hmap := congrArg (List.find? answers) (map_filters_premergeConfiguration configurations)
    rw [List.find?_map, List.find?_map] at hmap
    exact hmap
  have hsort : (sortBy ServerConfigurationFilters.cmp ServerConfiguration.filters configurations).find?
      (fun c => answers c.filters) = configurations.find? fun c => answers c.filters :=
    find?_insertionSort _ _ (fun a b ha hb => htied a.filters b.filters ha hb) _
  have hcongr : (configurations.find? fun c => answers c.filters) =
      configurations.find? fun c => answersError filters statusCode c.filters :=
    List.find?_congr fun c hc => (hanswers c.filters (List.mem_map_of_mem hc)).symm
  rw [hnew, hpremerge, hsort, hcongr]

/-! ## What is left of the error configurations -/

/-- A configuration has entries when it has some under a name. -/
theorem hasEntries_iff (c : ServerConfiguration) :
    hasEntries c = true ↔ ∃ name, c.entries.lookup name ≠ none := by
  constructor
  · intro h
    rw [hasEntries, Bool.not_eq_true', ← Bool.not_eq_true, List.isEmpty_iff] at h
    obtain ⟨property, rest, hcons⟩ := List.exists_cons_of_ne_nil h
    refine ⟨property.1, ?_⟩
    rw [AList.lookup, hcons, List.dlookup_cons_eq rest property.1 property.2]
    exact Option.some_ne_none _
  · rintro ⟨name, hname⟩
    rw [hasEntries, Bool.not_eq_true', ← Bool.not_eq_true]
    exact fun hempty => hname (lookup_of_isEmpty hempty name)

/-- A configuration with some filters has entries when there are some under these filters. -/
theorem exists_hasEntries_iff (filters : ServerConfigurationFilters)
    (configurations : List ServerConfiguration) :
    (∃ c ∈ configurations, (c.filters == filters) = true ∧ hasEntries c = true) ↔
      ∃ name, entriesUnder filters name configurations ≠ none := by
  simp only [hasEntries_iff, ne_eq, entriesUnder_eq_none_iff]
  constructor
  · rintro ⟨c, hc, hfilters, name, hname⟩
    exact ⟨name, fun h => hname (h c hc hfilters)⟩
  · rintro ⟨name, h⟩
    push Not at h
    obtain ⟨c, hc, hfilters, hname⟩ := h
    exact ⟨c, hc, hfilters, name, hname⟩

section Kept

variable {configurations : List ServerConfiguration}

/-- The configurations that are left after merging and removing, in the order of their filters. -/
def keptConfigurations (configurations : List ServerConfiguration) : List ServerConfiguration :=
  (mergeDuplicates configurations).filter hasEntries

theorem pairwise_keptConfigurations (configurations : List ServerConfiguration) :
    (keptConfigurations configurations).Pairwise (KeyLE mergeOrder ServerConfiguration.filters) := by
  have hkey : ∀ a b, (mergeInto a b).filters = a.filters := fun _ _ => rfl
  have hsorted : ((sortBy mergeOrder ServerConfiguration.filters configurations).map
      ServerConfiguration.filters).Pairwise (KeyLE mergeOrder id) :=
    List.pairwise_map.2 (List.pairwise_insertionSort _ _)
  have hmerged := hsorted.sublist (map_key_mergeAdjacent_sublist ServerConfiguration.filters hkey
    (sortBy mergeOrder ServerConfiguration.filters configurations))
  exact (List.pairwise_map.1 hmerged).filter _

/-- Filters without a condition are left when one of the configurations with them has entries. -/
theorem exists_kept_iff {filters : ServerConfigurationFilters} (hnone : filters.condition = none) :
    (∃ c ∈ keptConfigurations configurations, (c.filters == filters) = true) ↔
      ∃ c ∈ configurations, (c.filters == filters) = true ∧ hasEntries c = true := by
  have hmerged : (∃ name, entriesUnder filters name configurations ≠ none) ↔
      ∃ name, entriesUnder filters name (mergeDuplicates configurations) ≠ none :=
    exists_congr fun name => by rw [entriesUnder_mergeDuplicates_of_locationOnly (.of_none hnone)]
  rw [exists_hasEntries_iff, hmerged, ← exists_hasEntries_iff]
  constructor
  · rintro ⟨c, hc, hfilters⟩
    obtain ⟨hmem, hentries⟩ := List.mem_filter.1 hc
    exact ⟨c, hmem, hfilters, hentries⟩
  · rintro ⟨c, hc, hfilters, hentries⟩
    exact ⟨c, List.mem_filter.2 ⟨hc, hentries⟩, hfilters⟩

/-- Error configurations have no conditions after merging and removing either. -/
theorem ErrorsWithoutConditions.kept (h : ErrorsWithoutConditions configurations) :
    ErrorsWithoutConditions (keptConfigurations configurations) := by
  have hkey : ∀ a b, (mergeInto a b).filters = a.filters := fun _ _ => rfl
  intro c hc hsome
  obtain ⟨b, hb, hfilters⟩ := exists_key_of_mem_mergeAdjacent ServerConfiguration.filters hkey
    (List.mem_filter.1 hc).1
  rw [← hfilters] at hsome ⊢
  exact h b ((List.mem_insertionSort _).1 hb) hsome

theorem ErrorsWithoutConditions.prepare (h : ErrorsWithoutConditions configurations) :
    ErrorsWithoutConditions (prepareConfigurations configurations) := by
  intro c hc hsome
  rcases mem_of_mem_removeAndAdd hc with rfl | ⟨hmem, hentries⟩
  · rfl
  · exact h.kept c (List.mem_filter.2 ⟨hmem, hentries⟩) hsome

/-- The global configuration that is added answers no error. -/
theorem find?_prepareConfigurations (configurations : List ServerConfiguration)
    (filters : ServerConfigurationFilters) (statusCode : UInt16) :
    (prepareConfigurations configurations).find?
        (fun c => answersError filters statusCode c.filters) =
      (keptConfigurations configurations).find? fun c => answersError filters statusCode c.filters := by
  rw [prepareConfigurations, removeAndAddGlobalConfiguration]
  split
  · rfl
  · rfl

end Kept

/-! ## When an error configuration is returned -/

section Blocks

variable {blocks : List Block} {filters : ServerConfigurationFilters} {statusCode : UInt16}

/-- An error configuration of the host that some filters are for answers them when it has no conditions. -/
theorem IsErrorOf.ofHost {b : Block} (h : IsErrorOf filters b) (hnone : b.filters.condition = none) :
    OfHost filters b.filters :=
  ⟨h.isHost, h.hostname, h.ip, h.port, Or.inl hnone⟩

/-- Two error configurations that answer without conditions have equal filters if their statuses are
equal. -/
theorem beq_of_ofHost {f g : ServerConfigurationFilters} (hf : OfHost filters f) (hg : OfHost filters g)
    (hnoneF : f.condition = none) (hnoneG : g.condition = none)
    (hstatus : f.errorHandlerStatus = g.errorHandlerStatus) : (f == g) = true := by
  rw [ServerConfigurationFilters.beq_iff, hnoneF, hnoneG]
  exact ⟨hf.isHost.trans hg.isHost.symm, hf.hostname.trans hg.hostname.symm, hf.ip.trans hg.ip.symm,
    hf.port.trans hg.port.symm, rfl, hstatus⟩

/-- One for a status code is not sorted before one for all of them. -/
theorem not_isLE_of_any {f g : ServerConfigurationFilters} (hf : OfHost filters f)
    (hg : OfHost filters g) (hnoneF : f.condition = none) (hnoneG : g.condition = none)
    (hstatusF : f.errorHandlerStatus = some (.status statusCode))
    (hstatusG : g.errorHandlerStatus = some .any) : ¬ (mergeOrder f g).isLE = true := by
  have hkeyF : ConditionKey.of f = none := by
    rw [ConditionKey.of, hnoneF]
    rfl
  have hkeyG : ConditionKey.of g = none := by
    rw [ConditionKey.of, hnoneG]
    rfl
  have hgt : mergeOrder f g = .gt := by
    rw [mergeOrder_of_ofHost hf hg, hkeyF, hkeyG, hstatusF, hstatusG]
    rfl
  rw [hgt]
  exact Bool.false_ne_true

variable (hunconditional : ErrorsWithoutConditions (blocks.map Block.configuration))

include hunconditional

/-- The first error configuration that is left and answers is found. -/
theorem found_map_filters (filters : ServerConfigurationFilters) (statusCode : UInt16) :
    (findErrorConfiguration (.new (processConfigurations (blocks.map Block.configuration))) filters
        statusCode).map ServerConfiguration.filters =
      ((keptConfigurations (blocks.map Block.configuration)).find? fun c =>
        answersError filters statusCode c.filters).map ServerConfiguration.filters := by
  rw [processConfigurations, find_premerged_eq hunconditional.prepare, find?_prepareConfigurations]

/-- What is found is for all status codes when one that answers is. -/
theorem any_of_found {d c : ServerConfiguration}
    (hd : findErrorConfiguration (.new (processConfigurations (blocks.map Block.configuration))) filters
      statusCode = some d)
    (hc : c ∈ keptConfigurations (blocks.map Block.configuration))
    (hanswersC : answersError filters statusCode c.filters = true)
    (hstatusC : c.filters.errorHandlerStatus = some .any) :
    d.filters.errorHandlerStatus = some .any := by
  have hmap := found_map_filters hunconditional filters statusCode
  rw [hd, Option.map_some] at hmap
  obtain ⟨e, he, hfilters⟩ := Option.map_eq_some_iff.1 hmap.symm
  have hanswersE : answersError filters statusCode e.filters = true := by simpa using List.find?_some he
  rw [← hfilters]
  rcases rel_of_find? (pairwise_keptConfigurations _) he hc hanswersC with rfl | hle
  · exact hstatusC
  · obtain ⟨hostE, hstatusE⟩ := answersError_iff.1 hanswersE
    rcases hstatusE with hany | hstatusE
    · exact hany
    · have hnoneE := hunconditional.kept e (List.mem_of_find?_eq_some he) (isSome_of_answersError hanswersE)
      have hnoneC := hunconditional.kept c hc (isSome_of_answersError hanswersC)
      exact absurd hle (not_isLE_of_any hostE (answersError_iff.1 hanswersC).1 hnoneE hnoneC hstatusE
        hstatusC)

/-- An error configuration with directives is left under its filters. -/
theorem exists_kept_of_mem {b : Block} (hb : b ∈ blocks) (h : IsErrorOf filters b) :
    ∃ c ∈ keptConfigurations (blocks.map Block.configuration), (c.filters == b.filters) = true :=
  (exists_kept_iff (hunconditional _ (List.mem_map_of_mem hb) h.status)).2
    ⟨_, List.mem_map_of_mem hb, BEq.rfl, h.entries⟩

/-- An error configuration is returned when it is one of the host, for the status code or for all of them,
and not hidden by one for all of them. -/
theorem returned_iff {b : Block} (hb : b ∈ blocks)
    (hsome : b.filters.errorHandlerStatus.isSome = true) :
    Returned blocks filters statusCode b ↔ IsErrorOf filters b ∧ ¬ Hidden blocks filters b ∧
      (b.filters.errorHandlerStatus = some .any ∨
        b.filters.errorHandlerStatus = some (.status statusCode)) := by
  have hnone : b.filters.condition = none := hunconditional _ (List.mem_map_of_mem hb) hsome
  constructor
  · rintro ⟨hentries, d, hd, hsame⟩
    have hanswersD : answersError filters statusCode d.filters = true := by
      simpa using List.find?_some hd
    rw [answersError_congr hsame, answersError_iff] at hanswersD
    obtain ⟨host, hstatus⟩ := hanswersD
    refine ⟨⟨hentries, hsome, host.isHost, host.hostname, host.ip, host.port⟩, ?_, hstatus⟩
    rintro ⟨hnotAny, a, ha, herror, hany⟩
    -- one for all status codes is left as well, so it would be found
    obtain ⟨c, hc, hsameA⟩ := exists_kept_of_mem hunconditional ha herror
    have hnoneA := hunconditional _ (List.mem_map_of_mem ha) herror.status
    have hanswersC : answersError filters statusCode c.filters = true := by
      rw [answersError_congr hsameA]
      exact answersError_iff.2 ⟨herror.ofHost hnoneA, Or.inl hany⟩
    have hstatusC := ((ServerConfigurationFilters.beq_iff _ _).1 hsameA).2.2.2.2.2.trans hany
    apply hnotAny
    rw [← any_of_found hunconditional hd hc hanswersC hstatusC]
    exact ((ServerConfigurationFilters.beq_iff _ _).1 hsame).2.2.2.2.2.symm
  · rintro ⟨herror, hhidden, hstatus⟩
    obtain ⟨c, hc, hsameC⟩ := exists_kept_of_mem hunconditional hb herror
    have hanswersC : answersError filters statusCode c.filters = true := by
      rw [answersError_congr hsameC]
      exact answersError_iff.2 ⟨herror.ofHost hnone, hstatus⟩
    have hmap := found_map_filters hunconditional filters statusCode
    have hfound : ((keptConfigurations (blocks.map Block.configuration)).find? fun c =>
        answersError filters statusCode c.filters).isSome = true :=
      List.find?_isSome.2 ⟨c, hc, hanswersC⟩
    obtain ⟨e, he⟩ := Option.isSome_iff_exists.1 hfound
    rw [he, Option.map_some] at hmap
    obtain ⟨d, hd, hfilters⟩ := Option.map_eq_some_iff.1 hmap
    refine ⟨herror.entries, d, hd, ?_⟩
    have hanswersE : answersError filters statusCode e.filters = true := by simpa using List.find?_some he
    have hnoneE := hunconditional.kept e (List.mem_of_find?_eq_some he) (isSome_of_answersError hanswersE)
    obtain ⟨hostE, hstatusE⟩ := answersError_iff.1 hanswersE
    rw [hfilters]
    apply beq_of_ofHost hostE (herror.ofHost hnone) hnoneE hnone
    by_cases hany : b.filters.errorHandlerStatus = some .any
    · have hstatusC := ((ServerConfigurationFilters.beq_iff _ _).1 hsameC).2.2.2.2.2.trans hany
      rw [← hfilters, any_of_found hunconditional hd hc hanswersC hstatusC, hany]
    · rw [hstatus.resolve_left hany]
      refine hstatusE.resolve_left fun hanyE => hhidden ⟨hany, ?_⟩
      -- what is found for all status codes comes from a block that hides this one
      obtain ⟨g, hg, hsameG, hentriesG⟩ := (exists_kept_iff hnoneE).1
        ⟨e, List.mem_of_find?_eq_some he, BEq.rfl⟩
      obtain ⟨a, ha, rfl⟩ := List.mem_map.1 hg
      obtain ⟨hisHost, hhostname, hip, hport, -, hstatusG⟩ :=
        (ServerConfigurationFilters.beq_iff _ _).1 hsameG
      have hanyA : a.filters.errorHandlerStatus = some .any := hstatusG.trans hanyE
      exact ⟨a, ha, ⟨hentriesG, by rw [hanyA]; rfl, hisHost.trans hostE.isHost,
        hhostname.trans hostE.hostname, hip.trans hostE.ip, hport.trans hostE.port⟩, hanyA⟩

end Blocks

/-! ## When the scopes are kept -/

/-- The code fits the status that it is cut to. -/
theorem toNat_asU16_eq_iff (n : Int) : ((asU16 n).toNat : Int) = n ↔ 0 ≤ n ∧ n < 2 ^ 16 := by
  have hmod : ((asU16 n).toNat : Int) = n % 2 ^ 16 := by
    rw [asU16, UInt16.toNat_ofNat']
    omega
  rw [hmod]
  omega

/-- For the requests under some filters, the error configurations keep to their scopes exactly when those
with directives that are not hidden are in blocks with the conditions of the request, if they are in any,
and have status codes of 16 bits. -/
theorem scoped_iff {env : Environment} {fuel : Nat} {path : PathBuf} {blocks : List Block}
    (h : loadConfiguration env fuel path = pure blocks) (filters : ServerConfigurationFilters) :
    Scoped blocks (fileCodes env fuel path) filters ↔
      ∀ p ∈ blocks.zip (fileCodes env fuel path), IsErrorOf filters p.1 → ¬ Hidden blocks filters p.1 →
        (∀ c rest, p.1.enclosing = c :: rest → (filters.condition == some c) = true) ∧
          ∀ n, p.2 = some n → 0 ≤ n ∧ n < 2 ^ 16 := by
  have hwritten := loadConfiguration_writtenWith h
  have hunconditional : ErrorsWithoutConditions (blocks.map Block.configuration) := by
    intro c hc
    obtain ⟨b, hb, rfl⟩ := List.mem_map.1 hc
    exact condition_eq_of_mem hwritten hb
  have hpair : ∀ p ∈ blocks.zip (fileCodes env fuel path), p.1 ∈ blocks ∧ WrittenWith p.1 p.2 := by
    rintro ⟨b, code⟩ hp
    exact ⟨(List.of_mem_zip hp).1, List.forall₂_zip hwritten hp⟩
  constructor
  · intro hscoped p hp herror hhidden
    obtain ⟨hb, hcode⟩ := hpair p hp
    have hreturned : ∀ statusCode, (p.1.filters.errorHandlerStatus = some .any ∨
        p.1.filters.errorHandlerStatus = some (.status statusCode)) →
        InScope filters statusCode p.1 p.2 := fun statusCode hstatus =>
      hscoped statusCode p hp herror.status
        ((returned_iff hunconditional hb herror.status).2 ⟨herror, hhidden, hstatus⟩)
    constructor
    · obtain ⟨status, hstatus⟩ := Option.isSome_iff_exists.1 herror.status
      cases status with
      | any => exact (hreturned 0 (Or.inl hstatus)).condition
      | status s => exact (hreturned s (Or.inr hstatus)).condition
    · intro n hn
      have hstatus := (hcode.status_iff (asU16 n)).2 ⟨n, hn, rfl⟩
      exact (toNat_asU16_eq_iff n).1 ((hreturned (asU16 n) (Or.inr hstatus)).status n hn)
  · intro hcondition statusCode p hp hsome hreturned
    obtain ⟨hb, hcode⟩ := hpair p hp
    obtain ⟨herror, hhidden, hstatus⟩ := (returned_iff hunconditional hb hsome).1 hreturned
    obtain ⟨henclosing, hcodes⟩ := hcondition p hp herror hhidden
    refine ⟨henclosing, ?_⟩
    intro n hn
    have hcut := (hcode.status_iff (asU16 n)).2 ⟨n, hn, rfl⟩
    rw [hcut] at hstatus
    rcases hstatus with hany | hsame
    · exact absurd (Option.some.inj hany) (fun hstatus => nomatch hstatus)
    · rw [Option.some.injEq, ErrorHandlerStatus.status.injEq] at hsame
      rw [← hsame]
      exact (toNat_asU16_eq_iff n).2 (hcodes n hn)

/-- An `error_config` block with a status code. -/
def errorNode (statusCode : Int) (root : String) : KdlNode :=
  ⟨"error_config".toList, [⟨none, .integer statusCode⟩], some [textDirective "root" root]⟩

/-- A host with a root and error configurations for two status codes. -/
def hostErrorsDocument : KdlDocument :=
  [⟨"host".toList, [], some
    [textDirective "root" "/r", errorNode 404 "/missing", errorNode 500 "/failed"]⟩]

/-- A block of the host. -/
def errorBlock (root : String) (condition : Option Conditions) (status : Option ErrorHandlerStatus)
    (enclosing : List Conditions) : Block :=
  ⟨⟨AList.insert "root".toList (textEntries root.toList) ∅,
    HostFilter.filters ⟨some "host".toList, none, none, true⟩ condition status⟩, enclosing⟩

/-- The error configurations of the host keep to their scopes. -/
theorem scoped_hostErrors :
    Scoped [errorBlock "/missing" none (some (.status 404)) [],
        errorBlock "/failed" none (some (.status 500)) [], errorBlock "/r" none none []]
      (fileCodes (documentEnvironment hostErrorsDocument) 4 "ferron.kdl".toList) hostFilters := by
  have hloaded : loadConfiguration (documentEnvironment hostErrorsDocument) 4 "ferron.kdl".toList =
      pure [errorBlock "/missing" none (some (.status 404)) [],
        errorBlock "/failed" none (some (.status 500)) [], errorBlock "/r" none none []] := by rfl
  have hcodes : fileCodes (documentEnvironment hostErrorsDocument) 4 "ferron.kdl".toList =
      [some 404, some 500, none] := by rfl
  rw [scoped_iff hloaded, hcodes]
  intro p hp _ _
  simp only [List.zip_cons_cons, List.zip_nil_right, List.mem_cons, List.not_mem_nil, or_false] at hp
  rcases hp with rfl | rfl | rfl
  · refine ⟨fun c rest hcons => (by nomatch hcons), ?_⟩
    rintro n ⟨⟩
    omega
  · refine ⟨fun c rest hcons => (by nomatch hcons), ?_⟩
    rintro n ⟨⟩
    omega
  · refine ⟨fun c rest hcons => (by nomatch hcons), ?_⟩
    rintro n ⟨⟩

/-- A host with a root. It has an error configuration for 404 in a location, and one for 65940, which is
404 in 16 bits. -/
def locationErrorDocument : KdlDocument :=
  [⟨"host".toList, [], some
    [textDirective "root" "/r",
      ⟨"location".toList, [⟨none, .string "/a".toList⟩], some [errorNode 404 "/missing"]⟩,
      errorNode 65940 "/other"]⟩]

/-- The blocks of the document. -/
def locationErrorBlocks : List Block :=
  let location : Conditions := ⟨"/a".toList, []⟩
  [errorBlock "/missing" none (some (.status 404)) [location],
    ⟨⟨∅, HostFilter.filters ⟨some "host".toList, none, none, true⟩ (some location) none⟩, []⟩,
    errorBlock "/other" none (some (.status 404)) [], errorBlock "/r" none none []]

/-- The filters of the configuration that a request to the host for `/` has. -/
def requestFilters (blocks : List Block) : Option ServerConfigurationFilters :=
  ((findConfiguration noCondition id (.new (processConfigurations (blocks.map Block.configuration)))
    "/".toList (some "host".toList) ⟨.v4 1, 80⟩).toOption.join).map ServerConfiguration.filters

/-- For a request outside the location and the status code 404, the error configuration in the location is
returned, and the one for 65940 as well. -/
theorem locationErrors_returned :
    loadConfiguration (documentEnvironment locationErrorDocument) 5 "ferron.kdl".toList =
        pure locationErrorBlocks ∧
      fileCodes (documentEnvironment locationErrorDocument) 5 "ferron.kdl".toList =
        [some 404, none, some 65940, none] ∧
      (∀ b ∈ locationErrorBlocks, b.filters.errorHandlerStatus.isSome = true →
        Returned locationErrorBlocks hostFilters 404 b) ∧
      requestFilters locationErrorBlocks = some hostFilters ∧
      ¬ Scoped locationErrorBlocks [some 404, none, some 65940, none] hostFilters := by
  have hunconditional : ErrorsWithoutConditions (locationErrorBlocks.map Block.configuration) := by
    unfold ErrorsWithoutConditions
    decide
  have hhidden : ∀ b ∈ locationErrorBlocks, b.filters.errorHandlerStatus ≠ some .any := by decide
  have hreturned : ∀ b ∈ locationErrorBlocks, b.filters.errorHandlerStatus.isSome = true →
      Returned locationErrorBlocks hostFilters 404 b := by
    intro b hb hsome
    rw [returned_iff hunconditional hb hsome]
    have herrors : ∀ b ∈ locationErrorBlocks, b.filters.errorHandlerStatus.isSome = true →
        hasEntries b.configuration = true ∧ b.filters.isHost = true ∧
          b.filters.hostname = hostFilters.hostname ∧ b.filters.ip = hostFilters.ip ∧
          b.filters.port = hostFilters.port ∧ b.filters.errorHandlerStatus = some (.status 404) := by
      decide
    obtain ⟨hentries, hisHost, hhostname, hip, hport, hstatus⟩ := herrors b hb hsome
    refine ⟨⟨hentries, hsome, hisHost, hhostname, hip, hport⟩, ?_, Or.inr hstatus⟩
    rintro ⟨-, a, ha, -, hany⟩
    exact hhidden a ha hany
  refine ⟨rfl, rfl, hreturned, rfl, ?_⟩
  intro hscoped
  have hscope := hscoped 404 (errorBlock "/missing" none (some (.status 404)) [⟨"/a".toList, []⟩],
    some 404) List.mem_cons_self rfl (hreturned _ List.mem_cons_self rfl)
  exact absurd (hscope.condition ⟨"/a".toList, []⟩ [] rfl) (by decide)

end Ferron.Config
