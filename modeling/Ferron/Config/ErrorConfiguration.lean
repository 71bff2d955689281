import Ferron.Config.Premerge

/-!
# Error configurations

`findErrorConfiguration` goes through the configurations from the most specific one down and takes the
first one for the status code. The specificity of filters ties the error configurations for one status
code with the catch-all ones, and a tie is decided by the order in which `merge_duplicates` leaves them,
which puts a catch-all one first (`find_filters_eq`).

`specificFound_iff` says when the error configuration for the status code is found nevertheless: every
catch-all one with the same conditions has one for the status code before it, and this takes conditions
that are equal without being tied.
-/

set_option autoImplicit false

namespace Ferron.Config

open Ferron.Common Ferron.Lib.AdjacentMerge Ferron.Lib.StableSort Std

/-- The struct containing all the server configurations. -/
structure ServerConfigurations where
  inner : List ServerConfiguration

namespace ServerConfigurations

/-- `new`. -/
def new (inner : List ServerConfiguration) : ServerConfigurations :=
  ⟨sortBy ServerConfigurationFilters.cmp ServerConfiguration.filters inner.reverse⟩

end ServerConfigurations

/-- The predicate of `find_error_configuration`. -/
def answersError (filters : ServerConfigurationFilters) (statusCode : UInt16)
    (c : ServerConfigurationFilters) : Bool :=
  c.isHost && c.hostname == filters.hostname && c.ip == filters.ip && c.port == filters.port &&
    (c.condition.isNone || c.condition == filters.condition) &&
    !(c.errorHandlerStatus.all fun s => !(s == .any || s == .status statusCode))

/-- `find_error_configuration`. -/
def findErrorConfiguration (configurations : ServerConfigurations)
    (filters : ServerConfigurationFilters) (statusCode : UInt16) : Option ServerConfiguration :=
  configurations.inner.reverse.find? fun c => answersError filters statusCode c.filters

/-- The configurations after merging duplicates and inheritance. -/
def processed (configurations : List ServerConfiguration) : List ServerConfiguration :=
  premergeConfiguration (mergeDuplicates configurations)

/-! ## Which error configurations come into question -/

/-- The filters are those of the host, under no conditions or under the same ones. -/
structure OfHost (filters c : ServerConfigurationFilters) : Prop where
  isHost : c.isHost = true
  hostname : c.hostname = filters.hostname
  ip : c.ip = filters.ip
  port : c.port = filters.port
  condition : c.condition = none ∨ (c.condition == filters.condition) = true

theorem answersError_iff {filters c : ServerConfigurationFilters} {statusCode : UInt16} :
    answersError filters statusCode c = true ↔ OfHost filters c ∧
      (c.errorHandlerStatus = some .any ∨ c.errorHandlerStatus = some (.status statusCode)) := by
  have hstatus : (!(c.errorHandlerStatus.all fun s => !(s == .any || s == .status statusCode))) =
      true ↔ c.errorHandlerStatus = some .any ∨
        c.errorHandlerStatus = some (.status statusCode) := by
    cases c.errorHandlerStatus <;> simp
  rw [answersError, Bool.and_eq_true, hstatus]
  refine and_congr_left fun _ => ?_
  simp only [Bool.and_eq_true, beq_iff_eq, Bool.or_eq_true, Option.isNone_iff_eq_none]
  constructor
  · rintro ⟨⟨⟨⟨hisHost, hhostname⟩, hip⟩, hport⟩, hcondition⟩
    exact ⟨hisHost, hhostname, hip, hport, hcondition⟩
  · rintro ⟨hisHost, hhostname, hip, hport, hcondition⟩
    exact ⟨⟨⟨⟨hisHost, hhostname⟩, hip⟩, hport⟩, hcondition⟩

/-- Some error configuration for the status code has the conditions of the request's configuration. -/
def hasConditional (configurations : List ServerConfiguration) (filters : ServerConfigurationFilters)
    (statusCode : UInt16) : Bool :=
  configurations.any fun d => answersError filters statusCode d.filters && d.filters.condition.isSome

/-- The most specific error configurations for the status code: those under the conditions of the
request's configuration, or those under none when there are no others. -/
def decides (configurations : List ServerConfiguration) (filters : ServerConfigurationFilters)
    (statusCode : UInt16) (c : ServerConfigurationFilters) : Bool :=
  answersError filters statusCode c &&
    c.condition.isSome == hasConditional configurations filters statusCode

theorem isSome_eq_of_beq {a b : Option Conditions} (h : (a == b) = true) : a.isSome = b.isSome := by
  cases a <;> cases b <;> simp_all

/-- Equal filters answer the same. -/
theorem answersError_congr {filters a b : ServerConfigurationFilters} {statusCode : UInt16}
    (h : (a == b) = true) : answersError filters statusCode a = answersError filters statusCode b := by
  obtain ⟨hisHost, hhostname, hip, hport, hcondition, hstatus⟩ :=
    (ServerConfigurationFilters.beq_iff a b).1 h
  have hnone : a.condition.isNone = b.condition.isNone := by
    rw [← Option.not_isSome, ← Option.not_isSome, isSome_eq_of_beq hcondition]
  rw [answersError, answersError, hisHost, hhostname, hip, hport, hstatus, hnone,
    BEq.congr_left hcondition]

theorem decides_congr {configurations : List ServerConfiguration}
    {filters a b : ServerConfigurationFilters} {statusCode : UInt16} (h : (a == b) = true) :
    decides configurations filters statusCode a = decides configurations filters statusCode b := by
  have hcondition := ((ServerConfigurationFilters.beq_iff a b).1 h).2.2.2.2.1
  rw [decides, decides, answersError_congr h, isSome_eq_of_beq hcondition]

/-- Equal conditions are equally specific. -/
theorem compare_condition_of_beq {a b : Option Conditions} (h : (a == b) = true) :
    compare a b = .eq := by
  have hlist : ∀ {as bs : List Conditional}, (as == bs) = true → as.length = bs.length := by
    intro as
    induction as with
    | nil =>
        intro bs hbs
        cases bs with
        | nil => rfl
        | cons b bs => exact absurd hbs Bool.false_ne_true
    | cons a as ih =>
        intro bs hbs
        cases bs with
        | nil => exact absurd hbs Bool.false_ne_true
        | cons b bs =>
            rw [list_cons_beq_cons, Bool.and_eq_true] at hbs
            rw [List.length_cons, List.length_cons, ih hbs.2]
  cases a with
  | none =>
      cases b with
      | none => rfl
      | some t => exact absurd h (by simp)
  | some s =>
      cases b with
      | none => exact absurd h (by simp)
      | some t =>
          have hst : (s.locationPrefix == t.locationPrefix && s.conditionals == t.conditionals) =
              true := h
          rw [Bool.and_eq_true, beq_iff_eq] at hst
          change Conditions.cmp s t = .eq
          rw [Conditions.cmp, compareLex_eq_eq, compareOn, compareOn, hst.1, hlist hst.2]
          exact ⟨ReflCmp.compare_self, ReflCmp.compare_self⟩

/-- The specificity of two error configurations of one host is that of their conditions. -/
theorem cmp_of_answersError {filters a b : ServerConfigurationFilters} {statusCode : UInt16}
    (ha : answersError filters statusCode a = true) (hb : answersError filters statusCode b = true) :
    ServerConfigurationFilters.cmp a b = compare a.condition.isSome b.condition.isSome := by
  obtain ⟨hostA, hstatusA⟩ := answersError_iff.1 ha
  obtain ⟨hostB, hstatusB⟩ := answersError_iff.1 hb
  have hsomeA : a.errorHandlerStatus.isSome = true := by
    rcases hstatusA with h | h <;> rw [h] <;> rfl
  have hsomeB : b.errorHandlerStatus.isSome = true := by
    rcases hstatusB with h | h <;> rw [h] <;> rfl
  have hcondition : compare a.condition b.condition =
      compare a.condition.isSome b.condition.isSome := by
    rcases hostA.condition with hnoneA | hsameA
    · rw [hnoneA]
      cases b.condition <;> rfl
    · rcases hostB.condition with hnoneB | hsameB
      · rw [hnoneB]
        cases a.condition <;> rfl
      · have hsame := PartialEquivBEq.trans hsameA (PartialEquivBEq.symm hsameB)
        rw [compare_condition_of_beq hsame, isSome_eq_of_beq hsame]
        exact ReflCmp.compare_self.symm
  simp only [ServerConfigurationFilters.cmp, compareLex, compareOn, hostA.isHost, hostB.isHost,
    hostA.port, hostB.port, hostA.ip, hostB.ip, hostA.hostname, hostB.hostname, hsomeA, hsomeB,
    hcondition, ReflCmp.compare_self, Ordering.then_eq, Ordering.eq_then]

/-! ## Which one is found -/

section Found

variable (configurations : List ServerConfiguration) (filters : ServerConfigurationFilters)
  (statusCode : UInt16)

/-- The processed configurations have the filters of the given ones. -/
theorem exists_processed_iff (f : ServerConfigurationFilters) :
    (∃ d ∈ processed configurations, (d.filters == f) = true) ↔
      ∃ c ∈ configurations, (c.filters == f) = true := by
  have hmem : ∀ g, g ∈ (processed configurations).map ServerConfiguration.filters ↔
      g ∈ (mergeDuplicates configurations).map ServerConfiguration.filters := fun g =>
    (filters_premergeConfiguration_perm (mergeDuplicates configurations)).mem_iff
  rw [← filters_mergeDuplicates_iff configurations f]
  constructor
  · rintro ⟨d, hd, hfilters⟩
    obtain ⟨c, hc, hcd⟩ := List.mem_map.1 ((hmem d.filters).1 (List.mem_map_of_mem hd))
    exact ⟨c, hc, by rw [hcd]; exact hfilters⟩
  · rintro ⟨c, hc, hfilters⟩
    obtain ⟨d, hd, hdc⟩ := List.mem_map.1 ((hmem c.filters).2 (List.mem_map_of_mem hc))
    exact ⟨d, hd, by rw [hdc]; exact hfilters⟩

variable {configurations filters statusCode}

/-- Whether there are error configurations under the conditions can be seen after the processing. -/
theorem hasConditional_of_mem {d : ServerConfiguration} (hd : d ∈ processed configurations)
    (hanswers : answersError filters statusCode d.filters = true)
    (hsome : d.filters.condition.isSome = true) :
    hasConditional configurations filters statusCode = true := by
  obtain ⟨c, hc, hfilters⟩ := (exists_processed_iff configurations d.filters).1 ⟨d, hd, BEq.rfl⟩
  have hcondition := ((ServerConfigurationFilters.beq_iff _ _).1 hfilters).2.2.2.2.1
  rw [hasConditional, List.any_eq_true]
  refine ⟨c, hc, ?_⟩
  rw [answersError_congr hfilters, hanswers, isSome_eq_of_beq hcondition, hsome]
  rfl

theorem exists_conditional (h : hasConditional configurations filters statusCode = true) :
    ∃ d ∈ processed configurations, answersError filters statusCode d.filters = true ∧
      d.filters.condition.isSome = true := by
  rw [hasConditional, List.any_eq_true] at h
  obtain ⟨c, hc, hanswers⟩ := h
  rw [Bool.and_eq_true] at hanswers
  obtain ⟨d, hd, hfilters⟩ := (exists_processed_iff configurations c.filters).2 ⟨c, hc, BEq.rfl⟩
  have hcondition := ((ServerConfigurationFilters.beq_iff _ _).1 hfilters).2.2.2.2.1
  refine ⟨d, hd, ?_, ?_⟩
  · rw [answersError_congr hfilters]
    exact hanswers.1
  · rw [isSome_eq_of_beq hcondition]
    exact hanswers.2

/-- No error configuration is more specific than the deciding ones. -/
theorem decides_iff_greatest {a : ServerConfiguration} (ha : a ∈ processed configurations) :
    decides configurations filters statusCode a.filters = true ↔
      answersError filters statusCode a.filters = true ∧ ∀ b ∈ processed configurations,
        answersError filters statusCode b.filters = true →
        KeyLE ServerConfigurationFilters.cmp ServerConfiguration.filters b a := by
  rw [decides, Bool.and_eq_true, beq_iff_eq]
  refine and_congr_right fun hanswersA => ?_
  constructor
  · intro hdeciding b hb hanswersB
    rw [KeyLE, cmp_of_answersError hanswersB hanswersA]
    cases hsome : b.filters.condition.isSome with
    | false => cases a.filters.condition.isSome <;> rfl
    | true =>
        rw [hdeciding, hasConditional_of_mem hb hanswersB hsome]
        rfl
  · intro hgreatest
    cases hhas : hasConditional configurations filters statusCode with
    | true =>
        obtain ⟨d, hd, hanswersD, hsome⟩ := exists_conditional hhas
        have hle := hgreatest d hd hanswersD
        rw [KeyLE, cmp_of_answersError hanswersD hanswersA, hsome] at hle
        cases hsomeA : a.filters.condition.isSome with
        | true => rfl
        | false =>
            rw [hsomeA] at hle
            exact absurd hle (by decide)
    | false =>
        cases hsomeA : a.filters.condition.isSome with
        | false => rfl
        | true =>
            rw [hasConditional_of_mem ha hanswersA hsomeA] at hhas
            exact absurd hhas (by decide)

/-- The sorts leave the deciding error configurations in the order in which they came. -/
theorem keyLE_of_decides {a b : ServerConfiguration}
    (ha : decides configurations filters statusCode a.filters = true)
    (hb : decides configurations filters statusCode b.filters = true) :
    KeyLE ServerConfigurationFilters.cmp ServerConfiguration.filters a b := by
  rw [decides, Bool.and_eq_true, beq_iff_eq] at ha hb
  rw [KeyLE, cmp_of_answersError ha.1 hb.1, ha.2, hb.2]
  cases hasConditional configurations filters statusCode <;> rfl

/-- The configuration that is found has the filters of the first deciding one in the order in which
duplicates are merged. -/
theorem find_filters_eq (configurations : List ServerConfiguration)
    (filters : ServerConfigurationFilters) (statusCode : UInt16) :
    (findErrorConfiguration (.new (processed configurations)) filters statusCode).map
        ServerConfiguration.filters =
      ((sortBy mergeOrder ServerConfiguration.filters configurations).find? fun c =>
        decides configurations filters statusCode c.filters).map ServerConfiguration.filters := by
  have hnew : findErrorConfiguration (.new (processed configurations)) filters statusCode =
      (processed configurations).find? fun c =>
        decides configurations filters statusCode c.filters := by
    rw [findErrorConfiguration, ServerConfigurations.new, sortBy]
    exact find?_reverse_insertionSort_reverse _ _ _ fun a ha => decides_iff_greatest ha
  have hpremerge : ((processed configurations).find? fun c =>
        decides configurations filters statusCode c.filters).map ServerConfiguration.filters =
      ((sortBy ServerConfigurationFilters.cmp ServerConfiguration.filters
          (mergeDuplicates configurations)).find? fun c =>
        decides configurations filters statusCode c.filters).map ServerConfiguration.filters := by
    have hmap := congrArg (List.find? (decides configurations filters statusCode))
      (map_filters_premergeConfiguration (mergeDuplicates configurations))
    rw [List.find?_map, List.find?_map] at hmap
    exact hmap
  have hsort : (sortBy ServerConfigurationFilters.cmp ServerConfiguration.filters
      (mergeDuplicates configurations)).find?
        (fun c => decides configurations filters statusCode c.filters) =
      (mergeDuplicates configurations).find? fun c =>
        decides configurations filters statusCode c.filters := by
    apply find?_insertionSort
    intro a b ha hb
    exact keyLE_of_decides ha hb
  have hkey : ∀ a b, (mergeInto a b).filters = a.filters := fun _ _ => rfl
  rw [hnew, hpremerge, hsort, mergeDuplicates]
  exact find?_mergeAdjacent ServerConfiguration.filters hkey (fun _ _ h => decides_congr h) _

/-! ## When the error configuration for the status code is found -/

/-- An error configuration for the status code is found, or one under the conditions of the request's
configuration when it has none; and some configuration is found when there is a catch-all one. -/
structure SpecificFound (configurations : List ServerConfiguration)
    (filters : ServerConfigurationFilters) (statusCode : UInt16) (found : Option ServerConfiguration) :
    Prop where
  specific : ∀ c ∈ configurations, OfHost filters c.filters →
    c.filters.errorHandlerStatus = some (.status statusCode) →
    ∃ d, found = some d ∧ ((d.filters == c.filters) = true ∨
      c.filters.condition = none ∧ d.filters.condition.isSome = true)
  catchAll : ∀ c ∈ configurations, OfHost filters c.filters →
    c.filters.errorHandlerStatus = some .any → found.isSome = true

/-- If there are error configurations for the status code among the most specific ones, then each
catch-all one of them has one for the status code before it in the order of the conditions. -/
def CatchAllsAfter (configurations : List ServerConfiguration) (filters : ServerConfigurationFilters)
    (statusCode : UInt16) : Prop :=
  ∀ c ∈ configurations, decides configurations filters statusCode c.filters = true →
    c.filters.errorHandlerStatus = some (.status statusCode) →
    ∀ a ∈ configurations, decides configurations filters statusCode a.filters = true →
      a.filters.errorHandlerStatus = some .any →
      ∃ c' ∈ configurations, decides configurations filters statusCode c'.filters = true ∧
        c'.filters.errorHandlerStatus = some (.status statusCode) ∧
        compare (ConditionKey.of c'.filters) (ConditionKey.of a.filters) = .lt

/-- Duplicates of one host are sorted by their conditions and then by their status. -/
theorem mergeOrder_of_ofHost {a b : ServerConfigurationFilters} (ha : OfHost filters a)
    (hb : OfHost filters b) :
    mergeOrder a b = (compare (ConditionKey.of a) (ConditionKey.of b)).then
      (compare a.errorHandlerStatus b.errorHandlerStatus) := by
  simp only [mergeOrder, compareLex, compareOn, ha.isHost, hb.isHost, ha.hostname, hb.hostname,
    ha.ip, hb.ip, ha.port, hb.port, ReflCmp.compare_self, Ordering.eq_then]

/-- Where there is an error configuration for the status code, a deciding one is found. -/
theorem exists_decides {c : ServerConfiguration} (hc : c ∈ configurations)
    (hanswers : answersError filters statusCode c.filters = true) :
    ∃ d ∈ configurations, decides configurations filters statusCode d.filters = true := by
  cases hhas : hasConditional configurations filters statusCode with
  | true =>
      rw [hasConditional, List.any_eq_true] at hhas
      obtain ⟨d, hd, hboth⟩ := hhas
      refine ⟨d, hd, ?_⟩
      have hsome : hasConditional configurations filters statusCode = true :=
        List.any_eq_true.2 ⟨d, hd, hboth⟩
      rw [Bool.and_eq_true] at hboth
      rw [decides, hboth.1, hboth.2, hsome]
      rfl
  | false =>
      refine ⟨c, hc, ?_⟩
      have hnone : c.filters.condition.isSome = false := by
        rw [← Bool.not_eq_true]
        intro hsome
        have hhas' : hasConditional configurations filters statusCode = true :=
          List.any_eq_true.2 ⟨c, hc, by rw [hanswers, hsome]; rfl⟩
        rw [hhas] at hhas'
        exact Bool.false_ne_true hhas'
      rw [decides, hanswers, hnone, hhas]
      rfl

/-- The configuration that is found: its filters are those of a deciding one, and no deciding one is
sorted before it. -/
theorem exists_found {c : ServerConfiguration} (hc : c ∈ configurations)
    (hanswers : answersError filters statusCode c.filters = true) :
    ∃ d e, findErrorConfiguration (.new (processed configurations)) filters statusCode = some d ∧
      e ∈ configurations ∧ d.filters = e.filters ∧
      decides configurations filters statusCode e.filters = true ∧
      ∀ b ∈ configurations, decides configurations filters statusCode b.filters = true →
        (mergeOrder e.filters b.filters).isLE = true := by
  have heq := find_filters_eq configurations filters statusCode
  have hmem : ∀ b, b ∈ sortBy mergeOrder ServerConfiguration.filters configurations ↔
      b ∈ configurations := fun b => List.mem_insertionSort _
  cases hfind : (sortBy mergeOrder ServerConfiguration.filters configurations).find? fun c =>
      decides configurations filters statusCode c.filters with
  | none =>
      obtain ⟨d, hd, hdecides⟩ := exists_decides hc hanswers
      exact absurd hdecides (List.find?_eq_none.1 hfind d ((hmem d).2 hd))
  | some e =>
      rw [hfind, Option.map_some] at heq
      obtain ⟨d, hd, hfilters⟩ := Option.map_eq_some_iff.1 heq
      have hsplit := List.find?_eq_some_iff_append.1 hfind
      obtain ⟨hdecides, front, back, hsorted, hfront⟩ := hsplit
      have he : e ∈ configurations := by
        rw [← hmem, hsorted]
        exact List.mem_append_right _ List.mem_cons_self
      refine ⟨d, e, hd, he, hfilters, hdecides, ?_⟩
      intro b hb hdecidesB
      have hpairwise : (sortBy mergeOrder ServerConfiguration.filters configurations).Pairwise
          (KeyLE mergeOrder ServerConfiguration.filters) := List.pairwise_insertionSort _ _
      rw [← hmem, hsorted] at hb
      rcases List.mem_append.1 hb with hbefore | hafter
      · exact absurd hdecidesB (by simpa using hfront b hbefore)
      · rcases List.mem_cons.1 hafter with rfl | hback
        · have hself : mergeOrder b.filters b.filters = .eq := ReflCmp.compare_self
          rw [hself]
          rfl
        · rw [hsorted] at hpairwise
          exact List.rel_of_pairwise_cons (List.pairwise_append.1 hpairwise).2.1 hback

/-- Deciding error configurations for one status code have equal filters. -/
theorem beq_of_decides {a b : ServerConfigurationFilters}
    (ha : decides configurations filters statusCode a = true)
    (hb : decides configurations filters statusCode b = true)
    (hstatus : a.errorHandlerStatus = b.errorHandlerStatus) : (a == b) = true := by
  rw [decides, Bool.and_eq_true, beq_iff_eq] at ha hb
  obtain ⟨hostA, -⟩ := answersError_iff.1 ha.1
  obtain ⟨hostB, -⟩ := answersError_iff.1 hb.1
  rw [ServerConfigurationFilters.beq_iff]
  refine ⟨hostA.isHost.trans hostB.isHost.symm, hostA.hostname.trans hostB.hostname.symm,
    hostA.ip.trans hostB.ip.symm, hostA.port.trans hostB.port.symm, ?_, hstatus⟩
  have hsome : a.condition.isSome = b.condition.isSome := ha.2.trans hb.2.symm
  rcases hostA.condition with hnoneA | hsameA
  · have hnoneB : b.condition = none := by
      rw [hnoneA] at hsome
      exact Option.not_isSome_iff_eq_none.1 (by rw [← hsome]; decide)
    rw [hnoneA, hnoneB]
    rfl
  · rcases hostB.condition with hnoneB | hsameB
    · have hnoneA : a.condition = none := by
        rw [hnoneB] at hsome
        exact Option.not_isSome_iff_eq_none.1 (by rw [hsome]; decide)
      rw [hnoneA, hnoneB]
      rfl
    · exact PartialEquivBEq.trans hsameA (PartialEquivBEq.symm hsameB)

/-- A specific error configuration sorted before a catch-all one comes before it by its conditions. -/
theorem compare_key_of_isLE {e a : ServerConfigurationFilters} (he : OfHost filters e)
    (ha : OfHost filters a) (hstatusE : e.errorHandlerStatus = some (.status statusCode))
    (hstatusA : a.errorHandlerStatus = some .any) (hle : (mergeOrder e a).isLE = true) :
    compare (ConditionKey.of e) (ConditionKey.of a) = .lt := by
  have hstatus : compare (some (ErrorHandlerStatus.status statusCode)) (some .any) =
      Ordering.gt := rfl
  rw [mergeOrder_of_ofHost he ha, hstatusE, hstatusA, hstatus] at hle
  cases hkey : compare (ConditionKey.of e) (ConditionKey.of a) with
  | lt => rfl
  | eq =>
      rw [hkey] at hle
      exact absurd hle (by decide)
  | gt =>
      rw [hkey] at hle
      exact absurd hle (by decide)

/-- The error configuration for the status code is found exactly when the catch-all ones with the same
conditions come after it. -/
theorem specificFound_iff (configurations : List ServerConfiguration)
    (filters : ServerConfigurationFilters) (statusCode : UInt16) :
    SpecificFound configurations filters statusCode
        (findErrorConfiguration (.new (processed configurations)) filters statusCode) ↔
      CatchAllsAfter configurations filters statusCode := by
  constructor
  · intro h c hc hdecidesC hstatusC a ha hdecidesA hstatusA
    have hanswersC := (Bool.and_eq_true_iff.1 hdecidesC).1
    have hanswersA := (Bool.and_eq_true_iff.1 hdecidesA).1
    obtain ⟨d, e, hfound, he, hfilters, hdecidesE, hleast⟩ := exists_found hc hanswersC
    obtain ⟨d', hfound', hsame⟩ := h.specific c hc (answersError_iff.1 hanswersC).1 hstatusC
    rw [hfound, Option.some.injEq] at hfound'
    subst hfound'
    rw [hfilters] at hsame
    -- what is found is an error configuration for the status code, with the same conditions
    have hstatusE : e.filters.errorHandlerStatus = some (.status statusCode) := by
      rcases hsame with hequal | ⟨hnone, hsome⟩
      · rw [((ServerConfigurationFilters.beq_iff _ _).1 hequal).2.2.2.2.2]
        exact hstatusC
      · have hdecidingC := (Bool.and_eq_true_iff.1 hdecidesC).2
        have hdecidingE := (Bool.and_eq_true_iff.1 hdecidesE).2
        rw [beq_iff_eq] at hdecidingC hdecidingE
        rw [hsome, ← hdecidingC, hnone] at hdecidingE
        exact absurd hdecidingE (by decide)
    have hanswersE := (Bool.and_eq_true_iff.1 hdecidesE).1
    exact ⟨e, he, hdecidesE, hstatusE, compare_key_of_isLE (answersError_iff.1 hanswersE).1
      (answersError_iff.1 hanswersA).1 hstatusE hstatusA (hleast a ha hdecidesA)⟩
  · intro h
    constructor
    · intro c hc hostC hstatusC
      have hanswersC : answersError filters statusCode c.filters = true :=
        answersError_iff.2 ⟨hostC, Or.inr hstatusC⟩
      obtain ⟨d, e, hfound, he, hfilters, hdecidesE, hleast⟩ := exists_found hc hanswersC
      refine ⟨d, hfound, ?_⟩
      rw [hfilters]
      have hanswersE := (Bool.and_eq_true_iff.1 hdecidesE).1
      have hdecidingE := (Bool.and_eq_true_iff.1 hdecidesE).2
      rw [beq_iff_eq] at hdecidingE
      cases hdecidesC : decides configurations filters statusCode c.filters with
      | true =>
          left
          apply beq_of_decides hdecidesE hdecidesC
          rw [hstatusC]
          rcases (answersError_iff.1 hanswersE).2 with hany | hspecific
          · -- a catch-all one cannot be the least
            obtain ⟨c', hc', hdecidesC', hstatusC', hlt⟩ :=
              h c hc hdecidesC hstatusC e he hdecidesE hany
            have hanswersC' := (Bool.and_eq_true_iff.1 hdecidesC').1
            have hle := hleast c' hc' hdecidesC'
            have hgt : mergeOrder c'.filters e.filters = .lt := by
              rw [mergeOrder_of_ofHost (answersError_iff.1 hanswersC').1
                (answersError_iff.1 hanswersE).1, hlt]
              rfl
            have hswap : mergeOrder e.filters c'.filters = (mergeOrder c'.filters e.filters).swap :=
              OrientedCmp.eq_swap
            rw [hswap, hgt] at hle
            exact absurd hle (by decide)
          · exact hspecific
      | false =>
          right
          rw [decides, hanswersC, Bool.true_and] at hdecidesC
          cases hsomeC : c.filters.condition.isSome with
          | true =>
              have hhas : hasConditional configurations filters statusCode = true :=
                List.any_eq_true.2 ⟨c, hc, by rw [hanswersC, hsomeC]; rfl⟩
              rw [hsomeC, hhas] at hdecidesC
              exact absurd hdecidesC (by decide)
          | false =>
              refine ⟨Option.not_isSome_iff_eq_none.1 (by rw [hsomeC]; decide), ?_⟩
              rw [hsomeC, ← hdecidingE] at hdecidesC
              simpa using hdecidesC
    · intro a ha hostA hstatusA
      have hanswersA : answersError filters statusCode a.filters = true :=
        answersError_iff.2 ⟨hostA, Or.inl hstatusA⟩
      obtain ⟨d, e, hfound, -⟩ := exists_found ha hanswersA
      rw [hfound]
      rfl

/-- Under no conditions a catch-all configuration is enough to hide the one for the status code. -/
theorem not_catchAllsAfter {c a : ServerConfiguration} (hc : c ∈ configurations)
    (hdecidesC : decides configurations filters statusCode c.filters = true)
    (hstatusC : c.filters.errorHandlerStatus = some (.status statusCode)) (ha : a ∈ configurations)
    (hdecidesA : decides configurations filters statusCode a.filters = true)
    (hstatusA : a.filters.errorHandlerStatus = some .any) (hnone : a.filters.condition = none) :
    ¬CatchAllsAfter configurations filters statusCode := by
  intro h
  obtain ⟨c', _, _, _, hlt⟩ := h c hc hdecidesC hstatusC a ha hdecidesA hstatusA
  have hkeyA : ConditionKey.of a.filters = none := by
    rw [ConditionKey.of, hnone]
    rfl
  rw [hkeyA] at hlt
  cases hkey : ConditionKey.of c'.filters with
  | none =>
      rw [hkey] at hlt
      exact absurd hlt (by decide)
  | some key =>
      rw [hkey] at hlt
      exact absurd hlt (by simp)

end Found

/-- A host block. -/
def hostFilters : ServerConfigurationFilters :=
  ⟨true, some "host".toList, none, none, none, none⟩

/-- An error configuration of the host. -/
def errorConfiguration (status : ErrorHandlerStatus) : ServerConfiguration :=
  ⟨∅, { hostFilters with errorHandlerStatus := some status }⟩

/-- For the status code 404 the catch-all configuration is found, not the one for 404. -/
theorem findErrorConfiguration_catchAll :
    (findErrorConfiguration
        (.new (processed [errorConfiguration (.status 404), errorConfiguration .any]))
        hostFilters 404).map (fun d => d.filters.errorHandlerStatus) = some (some .any) ∧
      ¬SpecificFound [errorConfiguration (.status 404), errorConfiguration .any] hostFilters 404
        (findErrorConfiguration
          (.new (processed [errorConfiguration (.status 404), errorConfiguration .any]))
          hostFilters 404) := by
  have hfound := find_filters_eq [errorConfiguration (.status 404), errorConfiguration .any]
    hostFilters 404
  have hfirst : ((sortBy mergeOrder ServerConfiguration.filters
      [errorConfiguration (.status 404), errorConfiguration .any]).find? fun c =>
        decides [errorConfiguration (.status 404), errorConfiguration .any] hostFilters 404
          c.filters).map ServerConfiguration.filters =
      some { hostFilters with errorHandlerStatus := some .any } := by
    rfl
  rw [hfirst] at hfound
  obtain ⟨d, hd, hfilters⟩ := Option.map_eq_some_iff.1 hfound
  rw [hd]
  refine ⟨by rw [Option.map_some, hfilters], ?_⟩
  intro h
  obtain ⟨d', hd', hsame⟩ := h.specific (errorConfiguration (.status 404)) List.mem_cons_self
    ⟨rfl, rfl, rfl, rfl, Or.inl rfl⟩ rfl
  rw [← Option.some.inj hd', hfilters] at hsame
  rcases hsame with hequal | ⟨-, hsome⟩
  · exact absurd hequal (by decide)
  · exact absurd hsome (by decide)

end Ferron.Config
