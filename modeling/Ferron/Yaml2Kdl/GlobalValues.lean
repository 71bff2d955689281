import Ferron.Config.ErrorConfiguration
import Ferron.Yaml2Kdl.GlobalProperty

/-!
# Global settings in the converted configuration

A block has the directives of a global property from the block for all hosts, when no block nearer to it has
any. `GlobalProperty.Kept` says where the global value stays in effect (`globalValue_inEffect_iff`).

The handlers for SCGI and FastCGI are not kept: a host that sets nothing has the default handler
(`scgi_not_globalValuesSurvive`).
-/

set_option autoImplicit false

namespace Ferron.Yaml2Kdl

open Ferron.Common Ferron.Config Ferron.Lib.KeyedList Ferron.Lib.Layers

namespace GlobalProperty

/-! ## The values in effect -/

section InEffect

variable {env : Environment} {order : HeaderOrder} {yaml : Yaml}
  {configurations : List ServerConfiguration}

/-- The values in effect are those of the nearest block around that has some. -/
theorem directiveValues_convert
    (hload : loadLegacyConfiguration env (convertYamlToKdl order yaml) = .ok configurations)
    (property : GlobalProperty) {d : ServerConfiguration} (hd : d ∈ processConfigurations configurations) :
    directiveValues d.entries property.name =
      firstNonempty ((around d.filters).map fun filters =>
        ((blocksUnder env filters (convertYamlToKdl order yaml)).flatMap (named property.name)).map
          kdlNodeToConfigurationEntry) := by
  obtain ⟨-, rfl⟩ := loadLegacyConfiguration_convert.1 hload
  rw [(directiveValues_document hd).2 property.name property.name_not_reserved]
  refine congrArg firstNonempty (List.map_congr_left fun filters _ => ?_)
  rw [List.map_flatMap]
  rfl

/-- The values of one's own and of others in the blocks around. -/
theorem interleaved_around (hkeys : DistinctConfiguration yaml) {property : GlobalProperty}
    {filters : ServerConfigurationFilters} (hunset : property.Unset env yaml filters) :
    ∀ g ∈ around filters,
      Interleaved ((property.own order env yaml g).map kdlNodeToConfigurationEntry)
        ((property.others order env yaml g).map kdlNodeToConfigurationEntry)
        (((blocksUnder env g (convertYamlToKdl order yaml)).flatMap (named property.name)).map
          kdlNodeToConfigurationEntry) :=
  fun _ hg => (interleaved_blocks hkeys fun _ => hunset.at_place hg).map _

theorem own_values_cases (property : GlobalProperty) (filters : ServerConfigurationFilters) :
    (property.own order env yaml filters).map kdlNodeToConfigurationEntry = [] ∨
      (property.own order env yaml filters).map kdlNodeToConfigurationEntry =
        (property.converted order yaml).map kdlNodeToConfigurationEntry := by
  rcases @own_eq_nil_or order env yaml property filters with hnil | hvalue
  · exact .inl (by rw [hnil]; rfl)
  · exact .inr (by rw [hvalue])

/-- **Global settings survive migration** for a block exactly where the nearest block around it that has the
directive has nothing but the global value, or the same from elsewhere. -/
theorem globalValue_inEffect_iff (hkeys : DistinctConfiguration yaml)
    (hload : loadLegacyConfiguration env (convertYamlToKdl order yaml) = .ok configurations)
    {property : GlobalProperty} {d : ServerConfiguration} (hd : d ∈ processConfigurations configurations)
    (hunset : property.Unset env yaml d.filters) :
    directiveValues d.entries property.name =
        (property.converted order yaml).map kdlNodeToConfigurationEntry ↔
      property.Kept order env yaml d.filters := by
  rw [directiveValues_convert hload property hd]
  exact firstNonempty_eq_iff (interleaved_around hkeys hunset) fun g _ => own_values_cases property g

end InEffect

end GlobalProperty

/-- Each property of the global section is in effect in each block that no other section sets it for. -/
def GlobalValuesSurvive (env : Environment) (order : HeaderOrder) (yaml : Yaml) : Prop :=
  ∀ configurations, loadLegacyConfiguration env (convertYamlToKdl order yaml) = .ok configurations →
    ∀ (property : GlobalProperty), ∀ d ∈ processConfigurations configurations,
      property.Unset env yaml d.filters →
        directiveValues d.entries property.name =
          (property.converted order yaml).map kdlNodeToConfigurationEntry

/-! ## A host behind the global section -/

/-- A configuration of a global section and one host. -/
def globalAndHost (globals host : List (Yaml × Yaml)) : Yaml :=
  .hash [(.string "global".toList, .hash globals),
    (.string "hosts".toList, .array [.hash ((.string "domain".toList, .string "host".toList) :: host)])]

theorem eq_hostFilters {filters : ServerConfigurationFilters} (h : (filters == hostFilters) = true) :
    filters = hostFilters := by
  obtain ⟨isHost, hostname, ip, port, condition, errorHandlerStatus⟩ := filters
  rw [ServerConfigurationFilters.beq_iff] at h
  obtain ⟨hisHost, hhostname, hip, hport, hcondition, hstatus⟩ := h
  cases condition with
  | some condition => cases hcondition
  | none =>
      dsimp only at hisHost hhostname hip hport hstatus
      rw [hisHost, hhostname, hip, hport, hstatus]
      rfl

/-- A host without locations that does not have the key does not set the property. -/
theorem unset_globalAndHost {globals host : List (Yaml × Yaml)} {property : GlobalProperty}
    (hkey : ∀ key, property.key = some key →
      Yaml.get ((.string "domain".toList, .string "host".toList) :: host) key = none)
    (env : Environment) : property.Unset env (globalAndHost globals host) hostFilters := by
  intro key hproperty g hg entry hentry _ part hpart hglobal
  have hplace : pathOf g = none ∧ g.errorHandlerStatus = none := by
    simp only [around, List.mem_cons, List.not_mem_nil, or_false] at hg
    rcases hg with rfl | rfl | rfl | rfl | rfl | rfl | rfl <;> exact ⟨rfl, rfl⟩
  rw [hplace.1, hplace.2] at hpart
  rw [List.mem_singleton.1 hpart] at hglobal ⊢
  have htop : topParts (globalAndHost globals host) =
      partsNamed "*".toList (securePortOf (globalAndHost globals host)) true (.hash globals) ∅ ++
        partsNamed "host".toList (securePortOf (globalAndHost globals host)) false
          (.hash ((.string "domain".toList, .string "host".toList) :: host))
          (inheritedHeaders (globalAndHost globals host)) := rfl
  rw [htop] at hentry
  simp only [partsNamed, List.mem_append, List.mem_cons, List.not_mem_nil, or_false] at hentry
  rcases hentry with (rfl | rfl) | (rfl | rfl)
  · cases hglobal
  · cases hglobal
  · exact hkey key hproperty
  · exact hkey key hproperty

/-- A mapping without sections. -/
theorem distinctKeys_of_leaves {entries : List (Yaml × Yaml)} (hunique : (entries.map Prod.fst).Nodup)
    (hleaves : ∀ entry ∈ entries, ∀ items, entry.2 = .array items → ∀ item ∈ items, item.asHash = none) :
    DistinctKeys (.hash entries) :=
  .of_hash hunique fun entry hentry items hitems item hitem =>
    .of_not_hash (hleaves entry hentry items hitems item hitem)

/-- The global section sets a handler for SCGI and a root, and the host sets nothing. -/
def scgiConfiguration : Yaml :=
  globalAndHost [(.string "loadModules".toList, .array [.string "scgi".toList]),
    (.string "scgiTo".toList, .string "tcp://scgi/".toList),
    (.string "wwwroot".toList, .string "/srv".toList)] []

theorem distinctConfiguration_scgi : DistinctConfiguration scgiConfiguration where
  globals := by
    have hnames : ["loadModules".toList, "scgiTo".toList, "wwwroot".toList].Nodup := by decide
    have hunique : (["loadModules".toList, "scgiTo".toList, "wwwroot".toList].map Yaml.string).Nodup :=
      hnames.map fun _ _ => Yaml.string.inj
    refine distinctKeys_of_leaves hunique fun entry hentry items hitems item hitem => ?_
    simp only [List.mem_cons, List.not_mem_nil, or_false] at hentry
    rcases hentry with rfl | rfl | rfl
    · cases hitems
      rw [List.mem_singleton.1 hitem]
      rfl
    · cases hitems
    · cases hitems
  hosts := by
    intro host hhost
    rw [List.mem_singleton.1 hhost]
    refine distinctKeys_of_leaves (List.nodup_singleton _) fun entry hentry items hitems => ?_
    rw [List.mem_singleton.1 hentry] at hitems
    cases hitems

/-- The host gets a default handler. -/
def scgiDocument : KdlDocument :=
  [block "*".toList
      [directive "default_http_port" ⟨[.integer 80], []⟩, directive "default_https_port" ⟨[.null], []⟩,
        directive "auto_tls" ⟨[.bool false], []⟩,
        directive "protocols" ⟨[.string "h1".toList, .string "h2".toList], []⟩],
    block "*".toList
      [directive "root" ⟨[.string "/srv".toList], []⟩, directive "scgi" ⟨[.string "tcp://scgi/".toList], []⟩],
    block "host".toList [directive "scgi" ⟨[.string defaultTo], []⟩]]

theorem convert_scgiConfiguration :
    convertYamlToKdl insertionOrder scgiConfiguration = scgiDocument := by rfl

theorem load_scgiConfiguration :
    loadLegacyConfiguration (documentEnvironment []) (convertYamlToKdl insertionOrder scgiConfiguration) =
      .ok (flattenDocument some (documentEnvironment []) scgiDocument) := by
  refine loadLegacyConfiguration_convert.2 ⟨?_, by rw [convert_scgiConfiguration]⟩
  rw [convert_scgiConfiguration]
  intro node hnode name hname
  simp only [scgiDocument, List.mem_cons, List.not_mem_nil, or_false] at hnode
  rcases hnode with rfl | rfl | rfl
  · rw [List.mem_singleton.1 hname]
    exact ⟨_, rfl⟩
  · rw [List.mem_singleton.1 hname]
    exact ⟨_, rfl⟩
  · rw [List.mem_singleton.1 hname]
    exact ⟨_, rfl⟩

theorem exists_scgiHost :
    ∃ d ∈ processConfigurations (flattenDocument some (documentEnvironment []) scgiDocument),
      d.filters = hostFilters := by
  have hset : (blocksUnder (documentEnvironment []) hostFilters scgiDocument).flatMap
      (valuesOf "scgi".toList) = [⟨[.string defaultTo], ∅⟩] := rfl
  obtain ⟨d, hd, hsame⟩ := exists_processed_of_blocksUnder (.of_none rfl) (by decide)
    (hset ▸ List.cons_ne_nil _ _)
  exact ⟨d, hd, eq_hostFilters hsame⟩

/-- The host gets the root of the global section. -/
theorem root_inEffect :
    ∃ d ∈ processConfigurations (flattenDocument some (documentEnvironment []) scgiDocument),
      d.filters = hostFilters ∧
        directiveValues d.entries "root".toList = [⟨[.string "/srv".toList], ∅⟩] := by
  obtain ⟨d, hd, hfilters⟩ := exists_scgiHost
  have htranslation : (⟨"wwwroot", none, "root", text⟩ : Translation) ∈ hostTranslations := by
    simp [hostTranslations]
  have hunset : (GlobalProperty.translated _ htranslation).Unset (documentEnvironment [])
      scgiConfiguration d.filters := by
    rw [hfilters]
    refine unset_globalAndHost (fun key hkey => ?_) _
    rw [← Option.some.inj hkey]
    rfl
  have hkept : (GlobalProperty.translated _ htranslation).Kept insertionOrder (documentEnvironment [])
      scgiConfiguration d.filters := by
    rw [hfilters]
    exact Or.inl rfl
  exact ⟨d, hd, hfilters, (GlobalProperty.globalValue_inEffect_iff distinctConfiguration_scgi
    load_scgiConfiguration hd hunset).2 hkept⟩

/-- The host gets the default handler in place of the global one. -/
theorem scgi_not_globalValuesSurvive :
    ¬GlobalValuesSurvive (documentEnvironment []) insertionOrder scgiConfiguration := by
  intro h
  obtain ⟨d, hd, hfilters⟩ := exists_scgiHost
  have hunset : (GlobalProperty.handler .scgi).Unset (documentEnvironment []) scgiConfiguration
      d.filters := by
    rw [hfilters]
    refine unset_globalAndHost (fun key hkey => ?_) _
    rw [← Option.some.inj hkey]
    rfl
  have hvalues := h _ load_scgiConfiguration (.handler .scgi) d hd hunset
  rw [GlobalProperty.directiveValues_convert load_scgiConfiguration _ hd, hfilters,
    convert_scgiConfiguration] at hvalues
  have hdefault : firstNonempty ((around hostFilters).map fun filters =>
      ((blocksUnder (documentEnvironment []) filters scgiDocument).flatMap (named "scgi".toList)).map
        kdlNodeToConfigurationEntry) = [⟨[.string defaultTo], ∅⟩] := rfl
  have hglobal : ((GlobalProperty.handler .scgi).converted insertionOrder scgiConfiguration).map
      kdlNodeToConfigurationEntry = [⟨[.string "tcp://scgi/".toList], ∅⟩] := rfl
  rw [hglobal] at hvalues
  exact absurd (hdefault.symm.trans hvalues) (by decide)

end Ferron.Yaml2Kdl
