import Ferron.Yaml2Kdl.SectionParts

/-!
# The parts of a configuration

A converted document has the global directives, the blocks of the SNI hostnames, and the parts of the global
section and of the hosts (`topParts`). What stands in it with some filters is found in the blocks that the
filters are of (`flatMap_blocksUnder_convert`).
-/

set_option autoImplicit false

namespace Ferron.Yaml2Kdl

open Ferron.Common Ferron.Config

/-! ## The sections of a configuration -/

/-- The global section. -/
def globalSection (yaml : Yaml) : Yaml := yaml.index "global"

/-- The modules that are loaded. -/
def modulesOf (yaml : Yaml) : List Str := loadServerModules (globalSection yaml).properties

/-- The custom headers that the hosts inherit. -/
def inheritedHeaders (yaml : Yaml) : HashMap Str Str :=
  insertHeaders ((globalSection yaml).index "customHeaders") ∅

/-- The port for HTTPS. -/
def securePortOf (yaml : Yaml) : UInt16 := asU16 (((globalSection yaml).index "sport").asI64.getD 443)

/-- The blocks of the SNI hostnames. -/
def sniBlocks (yaml : Yaml) : KdlDocument := ((globalSection yaml).index "sni").properties.filterMap sniBlock

/-- The global directives. -/
def globalDirectives (yaml : Yaml) : KdlDocument :=
  (readGlobal (modulesOf yaml) (globalSection yaml)).directives (modulesOf yaml)

/-- The parts of a section, with the names of their blocks. -/
def partsNamed (name : Str) (securePort : UInt16) (ofGlobal : Bool) (value : Yaml)
    (customHeaders : HashMap Str Str) : List (Str × Part) :=
  [(name, ⟨ofGlobal, false, value, customHeaders⟩),
    (secureName name securePort, ⟨ofGlobal, true, value, customHeaders⟩)]

/-- The parts of a host that has a name. -/
def hostParts (yaml host : Yaml) : List (Str × Part) :=
  match hostName host with
  | none => []
  | some name => partsNamed name (securePortOf yaml) false host (inheritedHeaders yaml)

/-- The parts of the global section and of the hosts. -/
def topParts (yaml : Yaml) : List (Str × Part) :=
  partsNamed "*".toList (securePortOf yaml) true (globalSection yaml) ∅ ++
    (yaml.sections "hosts").flatMap (hostParts yaml)

/-- The parts of a host are of its section. -/
theorem of_mem_hostParts {yaml host : Yaml} {entry : Str × Part} (h : entry ∈ hostParts yaml host) :
    entry.2.ofGlobal = false ∧ entry.2.value = host := by
  rw [hostParts] at h
  split at h
  · exact absurd h List.not_mem_nil
  · simp only [partsNamed, List.mem_cons, List.not_mem_nil, or_false] at h
    rcases h with rfl | rfl <;> exact ⟨rfl, rfl⟩

/-- The keys of the global section, of the hosts and of the sections in them are different. -/
structure DistinctConfiguration (yaml : Yaml) : Prop where
  globals : DistinctKeys (globalSection yaml)
  hosts : ∀ host ∈ yaml.sections "hosts", DistinctKeys host

theorem DistinctConfiguration.of_mem_topParts {yaml : Yaml} (h : DistinctConfiguration yaml)
    {entry : Str × Part} (hentry : entry ∈ topParts yaml) : DistinctKeys entry.2.value := by
  rcases List.mem_append.1 hentry with hentry | hentry
  · simp only [partsNamed, List.mem_cons, List.not_mem_nil, or_false] at hentry
    rcases hentry with rfl | rfl
    · exact h.globals
    · exact h.globals
  · obtain ⟨host, hhost, hentry⟩ := List.mem_flatMap.1 hentry
    rw [(of_mem_hostParts hentry).2]
    exact h.hosts host hhost

theorem globallyNamed_globalDirectives (yaml : Yaml) : GloballyNamed (globalDirectives yaml) :=
  globallyNamed_directives _ _

section Sections

variable {order : HeaderOrder} {yaml : Yaml} (h : DistinctConfiguration yaml)

include h

theorem securePort_eq :
    asU16 (readGlobal (modulesOf yaml) (globalSection yaml)).securePort = securePortOf yaml := by
  rw [readGlobal_own GlobalConfiguration.securePort (fun value port => value.asI64.getD port)
    (GlobalConfiguration.apply_securePort _) h.globals.uniqueKeys, securePortOf, Yaml.index_eq]
  cases Yaml.get (globalSection yaml).properties "sport" <;> rfl

theorem sniConfiguration_eq :
    (readGlobal (modulesOf yaml) (globalSection yaml)).sniConfiguration = sniBlocks yaml := by
  rw [readGlobal_own GlobalConfiguration.sniConfiguration
    (fun value blocks => blocks ++ value.properties.filterMap sniBlock)
    (GlobalConfiguration.apply_sniConfiguration _) h.globals.uniqueKeys, sniBlocks, Yaml.index_eq]
  cases Yaml.get (globalSection yaml).properties "sni" <;> rfl

theorem inheritedHeaders_eq :
    (obtainHostConfiguration order (modulesOf yaml) (globalSection yaml) ∅).2 = inheritedHeaders yaml := by
  rw [obtainHostConfiguration_eq]
  exact customHeaders_readSection h.globals.uniqueKeys ∅

/-- The blocks of a converted document: the one for all hosts, those of the SNI hostnames, and the parts of
the sections. -/
theorem convertYamlToKdl_parts : convertYamlToKdl order yaml =
    block "*".toList (globalDirectives yaml) :: sniBlocks yaml ++
      (sectionBlocks "*".toList (securePortOf yaml)
          (sectionDocuments order (modulesOf yaml) (globalSection yaml) ∅).1
          (sectionDocuments order (modulesOf yaml) (globalSection yaml) ∅).2 ++
        (yaml.sections "hosts").flatMap
          (hostBlocks order (modulesOf yaml) (securePortOf yaml) (inheritedHeaders yaml))) := by
  rw [convertYamlToKdl_eq, obtainGlobalConfiguration_eq]
  dsimp only
  rw [← securePort_eq h, ← sniConfiguration_eq h, ← @inheritedHeaders_eq order _ h]
  rfl

end Sections

/-! ## What the sections give at a place -/

section Under

variable {env : Environment} {filters : ServerConfigurationFilters} {α : Type} {f : KdlDocument → List α}
  (hf : f [] = [])

theorem underName_nil {name : Str} : underName env filters name ([] : List α) = [] := by
  rw [underName, List.flatMap_eq_nil_iff]
  intro part _
  split
  · split <;> rfl
  · rfl

/-- What stands in a document with some filters. -/
def foundUnder (env : Environment) (filters : ServerConfigurationFilters) (f : KdlDocument → List α)
    (name : Str) (document : KdlDocument) : List α :=
  underName env filters name
    ((blocksAt (pathOf filters) filters.errorHandlerStatus document).flatMap f)

theorem flatMap_blocksUnder (document : KdlDocument) :
    (blocksUnder env filters document).flatMap f =
      document.flatMap fun node => foundUnder env filters f node.name (childNodes node) := by
  rw [blocksUnder, List.flatMap_assoc]
  exact List.flatMap_congr fun node _ => flatMap_underName f _

include hf

theorem foundUnder_nil (name : Str) : foundUnder env filters f name [] = [] := by
  have hnone : (blocksAt (pathOf filters) filters.errorHandlerStatus []).flatMap f = [] := by
    cases pathOf filters with
    | none =>
        cases filters.errorHandlerStatus with
        | none => exact (List.flatMap_singleton _ _).trans hf
        | some status => rfl
    | some path => cases filters.errorHandlerStatus <;> rfl
  rw [foundUnder, hnone, underName_nil]

/-- The blocks of a section have what its parts have. -/
theorem foundUnder_sectionBlocks (order : HeaderOrder) (modules : List Str) (name : Str)
    (securePort : UInt16) (ofGlobal : Bool) (value : Yaml) (customHeaders : HashMap Str Str) :
    ((sectionBlocks name securePort (sectionDocuments order modules value customHeaders).1
        (sectionDocuments order modules value customHeaders).2).flatMap fun node =>
          foundUnder env filters f node.name (childNodes node)) =
      (partsNamed name securePort ofGlobal value customHeaders).flatMap fun entry =>
        foundUnder env filters f entry.1 (entry.2.document order modules) := by
  rw [sectionBlocks, List.flatMap_append, partsNamed, List.flatMap_cons, List.flatMap_singleton]
  refine congrArg₂ (· ++ ·) ?_ ?_
  · split
    · rename_i hempty
      rw [Part.document, if_neg Bool.false_ne_true, List.isEmpty_iff.1 hempty, foundUnder_nil hf]
      rfl
    · exact List.flatMap_singleton _ _
  · rw [Part.document, if_pos rfl]
    cases (sectionDocuments order modules value customHeaders).2 with
    | none => exact (foundUnder_nil hf _).symm
    | some config => exact List.flatMap_singleton _ _

/-- What a converted document has under some filters. -/
theorem flatMap_blocksUnder_convert {order : HeaderOrder} {yaml : Yaml} (h : DistinctConfiguration yaml) :
    (blocksUnder env filters (convertYamlToKdl order yaml)).flatMap f =
      (foundUnder env filters f "*".toList (globalDirectives yaml) ++
          (sniBlocks yaml).flatMap fun node => foundUnder env filters f node.name (childNodes node)) ++
        (topParts yaml).flatMap fun entry =>
          foundUnder env filters f entry.1 (entry.2.document order (modulesOf yaml)) := by
  rw [flatMap_blocksUnder, convertYamlToKdl_parts h, List.flatMap_append, List.flatMap_append, topParts,
    List.flatMap_append, List.flatMap_cons, foundUnder_sectionBlocks hf _ _ _ _ true, List.flatMap_assoc,
    List.flatMap_assoc]
  refine congrArg₂ (· ++ ·) rfl (congrArg₂ (· ++ ·) rfl (List.flatMap_congr fun host _ => ?_))
  rw [hostBlocks, hostParts]
  cases hostName host with
  | none => rfl
  | some name => exact foundUnder_sectionBlocks hf _ _ _ _ false _ _

end Under

end Ferron.Yaml2Kdl
