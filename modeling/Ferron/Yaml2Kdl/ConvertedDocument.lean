import Ferron.Config.InheritedValues
import Ferron.Yaml2Kdl.KeyOrder

/-!
# The converted document is loaded

The converter makes directives, locations with a path and error configurations, and top-level blocks of
them (`convertedDocument_convert`). So the legacy adapter loads a converted document whenever the names of
its blocks are host specifiers, and gives the configurations of `flattenDocument`
(`loadLegacyConfiguration_convert`).
-/

set_option autoImplicit false

namespace Ferron.Yaml2Kdl

open Ferron.Common Ferron.Config Ferron.Lib.KeyedList

/-! ## Handlers -/

/-- The names of the handlers. -/
def handlerNames : List String := ["scgi", "fcgi", "wsgi", "wsgid", "asgi"]

section Handler

variable {modules : List Str} {settings : Setting → Option Str} {handler : Option Str × KdlNode}

theorem name_of_mem_scgiHandler (h : handler ∈ scgiHandler modules settings) :
    handler.2.name = "scgi".toList := by
  rw [scgiHandler] at h
  split at h
  · rw [List.mem_singleton.1 h]
    rfl
  · exact absurd h List.not_mem_nil

theorem name_of_mem_fcgiHandler (h : handler ∈ fcgiHandler modules settings) :
    handler.2.name = "fcgi".toList := by
  rw [fcgiHandler] at h
  split at h
  · rw [List.mem_singleton.1 h]
    rfl
  · exact absurd h List.not_mem_nil

theorem name_of_mem_applicationHandler {name : String} {applicationPath path : Setting}
    (h : handler ∈ applicationHandler modules settings name applicationPath path) :
    handler.2.name = name.toList := by
  rw [applicationHandler] at h
  split at h
  · obtain ⟨application, -, rfl⟩ := Option.map_eq_some_iff.1 (Option.mem_toList.1 h)
    rfl
  · exact absurd h List.not_mem_nil

theorem name_of_mem_allHandlers (h : handler ∈ allHandlers modules settings) :
    ∃ name ∈ handlerNames, handler.2.name = name.toList := by
  simp only [allHandlers, List.mem_append] at h
  rcases h with (((h | h) | h) | h) | h
  · exact ⟨"asgi", by decide, name_of_mem_applicationHandler h⟩
  · exact ⟨"wsgid", by decide, name_of_mem_applicationHandler h⟩
  · exact ⟨"wsgi", by decide, name_of_mem_applicationHandler h⟩
  · exact ⟨"fcgi", by decide, name_of_mem_fcgiHandler h⟩
  · exact ⟨"scgi", by decide, name_of_mem_scgiHandler h⟩

theorem mem_allHandlers_of_scgi (h : handler ∈ scgiHandler modules settings) :
    handler ∈ allHandlers modules settings :=
  List.mem_append_right _ h

/-- The directives behind the custom headers are handlers and file extensions. -/
theorem name_of_mem_handlersBehind {extensions : List Yaml} {node : KdlNode}
    (h : node ∈ handlersBehind modules settings extensions) :
    node.name = "fcgi_extension".toList ∨ (none, node) ∈ allHandlers modules settings := by
  simp only [handlersBehind, List.mem_append] at h
  rw [allHandlers]
  simp only [List.mem_append]
  rcases h with (((h | h) | h) | h) | h
  · exact .inr (.inl (.inr (Handlers.mem_of_mem_directives h)))
  · rw [fcgiExtensions] at h
    split at h
    · obtain ⟨arguments, -, rfl⟩ := List.mem_map.1 h
      exact .inl rfl
    · exact absurd h List.not_mem_nil
  · exact .inr (.inl (.inl (.inr (Handlers.mem_of_mem_directives h))))
  · exact .inr (.inl (.inl (.inl (.inr (Handlers.mem_of_mem_directives h)))))
  · exact .inr (.inl (.inl (.inl (.inl (Handlers.mem_of_mem_directives h)))))

end Handler

/-! ## Sections -/

/-- All nodes are like those of the converter. -/
def AllConverted (document : KdlDocument) : Prop := ∀ node ∈ document, Converted node

theorem allConverted_append {front back : KdlDocument} :
    AllConverted (front ++ back) ↔ AllConverted front ∧ AllConverted back :=
  List.forall_mem_append

/-- The names that the directives of a section have. -/
def sectionNames : List String :=
  ["header", "fcgi_extension"] ++ handlerNames ++ hostTranslations.map Translation.name

theorem toList_notMem {name : String} {names : List String} (h : name ∉ names) :
    name.toList ∉ names.map String.toList := by
  rw [List.mem_map]
  rintro ⟨other, hother, heq⟩
  exact h (String.toList_inj.1 heq ▸ hother)

theorem blockNames_eq : blockNames =
    ["use", "location", "condition", "if", "if_not", "error_config"].map String.toList := rfl

theorem not_blockName_of_sectionName : ∀ name ∈ sectionNames, name.toList ∉ blockNames := by
  have hnot : ∀ name ∈ sectionNames,
      name ∉ ["use", "location", "condition", "if", "if_not", "error_config"] := by decide +kernel
  rw [blockNames_eq]
  exact fun name hname => toList_notMem (hnot name hname)

theorem mem_sectionNames_of_translation {translation : Translation} (h : translation ∈ hostTranslations) :
    translation.name ∈ sectionNames :=
  List.mem_append_right _ (List.mem_map_of_mem h)

theorem mem_sectionNames_of_handler {name : String} (h : name ∈ handlerNames) : name ∈ sectionNames :=
  List.mem_append_left _ (List.mem_append_right _ h)

theorem converted_of_sectionName {node : KdlNode} {name : String} (hname : name ∈ sectionNames)
    (hnode : node.name = name.toList) : Converted node :=
  .directive (hnode ▸ not_blockName_of_sectionName name hname)

theorem converted_locationNode (path : Str) {config : KdlDocument} (h : AllConverted config) :
    Converted (locationNode path config) :=
  .location rfl rfl rfl h

theorem converted_errorConfigNode (scode : Option Int) {config : KdlDocument} (h : AllConverted config) :
    Converted (errorConfigNode scode config) := by
  refine @Converted.errorConfig _ scode _ rfl ?_ rfl h
  cases scode <;> rfl

theorem converted_handlerLocation {path : Str} {handler : KdlNode} (h : Converted handler) :
    Converted (handlerLocation path handler) := by
  refine .location rfl rfl rfl fun node hnode => ?_
  rw [List.mem_singleton.1 hnode]
  exact h

/-- What is made of the properties so far is like that of the converter. -/
structure ConvertedSection (host : HostSection) : Prop where
  nodes : AllConverted host.nodes
  secureNodes : AllConverted host.secureNodes

section Sections

variable {order : HeaderOrder} {modules : List Str}

/-- The documents of a section are like those of the converter. -/
def ConvertedDocuments (order : HeaderOrder) (modules : List Str) (value : Yaml) : Prop :=
  ∀ customHeaders, AllConverted (sectionDocuments order modules value customHeaders).1 ∧
    ∀ config, (sectionDocuments order modules value customHeaders).2 = some config → AllConverted config

theorem ConvertedSection.obtainLocations {host : HostSection} (h : ConvertedSection host)
    {items : List Yaml} (hitems : ∀ item ∈ items, ConvertedDocuments order modules item) :
    ConvertedSection (obtainLocations order modules items host) := by
  rw [obtainLocations_eq]
  constructor
  · refine allConverted_append.2 ⟨fun node hnode => ?_, h.nodes⟩
    obtain ⟨location, hlocation, hnode⟩ := List.mem_flatMap.1 hnode
    obtain ⟨path, -, rfl⟩ := Option.map_eq_some_iff.1 (Option.mem_toList.1 hnode)
    exact converted_locationNode path (hitems location hlocation _).1
  · refine allConverted_append.2 ⟨fun node hnode => ?_, h.secureNodes⟩
    obtain ⟨location, hlocation, hnode⟩ := List.mem_flatMap.1 hnode
    obtain ⟨path, -, hnode⟩ := Option.bind_eq_some_iff.1 (Option.mem_toList.1 hnode)
    obtain ⟨config, hconfig, rfl⟩ := Option.map_eq_some_iff.1 hnode
    exact converted_locationNode path ((hitems location hlocation _).2 config hconfig)

theorem ConvertedSection.obtainErrorConfigs {host : HostSection} (h : ConvertedSection host)
    {items : List Yaml} (hitems : ∀ item ∈ items, ConvertedDocuments order modules item) :
    ConvertedSection (obtainErrorConfigs order modules items host) := by
  rw [obtainErrorConfigs_eq]
  refine ⟨allConverted_append.2 ⟨fun node hnode => ?_, h.nodes⟩, h.secureNodes⟩
  obtain ⟨errorConfig, herror, hnode⟩ := List.mem_flatMap.1 hnode
  rcases List.mem_append.1 hnode with hnode | hnode
  · obtain ⟨config, hconfig, rfl⟩ := Option.map_eq_some_iff.1 (Option.mem_toList.1 hnode)
    exact converted_errorConfigNode _ ((hitems errorConfig herror _).2 config hconfig)
  · rw [List.mem_singleton.1 hnode]
    exact converted_errorConfigNode _ (hitems errorConfig herror _).1

theorem ConvertedSection.apply {host : HostSection} (h : ConvertedSection host) (property : Str)
    (value : Yaml) : ConvertedSection (host.apply modules property value) := by
  constructor
  · rw [HostSection.apply_nodes]
    refine allConverted_append.2 ⟨h.nodes, fun node hnode => ?_⟩
    obtain ⟨translation, htranslation, -, hname⟩ := exists_of_mem_translate hnode
    exact converted_of_sectionName (mem_sectionNames_of_translation htranslation) hname
  · rw [HostSection.apply_secureNodes]
    refine allConverted_append.2 ⟨h.secureNodes, fun node hnode => ?_⟩
    split at hnode
    · exact converted_of_sectionName (by decide) (secureProxyTo.name_of_mem hnode)
    · exact absurd hnode List.not_mem_nil

theorem ConvertedSection.obtainProperty {host : HostSection} (h : ConvertedSection host)
    (entry : Yaml × Yaml)
    (hitems : ∀ items, entry.2 = .array items → ∀ item ∈ items, ConvertedDocuments order modules item) :
    ConvertedSection (obtainProperty order modules entry host) := by
  rcases obtainProperty_cases order modules entry host with ⟨items, rfl, hprop⟩ | ⟨items, rfl, hprop⟩ |
      ⟨property, value, -, hprop⟩ | ⟨-, hprop⟩
  · rw [hprop]
    exact h.obtainLocations (hitems items rfl)
  · rw [hprop]
    exact h.obtainErrorConfigs (hitems items rfl)
  · rw [hprop]
    exact h.apply property value
  · rw [hprop]
    exact h

theorem ConvertedSection.finish {host : HostSection} (h : ConvertedSection host) :
    AllConverted (host.finish order modules).1.1 := by
  have hhandler : ∀ handler ∈ allHandlers modules host.settings, Converted handler.2 := by
    intro handler hhandler
    obtain ⟨name, hname, hnode⟩ := name_of_mem_allHandlers hhandler
    exact converted_of_sectionName (mem_sectionNames_of_handler hname) hnode
  rw [finish_nodes]
  refine allConverted_append.2 ⟨allConverted_append.2 ⟨fun node hnode => ?locations,
    allConverted_append.2 ⟨allConverted_append.2 ⟨h.nodes, fun node hnode => ?scgi⟩,
      fun node hnode => ?headers⟩⟩, fun node hnode => ?behind⟩
  case locations =>
    obtain ⟨handler, hmem, hnode⟩ := List.mem_flatMap.1 hnode
    obtain ⟨path, -, rfl⟩ := Option.map_eq_some_iff.1 (Option.mem_toList.1 hnode)
    exact converted_handlerLocation (hhandler handler hmem)
  case scgi =>
    exact hhandler _ (mem_allHandlers_of_scgi (Handlers.mem_of_mem_directives hnode))
  case headers =>
    obtain ⟨name, value, rfl⟩ := name_of_mem_headerNodes hnode
    exact @converted_of_sectionName _ "header" (by decide) rfl
  case behind =>
    rcases name_of_mem_handlersBehind hnode with hname | hmem
    · exact @converted_of_sectionName _ "fcgi_extension" (by decide) hname
    · exact hhandler _ hmem

/-- The documents of a section are like those of the converter, by induction on the sections in it. -/
theorem convertedDocuments (order : HeaderOrder) (modules : List Str) (value : Yaml) :
    ConvertedDocuments order modules value := by
  induction value using Yaml.sectionRec with
  | step value ih =>
      intro customHeaders
      have hread : ConvertedSection (readSection order modules value customHeaders) := by
        have hfold : ∀ entries : List (Yaml × Yaml), (∀ entry ∈ entries, entry ∈ value.properties) →
            ∀ host, ConvertedSection host →
              ConvertedSection (obtainProperties order modules entries host) := by
          intro entries
          induction entries with
          | nil => exact fun _ host h => h
          | cons entry entries ihentries =>
              intro hentries host h
              refine ihentries (fun other hother => hentries other (List.mem_cons_of_mem _ hother)) _
                (h.obtainProperty entry ?_)
              rintro items hvalue
              refine ih entry.1 items ?_
              rw [← hvalue]
              exact hentries entry List.mem_cons_self
        exact hfold value.properties (fun _ h => h) _
          ⟨fun _ h => absurd h List.not_mem_nil, fun _ h => absurd h List.not_mem_nil⟩
      rw [sectionDocuments, obtainHostConfiguration_eq]
      refine ⟨hread.finish, fun config hconfig => ?_⟩
      have hsecure : (if (readSection order modules value customHeaders).secureNodes.isEmpty then none
          else some (readSection order modules value customHeaders).secureNodes) = some config := hconfig
      split at hsecure
      · cases hsecure
      · rw [← Option.some.inj hsecure]
        exact hread.secureNodes

end Sections

/-! ## The global block -/

/-- The names that the global directives have. -/
def globalNames : List String :=
  ["default_http_port", "default_https_port", "auto_tls", "protocols", "tls"] ++
    environmentModules.map (· ++ "_environment") ++ moduleDirectives.map Prod.snd ++
    http2Translations.map Translation.name ++ globalTranslations.map Translation.name

theorem not_blockName_of_globalName : ∀ name ∈ globalNames, name.toList ∉ blockNames := by
  have hnot : ∀ name ∈ globalNames,
      name ∉ ["use", "location", "condition", "if", "if_not", "error_config"] := by decide +kernel
  rw [blockNames_eq]
  exact fun name hname => toList_notMem (hnot name hname)

/-- The nodes have names of global directives. -/
def GloballyNamed (document : KdlDocument) : Prop :=
  ∀ node ∈ document, ∃ name ∈ globalNames, node.name = name.toList

theorem globallyNamed_append {front back : KdlDocument} :
    GloballyNamed (front ++ back) ↔ GloballyNamed front ∧ GloballyNamed back :=
  List.forall_mem_append

theorem globallyNamed_translate {translations : List Translation}
    (h : ∀ translation ∈ translations, translation.name ∈ globalNames) (modules : List Str) (property : Str)
    (value : Yaml) : GloballyNamed (translate translations modules property value) := by
  intro node hnode
  obtain ⟨translation, hmem, -, hname⟩ := exists_of_mem_translate hnode
  exact ⟨translation.name, h translation hmem, hname⟩

theorem globallyNamed_globalNodes (modules : List Str) (property : Str) (value : Yaml) :
    GloballyNamed (globalNodes modules property value) := by
  rw [globalNodes]
  split
  · intro node hnode
    obtain ⟨entry, -, hnode⟩ := List.mem_flatMap.1 hnode
    cases hsetting : entry.1.asStr with
    | none =>
        simp only [hsetting, Option.map_none, Option.getD_none] at hnode
        exact absurd hnode List.not_mem_nil
    | some setting =>
        simp only [hsetting, Option.map_some, Option.getD_some] at hnode
        exact globallyNamed_translate (by decide) modules setting _ node hnode
  · exact globallyNamed_translate (by decide) modules property value

/-- What each property keeps holds behind all of them. -/
theorem readGlobal_induction {modules : List Str} {motive : GlobalConfiguration → Prop}
    (hstart : motive { nodes := moduleNodes modules })
    (hstep : ∀ config property value, motive config →
      motive (config.apply modules (.string property, value))) (value : Yaml) :
    motive (readGlobal modules value) := by
  have hfold : ∀ (entries : List (Yaml × Yaml)) (config : GlobalConfiguration), motive config →
      motive (entries.foldl (GlobalConfiguration.apply modules) config) := by
    intro entries
    induction entries with
    | nil => exact fun _ h => h
    | cons entry entries ih =>
        intro config h
        refine ih _ ?_
        obtain ⟨key, value⟩ := entry
        cases hkey : key.asStr with
        | none =>
            have hsame : config.apply modules (key, value) = config := by
              rw [GlobalConfiguration.apply, hkey]
            rw [hsame]
            exact h
        | some property =>
            rw [Yaml.asStr_eq_some.1 hkey]
            exact hstep config property value h
  exact hfold value.properties _ hstart

theorem globallyNamed_readGlobal (modules : List Str) (value : Yaml) :
    GloballyNamed (readGlobal modules value).nodes := by
  refine @readGlobal_induction modules (fun config => GloballyNamed config.nodes) ?_ ?_ value
  · intro node hnode
    obtain ⟨module, -, hnode⟩ := List.mem_filterMap.1 hnode
    obtain ⟨entry, hentry, rfl⟩ := Option.map_eq_some_iff.1 hnode
    refine ⟨entry.2, ?_, rfl⟩
    have hmem := List.mem_map_of_mem (f := Prod.snd) (List.mem_of_find?_eq_some hentry)
    simp only [globalNames, List.mem_append]
    exact .inl (.inl (.inr hmem))
  · intro config property value h
    rw [GlobalConfiguration.apply_nodes]
    exact globallyNamed_append.2 ⟨h, globallyNamed_globalNodes modules property value⟩

/-- The blocks of SNI hostnames have their TLS directives. -/
theorem exists_of_mem_sniConfiguration {modules : List Str} {value : Yaml} :
    ∀ node ∈ (readGlobal modules value).sniConfiguration, ∃ entry, sniBlock entry = some node := by
  refine @readGlobal_induction modules
    (fun config => ∀ node ∈ config.sniConfiguration, ∃ entry, sniBlock entry = some node) ?_ ?_ value
  · exact fun node h => absurd h List.not_mem_nil
  · intro config property value h node hnode
    rw [GlobalConfiguration.apply_sniConfiguration] at hnode
    split at hnode
    · rcases List.mem_append.1 hnode with hnode | hnode
      · exact h node hnode
      · obtain ⟨entry, -, hentry⟩ := List.mem_filterMap.1 hnode
        exact ⟨entry, hentry⟩
    · exact h node hnode

theorem eq_block_of_sniBlock {entry : Yaml × Yaml} {node : KdlNode} (h : sniBlock entry = some node) :
    ∃ name children, node = block name children ∧ GloballyNamed children := by
  obtain ⟨name, -, h⟩ := Option.bind_eq_some_iff.1 h
  obtain ⟨cert, -, h⟩ := Option.bind_eq_some_iff.1 h
  obtain ⟨key, -, rfl⟩ := Option.map_eq_some_iff.1 h
  refine ⟨name, _, rfl, fun node hnode => ?_⟩
  simp only [List.mem_cons, List.not_mem_nil, or_false] at hnode
  rcases hnode with rfl | rfl
  · exact ⟨"auto_tls", by decide, rfl⟩
  · exact ⟨"tls", by decide, rfl⟩

theorem globallyNamed_insertEnvironment {modules : List Str} {nodes : KdlDocument}
    (h : GloballyNamed nodes) (entry : Str × Str) :
    GloballyNamed (insertEnvironment modules nodes entry) := by
  have hfold : ∀ names : List String, (∀ name ∈ names, name ∈ environmentModules) →
      ∀ nodes, GloballyNamed nodes →
        GloballyNamed (names.foldl (fun nodes module =>
          if modules.contains module.toList then
            directive (module ++ "_environment") ⟨[.string entry.1, .string entry.2], []⟩ :: nodes
          else nodes) nodes) := by
    intro names
    induction names with
    | nil => exact fun _ _ h => h
    | cons module names ih =>
        intro hnames nodes h
        refine ih (fun name hname => hnames name (List.mem_cons_of_mem _ hname)) _ ?_
        dsimp only
        split
        · intro node hnode
          rcases List.mem_cons.1 hnode with rfl | hnode
          · refine ⟨module ++ "_environment", ?_, rfl⟩
            have hmem := List.mem_map_of_mem (f := (· ++ "_environment"))
              (hnames module List.mem_cons_self)
            simp only [globalNames, List.mem_append]
            exact .inl (.inl (.inl (.inr hmem)))
          · exact h node hnode
        · exact h
  exact hfold environmentModules (fun _ h => h) nodes h

/-- The global directives have their names. -/
theorem globallyNamed_directives (modules : List Str) (value : Yaml) :
    GloballyNamed ((readGlobal modules value).directives modules) := by
  have henvironment : ∀ (entries : List (Str × Str)) (nodes : KdlDocument), GloballyNamed nodes →
      GloballyNamed (entries.foldl (insertEnvironment modules) nodes) := by
    intro entries
    induction entries with
    | nil => exact fun _ h => h
    | cons entry entries ih => exact fun nodes h => ih _ (globallyNamed_insertEnvironment h entry)
  rw [GlobalConfiguration.directives]
  refine globallyNamed_append.2 ⟨globallyNamed_append.2 ⟨?_, ?_⟩,
    henvironment _ _ (globallyNamed_readGlobal modules value)⟩
  · intro node hnode
    simp only [List.mem_cons, List.not_mem_nil, or_false] at hnode
    rcases hnode with rfl | rfl | rfl | rfl
    · exact ⟨"default_http_port", by decide, rfl⟩
    · exact ⟨"default_https_port", by decide, rfl⟩
    · exact ⟨"auto_tls", by decide, rfl⟩
    · exact ⟨"protocols", by decide, rfl⟩
  · intro node hnode
    obtain ⟨cert, -, hnode⟩ := Option.bind_eq_some_iff.1 (Option.mem_toList.1 hnode)
    obtain ⟨key, -, rfl⟩ := Option.map_eq_some_iff.1 hnode
    exact ⟨"tls", by decide, rfl⟩

/-! ## The document -/

theorem GloballyNamed.allConverted {document : KdlDocument} (h : GloballyNamed document) :
    AllConverted document := by
  intro node hnode
  obtain ⟨name, hname, heq⟩ := h node hnode
  exact .directive (heq ▸ not_blockName_of_globalName name hname)

/-- There are neither locations nor error configurations. -/
def NoBlocks (nodes : KdlDocument) : Prop :=
  ∀ node ∈ nodes, isLocation node = false ∧ isErrorConfiguration node = false

theorem not_block_of_not_blockName {node : KdlNode} (h : node.name ∉ blockNames) :
    isLocation node = false ∧ isErrorConfiguration node = false :=
  ⟨decide_eq_false fun hlocation => h (by rw [hlocation]; decide),
    decide_eq_false fun herror => h (by rw [herror]; decide)⟩

theorem GloballyNamed.noBlocks {document : KdlDocument} (h : GloballyNamed document) : NoBlocks document := by
  intro node hnode
  obtain ⟨name, hname, heq⟩ := h node hnode
  exact not_block_of_not_blockName (heq ▸ not_blockName_of_globalName name hname)

theorem convertedDocument_block {name : Str} {children : KdlDocument} (h : AllConverted children) :
    ∃ nodes, ConvertedBlock (block name children) nodes :=
  ⟨children, rfl, rfl, h⟩

theorem convertedDocument_sectionBlocks (order : HeaderOrder) (modules : List Str) (name : Str)
    (port : UInt16) (value : Yaml) (customHeaders : HashMap Str Str) :
    ConvertedDocument (sectionBlocks name port (sectionDocuments order modules value customHeaders).1
      (sectionDocuments order modules value customHeaders).2) := by
  obtain ⟨hnodes, hsecure⟩ := convertedDocuments order modules value customHeaders
  intro node hnode
  rcases List.mem_append.1 hnode with hnode | hnode
  · split at hnode
    · exact absurd hnode List.not_mem_nil
    · rw [List.mem_singleton.1 hnode]
      exact convertedDocument_block hnodes
  · obtain ⟨config, hconfig, rfl⟩ := Option.map_eq_some_iff.1 (Option.mem_toList.1 hnode)
    exact convertedDocument_block (hsecure config hconfig)

/-- A converted document is like those of the converter. -/
theorem convertedDocument_convert (order : HeaderOrder) (yaml : Yaml) :
    ConvertedDocument (convertYamlToKdl order yaml) := by
  rw [convertYamlToKdl_eq, obtainGlobalConfiguration_eq]
  dsimp only
  intro node hnode
  rcases List.mem_append.1 hnode with hnode | hnode
  · rcases List.mem_cons.1 hnode with rfl | hnode
    · exact convertedDocument_block (globallyNamed_directives _ _).allConverted
    · obtain ⟨entry, hentry⟩ := exists_of_mem_sniConfiguration node hnode
      obtain ⟨name, children, rfl, hchildren⟩ := eq_block_of_sniBlock hentry
      exact convertedDocument_block hchildren.allConverted
  · rcases List.mem_append.1 hnode with hnode | hnode
    · exact convertedDocument_sectionBlocks order _ _ _ _ _ node hnode
    · obtain ⟨host, -, hnode⟩ := List.mem_flatMap.1 hnode
      rw [hostBlocks] at hnode
      split at hnode
      · exact absurd hnode List.not_mem_nil
      · exact convertedDocument_sectionBlocks order _ _ _ _ _ node hnode

/-- The legacy adapter loads the converted document when its names are host specifiers. -/
theorem loadLegacyConfiguration_convert {env : Environment} {order : HeaderOrder} {yaml : Yaml}
    {configurations : List ServerConfiguration} :
    loadLegacyConfiguration env (convertYamlToKdl order yaml) = .ok configurations ↔
      NamesHosts env (convertYamlToKdl order yaml) ∧
        configurations = flattenDocument some env (convertYamlToKdl order yaml) :=
  loadLegacyConfiguration_iff (convertedDocument_convert order yaml)

end Ferron.Yaml2Kdl
