import Ferron.Lib.KeyedList
import Ferron.Yaml2Kdl.HostConfiguration

/-!
# The nodes of a converted section

What the properties of a section make is known by its names: each name is made from one property
(`madeFrom`), whatever stands around it. So the nodes of a name are those of its property
(`named_translation`, `named_locations`, `named_errorConfigs`), and the settings and the custom headers are
the ones that stand in the section.

The custom headers are different in one respect: a location gets those of the section around it when they
stand in front of `locations`, and an error configuration when they stand in front of `errorConfig`
(`headersFor`).
-/

set_option autoImplicit false

namespace Ferron.Yaml2Kdl

open Ferron.Config Ferron.Lib.KeyedList

/-! ## The properties of a mapping -/

namespace Yaml

theorem asStr_eq_some {key : Yaml} {name : Str} : key.asStr = some name ↔ key = string name := by
  constructor
  · intro h
    cases key with
    | string value => exact congrArg string (Option.some.inj h)
    | _ => cases h
  · rintro rfl
    rfl

/-- The keys of a mapping are different. -/
def UniqueKeys (value : Yaml) : Prop := (value.properties.map Prod.fst).Nodup

/-- The entries in front of a key. -/
def before (value : Yaml) (key : String) : List (Yaml × Yaml) :=
  value.properties.takeWhile fun entry => entry.1.asStr != some key.toList

/-- One key stands in front of another. -/
def precedes (value : Yaml) (first second : String) : Bool := (get (value.before second) first).isSome

/-- The sections in a sequence. -/
def sections (value : Yaml) (key : String) : List Yaml := (value.index key).asVec.getD []

theorem index_eq (value : Yaml) (key : String) :
    value.index key = (get value.properties key).getD badValue := by
  cases value <;> rfl

theorem get_cons_of_eq {entry : Yaml × Yaml} {key : String} (h : entry.1.asStr = some key.toList)
    (entries : List (Yaml × Yaml)) : get (entry :: entries) key = some entry.2 := by
  have hkey : (entry.1.asStr == some key.toList) = true := beq_iff_eq.2 h
  simp only [get, List.find?_cons, hkey, Option.map_some]

theorem get_cons_of_ne {entry : Yaml × Yaml} {key : String} (h : entry.1.asStr ≠ some key.toList)
    (entries : List (Yaml × Yaml)) : get (entry :: entries) key = get entries key := by
  have hkey : (entry.1.asStr == some key.toList) = false := beq_eq_false_iff_ne.2 h
  simp only [get, List.find?_cons, hkey]

theorem get_eq_none {entries : List (Yaml × Yaml)} {key : String} :
    get entries key = none ↔ ∀ entry ∈ entries, entry.1 ≠ string key.toList := by
  rw [get, Option.map_eq_none_iff, List.find?_eq_none]
  refine forall₂_congr fun entry _ => ?_
  rw [beq_iff_eq, asStr_eq_some]

/-- A key that is there stands behind the entries in front of it. -/
theorem eq_append_of_get {entries : List (Yaml × Yaml)} {key : String} {found : Yaml}
    (h : get entries key = some found) :
    ∃ back, entries = (entries.takeWhile fun entry => entry.1.asStr != some key.toList) ++
      (string key.toList, found) :: back := by
  induction entries with
  | nil => cases h
  | cons entry entries ih =>
      obtain ⟨name, item⟩ := entry
      by_cases hkey : name.asStr = some key.toList
      · rw [get_cons_of_eq hkey] at h
        refine ⟨entries, ?_⟩
        rw [List.takeWhile_cons_of_neg (by simp [hkey]), ← asStr_eq_some.1 hkey, ← Option.some.inj h]
        rfl
      · rw [get_cons_of_ne hkey] at h
        obtain ⟨back, hback⟩ := ih h
        refine ⟨back, ?_⟩
        rw [List.takeWhile_cons_of_pos (by simpa using hkey), List.cons_append, ← hback]

theorem get_of_before {value found : Yaml} {key first : String}
    (h : get (value.before key) first = some found) : get value.properties first = some found := by
  obtain ⟨entry, hentry, rfl⟩ := Option.map_eq_some_iff.1 h
  have hwhole := List.takeWhile_append_dropWhile
    (p := fun entry : Yaml × Yaml => entry.1.asStr != some key.toList) (l := value.properties)
  rw [get, ← hwhole, List.find?_append]
  exact congrArg (fun front => (Option.or front _).map Prod.snd) hentry

/-- No other entry of the key stands behind it. -/
theorem ne_of_mem_back {value : Yaml} (hunique : value.UniqueKeys) {front back : List (Yaml × Yaml)}
    {key found : Yaml} (h : value.properties = front ++ (key, found) :: back) :
    ∀ entry ∈ back, entry.1 ≠ key := by
  intro entry hentry heq
  rw [UniqueKeys, h, List.map_append, List.map_cons, List.nodup_append] at hunique
  exact (List.nodup_cons.1 hunique.2.1).1 (List.mem_map.2 ⟨entry, hentry, heq⟩)

/-- What is observed of the entries with a key that only its entry touches. -/
theorem observe_entries {σ ω : Type} {step : σ → Yaml × Yaml → σ} (observe : σ → ω) {key : String}
    (hframe : ∀ entry : Yaml × Yaml, entry.1 ≠ string key.toList → ∀ state,
      observe (step state entry) = observe state)
    {value : Yaml} (hunique : value.UniqueKeys) (state : σ) :
    observe (value.properties.foldl step state) =
      match get value.properties key with
      | none => observe state
      | some found => observe (step ((value.before key).foldl step state) (string key.toList, found)) := by
  cases hget : get value.properties key with
  | none => exact foldl_frame (fun entry hentry => hframe entry (get_eq_none.1 hget entry hentry)) state
  | some found =>
      obtain ⟨back, hback⟩ := eq_append_of_get hget
      conv_lhs => rw [hback]
      exact foldl_at hframe _ _ (ne_of_mem_back hunique hback) state

/-- In front of a key nothing is observed that only its entry touches. -/
theorem observe_front {σ ω : Type} {step : σ → Yaml × Yaml → σ} (observe : σ → ω) {key : String}
    (hframe : ∀ entry : Yaml × Yaml, entry.1 ≠ string key.toList → ∀ state,
      observe (step state entry) = observe state)
    (value : Yaml) (state : σ) : observe ((value.before key).foldl step state) = observe state := by
  refine foldl_frame (fun entry hentry => hframe entry fun heq => ?_) state
  have hkey := List.mem_takeWhile_imp hentry
  rw [heq] at hkey
  exact absurd rfl (bne_iff_ne.1 hkey)

end Yaml

/-! ## The sections of a section -/

section

variable (order : HeaderOrder) (modules : List Str)

/-- The properties of a section, one after the other. -/
def readSection (value : Yaml) (customHeaders : HashMap Str Str) : HostSection :=
  obtainProperties order modules value.properties (.start customHeaders)

theorem obtainHostConfiguration_eq (value : Yaml) (customHeaders : HashMap Str Str) :
    obtainHostConfiguration order modules value customHeaders =
      (readSection order modules value customHeaders).finish order modules := by
  cases value <;> rfl

theorem obtainProperties_eq (entries : List (Yaml × Yaml)) (host : HostSection) :
    obtainProperties order modules entries host =
      entries.foldl (fun host entry => obtainProperty order modules entry host) host := by
  induction entries generalizing host with
  | nil => rfl
  | cons entry entries ih => exact ih _

/-- The document of a section, and the one for HTTPS. -/
def sectionDocuments (value : Yaml) (customHeaders : HashMap Str Str) : KdlDocument × Option KdlDocument :=
  (obtainHostConfiguration order modules value customHeaders).1

/-- The node of a location that has a path. -/
def locationNodes (customHeaders : HashMap Str Str) (location : Yaml) : KdlDocument :=
  ((location.index "path").asStr.map fun path =>
    locationNode path (sectionDocuments order modules location customHeaders).1).toList

/-- The node for HTTPS of a location that has a path. -/
def secureLocationNodes (customHeaders : HashMap Str Str) (location : Yaml) : KdlDocument :=
  ((location.index "path").asStr.bind fun path =>
    (sectionDocuments order modules location customHeaders).2.map (locationNode path)).toList

/-- The nodes of an error configuration. What is for HTTPS stands in front of the rest. -/
def errorConfigNodes (customHeaders : HashMap Str Str) (errorConfig : Yaml) : KdlDocument :=
  let documents := sectionDocuments order modules errorConfig customHeaders
  let scode := (errorConfig.index "scode").asI64
  (documents.2.map (errorConfigNode scode)).toList ++ [errorConfigNode scode documents.1]

/-- The locations are put in front, in their order. -/
theorem obtainLocations_eq (items : List Yaml) (host : HostSection) :
    obtainLocations order modules items host =
      { host with
        nodes := items.flatMap (locationNodes order modules host.customHeaders) ++ host.nodes
        secureNodes :=
          items.flatMap (secureLocationNodes order modules host.customHeaders) ++ host.secureNodes } := by
  induction items with
  | nil => rfl
  | cons location items ih =>
      rw [obtainLocations, ih, List.flatMap_cons, List.flatMap_cons]
      rw [locationNodes, secureLocationNodes, List.append_assoc, List.append_assoc]
      cases (location.index "path").asStr with
      | none => rfl
      | some path => rfl

theorem obtainErrorConfigs_eq (items : List Yaml) (host : HostSection) :
    obtainErrorConfigs order modules items host =
      { host with
        nodes := items.flatMap (errorConfigNodes order modules host.customHeaders) ++ host.nodes } := by
  induction items with
  | nil => rfl
  | cons errorConfig items ih =>
      rw [obtainErrorConfigs, ih, List.flatMap_cons, errorConfigNodes, List.append_assoc, List.append_assoc]
      rfl

/-- A property is one of those with sections in them, or it stands for itself. -/
theorem obtainProperty_cases (entry : Yaml × Yaml) (host : HostSection) :
    (∃ items, entry = (.string "locations".toList, .array items) ∧
        obtainProperty order modules entry host = obtainLocations order modules items host) ∨
      (∃ items, entry = (.string "errorConfig".toList, .array items) ∧
        obtainProperty order modules entry host = obtainErrorConfigs order modules items host) ∨
      (∃ property value, entry = (.string property, value) ∧
        obtainProperty order modules entry host = host.apply modules property value) ∨
      ((∀ property, entry.1 ≠ .string property) ∧ obtainProperty order modules entry host = host) := by
  obtain ⟨key, value⟩ := entry
  cases key with
  | string property =>
      cases value with
      | array items =>
          rw [obtainProperty]
          by_cases hlocations : property = "locations".toList
          · exact .inl ⟨items, by rw [hlocations], if_pos hlocations⟩
          · rw [if_neg hlocations]
            by_cases herror : property = "errorConfig".toList
            · exact .inr (.inl ⟨items, by rw [herror], if_pos herror⟩)
            · exact .inr (.inr (.inl ⟨property, _, rfl, if_neg herror⟩))
      | _ => exact .inr (.inr (.inl ⟨property, _, rfl, rfl⟩))
  | _ =>
      refine .inr (.inr (.inr ⟨fun property h => ?_, rfl⟩))
      cases h

end

/-! ## What a property changes -/

/-- The nodes of a name. -/
abbrev named (name : Str) (document : KdlDocument) : KdlDocument := ofKey KdlNode.name name document

theorem named_append (name : Str) (first second : KdlDocument) :
    named name (first ++ second) = named name first ++ named name second :=
  ofKey_append name first second

/-- Nodes of other names in front. -/
theorem named_append_of_front {name : Str} {front : KdlDocument} (h : ∀ node ∈ front, node.name ≠ name)
    (nodes : KdlDocument) : named name (front ++ nodes) = named name nodes := by
  rw [named_append, named, ofKey_eq_nil h, List.nil_append]

/-- Nodes of other names behind. -/
theorem named_append_of_back {name : Str} (nodes : KdlDocument) {back : KdlDocument}
    (h : ∀ node ∈ back, node.name ≠ name) : named name (nodes ++ back) = named name nodes := by
  rw [named_append, named, named, ofKey_eq_nil h, List.append_nil]

theorem Setting.mem_all (setting : Setting) : setting ∈ all := by
  cases setting <;> decide

theorem Setting.ofProperty_eq_some {property : Str} {setting : Setting} :
    Setting.ofProperty property = some setting ↔ property = setting.property.toList := by
  constructor
  · intro h
    have hfound := List.find?_some h
    exact (of_decide_eq_true hfound).symm
  · rintro rfl
    cases setting <;> rfl

namespace Translation

variable {modules : List Str} {value : Yaml} {node : KdlNode}

theorem name_of_mem (translation : Translation) (h : node ∈ translation.nodes modules value) :
    node.name = translation.name.toList := by
  rw [Translation.nodes] at h
  split at h
  · obtain ⟨arguments, -, rfl⟩ := List.mem_map.1 h
    rfl
  · exact absurd h List.not_mem_nil

end Translation

theorem exists_of_mem_translate {translations : List Translation} {modules : List Str} {property : Str}
    {value : Yaml} {node : KdlNode} (h : node ∈ translate translations modules property value) :
    ∃ translation ∈ translations,
      property = translation.property.toList ∧ node.name = translation.name.toList := by
  rw [translate] at h
  split at h
  · rename_i translation hfind
    have hproperty := List.find?_some hfind
    exact ⟨translation, List.mem_of_find?_eq_some hfind, (of_decide_eq_true hproperty).symm,
      translation.name_of_mem h⟩
  · exact absurd h List.not_mem_nil

/-- Different names have different texts. -/
theorem nodup_map_toList {translations : List Translation} {f : Translation → String}
    (h : (translations.map f).Nodup) : (translations.map fun translation => (f translation).toList).Nodup := by
  have htexts := h.map (f := String.toList) fun _ _ => String.toList_inj.1
  rwa [List.map_map] at htexts

theorem nodup_properties : (hostTranslations.map fun translation => translation.property.toList).Nodup :=
  nodup_map_toList (f := Translation.property) (by decide +kernel)

theorem nodup_names : (hostTranslations.map fun translation => translation.name.toList).Nodup :=
  nodup_map_toList (f := Translation.name) (by decide +kernel)

/-- The properties that are kept, and the sections. -/
def otherProperties : List String :=
  ["locations", "errorConfig", "customHeaders", "secureProxyTo", "fcgiScriptExtensions"] ++
    Setting.all.map Setting.property

theorem disjoint_otherProperties : ∀ property ∈ otherProperties, ∀ translation ∈ hostTranslations,
    property.toList ≠ translation.property.toList := by
  have hne : ∀ property ∈ otherProperties, ∀ translation ∈ hostTranslations,
      property ≠ translation.property := by decide +kernel
  exact fun property hproperty translation htranslation =>
    mt String.toList_inj.1 (hne property hproperty translation htranslation)

theorem translate_of_other {property : String} (h : property ∈ otherProperties) (modules : List Str)
    (value : Yaml) : translate hostTranslations modules property.toList value = [] := by
  rw [List.eq_nil_iff_forall_not_mem]
  intro node hnode
  obtain ⟨translation, hmem, hproperty, -⟩ := exists_of_mem_translate hnode
  exact disjoint_otherProperties property h translation hmem hproperty

theorem translate_of_mem {translation : Translation} (h : translation ∈ hostTranslations)
    (modules : List Str) (value : Yaml) :
    translate hostTranslations modules translation.property.toList value =
      translation.nodes modules value := by
  rw [translate, find?_of_nodup nodup_properties h]

namespace HostSection

variable (modules : List Str) (property : Str) (value : Yaml) (host : HostSection)

theorem apply_nodes : (host.apply modules property value).nodes =
    host.nodes ++ translate hostTranslations modules property value := by
  have hother : ∀ {other : String}, property = other.toList → other ∈ otherProperties →
      host.nodes = host.nodes ++ translate hostTranslations modules property value := by
    rintro other rfl hmem
    rw [translate_of_other hmem, List.append_nil]
  rw [HostSection.apply]
  split
  · rename_i h
    exact hother h (by decide)
  · split
    · rename_i h
      exact hother h (by decide)
    · split
      · rename_i h
        exact hother h (by decide)
      · split
        · rename_i setting hsetting
          refine hother (Setting.ofProperty_eq_some.1 hsetting) (List.mem_append_right _ ?_)
          exact List.mem_map_of_mem setting.mem_all
        · rfl

theorem apply_customHeaders : (host.apply modules property value).customHeaders =
    if property = "customHeaders".toList then insertHeaders value host.customHeaders
    else host.customHeaders := by
  rw [HostSection.apply]
  split
  · rfl
  · split
    · rfl
    · split
      · rfl
      · split <;> rfl

theorem apply_secureNodes : (host.apply modules property value).secureNodes =
    host.secureNodes ++
      if property = "secureProxyTo".toList then secureProxyTo.nodes modules value else [] := by
  rw [HostSection.apply]
  split
  · rename_i h
    rw [if_neg (by rw [h]; decide), List.append_nil]
  · split
    · rfl
    · split
      · exact (List.append_nil _).symm
      · split <;> exact (List.append_nil _).symm

theorem apply_fcgiScriptExtensions : (host.apply modules property value).fcgiScriptExtensions =
    if property = "fcgiScriptExtensions".toList then value.asVec.getD host.fcgiScriptExtensions
    else host.fcgiScriptExtensions := by
  rw [HostSection.apply]
  split
  · rename_i h
    rw [if_neg (by rw [h]; decide)]
  · split
    · rename_i h
      rw [if_neg (by rw [h]; decide)]
    · split
      · rfl
      · split <;> rfl

theorem apply_settings (setting : Setting) : (host.apply modules property value).settings setting =
    if property = setting.property.toList then value.asStr.or (host.settings setting)
    else host.settings setting := by
  rw [HostSection.apply]
  split
  · rename_i h
    rw [if_neg (by rw [h]; cases setting <;> decide)]
  · split
    · rename_i h
      rw [if_neg (by rw [h]; cases setting <;> decide)]
    · split
      · rename_i h
        rw [if_neg (by rw [h]; cases setting <;> decide)]
      · split
        · rename_i other hother
          dsimp only
          rw [Function.update_apply]
          by_cases hsame : setting = other
          · rw [if_pos hsame, hsame, if_pos (Setting.ofProperty_eq_some.1 hother)]
          · rw [if_neg hsame, if_neg]
            intro hproperty
            rw [Setting.ofProperty_eq_some.2 hproperty] at hother
            exact hsame (Option.some.inj hother)
        · rename_i hnone
          rw [if_neg]
          intro hproperty
          rw [Setting.ofProperty_eq_some.2 hproperty] at hnone
          cases hnone

end HostSection

/-- The property that the nodes of a name are made from. -/
def madeFrom (name : Str) : Option String :=
  if name = "location".toList then some "locations"
  else if name = "error_config".toList then some "errorConfig"
  else
    (hostTranslations.find? fun translation => translation.name.toList = name).map Translation.property

theorem name_ne_sections : ∀ translation ∈ hostTranslations,
    translation.name.toList ≠ "location".toList ∧ translation.name.toList ≠ "error_config".toList := by
  have hne : ∀ translation ∈ hostTranslations,
      translation.name ≠ "location" ∧ translation.name ≠ "error_config" := by decide +kernel
  exact fun translation htranslation => ⟨mt String.toList_inj.1 (hne translation htranslation).1,
    mt String.toList_inj.1 (hne translation htranslation).2⟩

theorem madeFrom_translation {translation : Translation} (h : translation ∈ hostTranslations) :
    madeFrom translation.name.toList = some translation.property := by
  obtain ⟨hlocation, herror⟩ := name_ne_sections translation h
  rw [madeFrom, if_neg hlocation, if_neg herror, find?_of_nodup nodup_names h]
  rfl

section Observation

variable {order : HeaderOrder} {modules : List Str}

theorem name_of_mem_locationNodes {customHeaders : HashMap Str Str} {items : List Yaml} {node : KdlNode}
    (h : node ∈ items.flatMap (locationNodes order modules customHeaders)) :
    node.name = "location".toList := by
  obtain ⟨location, -, hmem⟩ := List.mem_flatMap.1 h
  obtain ⟨path, -, rfl⟩ := Option.map_eq_some_iff.1 (Option.mem_toList.1 hmem)
  rfl

theorem name_of_mem_secureLocationNodes {customHeaders : HashMap Str Str} {items : List Yaml}
    {node : KdlNode} (h : node ∈ items.flatMap (secureLocationNodes order modules customHeaders)) :
    node.name = "location".toList := by
  obtain ⟨location, -, hmem⟩ := List.mem_flatMap.1 h
  obtain ⟨path, -, hnode⟩ := Option.bind_eq_some_iff.1 (Option.mem_toList.1 hmem)
  obtain ⟨document, -, rfl⟩ := Option.map_eq_some_iff.1 hnode
  rfl

theorem name_of_mem_errorConfigNodes {customHeaders : HashMap Str Str} {items : List Yaml} {node : KdlNode}
    (h : node ∈ items.flatMap (errorConfigNodes order modules customHeaders)) :
    node.name = "error_config".toList := by
  obtain ⟨errorConfig, -, hmem⟩ := List.mem_flatMap.1 h
  rcases List.mem_append.1 hmem with hsecure | hown
  · obtain ⟨document, -, rfl⟩ := Option.map_eq_some_iff.1 (Option.mem_toList.1 hsecure)
    rfl
  · rw [List.mem_singleton.1 hown]
    rfl

theorem named_obtainProperty {name : Str} {entry : Yaml × Yaml}
    (h : ∀ property, madeFrom name = some property → entry.1 ≠ .string property.toList)
    (host : HostSection) :
    named name (obtainProperty order modules entry host).nodes = named name host.nodes := by
  rcases obtainProperty_cases order modules entry host with ⟨items, rfl, hprop⟩ | ⟨items, rfl, hprop⟩ |
      ⟨property, value, rfl, hprop⟩ | ⟨-, hprop⟩
  · rw [hprop, obtainLocations_eq]
    refine named_append_of_front (fun node hnode hname => ?_) host.nodes
    rw [name_of_mem_locationNodes hnode] at hname
    exact h "locations" (by rw [← hname]; rfl) rfl
  · rw [hprop, obtainErrorConfigs_eq]
    refine named_append_of_front (fun node hnode hname => ?_) host.nodes
    rw [name_of_mem_errorConfigNodes hnode] at hname
    exact h "errorConfig" (by rw [← hname]; rfl) rfl
  · rw [hprop, HostSection.apply_nodes]
    refine named_append_of_back host.nodes fun node hnode hname => ?_
    obtain ⟨translation, hmem, rfl, hnamed⟩ := exists_of_mem_translate hnode
    exact h _ (by rw [← hname, hnamed]; exact madeFrom_translation hmem) rfl
  · rw [hprop]

theorem named_secure_obtainProperty {name : Str} {entry : Yaml × Yaml}
    (hproxy : name = "proxy".toList → entry.1 ≠ .string "secureProxyTo".toList)
    (hlocations : entry.1 = .string "locations".toList → name ≠ "location".toList) (host : HostSection) :
    named name (obtainProperty order modules entry host).secureNodes = named name host.secureNodes := by
  rcases obtainProperty_cases order modules entry host with ⟨items, rfl, hprop⟩ | ⟨items, rfl, hprop⟩ |
      ⟨property, value, rfl, hprop⟩ | ⟨-, hprop⟩
  · rw [hprop, obtainLocations_eq]
    refine named_append_of_front (fun node hnode hname => ?_) host.secureNodes
    rw [name_of_mem_secureLocationNodes hnode] at hname
    exact hlocations rfl hname.symm
  · rw [hprop, obtainErrorConfigs_eq]
  · rw [hprop, HostSection.apply_secureNodes]
    refine named_append_of_back host.secureNodes fun node hnode hname => ?_
    split at hnode
    · rename_i hproperty
      rw [secureProxyTo.name_of_mem hnode] at hname
      exact hproxy hname.symm (congrArg Yaml.string hproperty)
    · exact absurd hnode List.not_mem_nil
  · rw [hprop]

/-- What is neither of the nodes nor touched by another property is left alone by the others. -/
theorem observe_obtainProperty {ω : Type} (observe : HostSection → ω) {key : String}
    (hnodes : ∀ host nodes secureNodes,
      observe { host with nodes := nodes, secureNodes := secureNodes } = observe host)
    (happly : ∀ property value host, property ≠ key.toList →
      observe (HostSection.apply modules property value host) = observe host)
    {entry : Yaml × Yaml} (h : entry.1 ≠ .string key.toList) (host : HostSection) :
    observe (obtainProperty order modules entry host) = observe host := by
  rcases obtainProperty_cases order modules entry host with ⟨items, rfl, hprop⟩ | ⟨items, rfl, hprop⟩ |
      ⟨property, value, rfl, hprop⟩ | ⟨-, hprop⟩
  · rw [hprop, obtainLocations_eq, hnodes]
  · rw [hprop, obtainErrorConfigs_eq]
    exact hnodes host _ host.secureNodes
  · rw [hprop, happly property value host fun heq => h (by rw [heq])]
  · rw [hprop]

/-- The custom headers are those of `customHeaders`. -/
theorem customHeaders_obtainProperty {entry : Yaml × Yaml} (h : entry.1 ≠ .string "customHeaders".toList)
    (host : HostSection) :
    (obtainProperty order modules entry host).customHeaders = host.customHeaders :=
  observe_obtainProperty HostSection.customHeaders (fun _ _ _ => rfl)
    (fun _ _ _ hne => by rw [HostSection.apply_customHeaders, if_neg hne]) h host

theorem settings_obtainProperty {setting : Setting} {entry : Yaml × Yaml}
    (h : entry.1 ≠ .string setting.property.toList) (host : HostSection) :
    (obtainProperty order modules entry host).settings setting = host.settings setting :=
  observe_obtainProperty (fun host => host.settings setting) (fun _ _ _ => rfl)
    (fun _ _ _ hne => by rw [HostSection.apply_settings, if_neg hne]) h host

theorem fcgiScriptExtensions_obtainProperty {entry : Yaml × Yaml}
    (h : entry.1 ≠ .string "fcgiScriptExtensions".toList) (host : HostSection) :
    (obtainProperty order modules entry host).fcgiScriptExtensions = host.fcgiScriptExtensions :=
  observe_obtainProperty HostSection.fcgiScriptExtensions (fun _ _ _ => rfl)
    (fun _ _ _ hne => by rw [HostSection.apply_fcgiScriptExtensions, if_neg hne]) h host

/-- What is observed of a section with a property that only it touches. -/
theorem observe_readSection {ω : Type} (observe : HostSection → ω) {key : String}
    (hframe : ∀ entry : Yaml × Yaml, entry.1 ≠ .string key.toList → ∀ host,
      observe (obtainProperty order modules entry host) = observe host)
    {value : Yaml} (hunique : value.UniqueKeys) (customHeaders : HashMap Str Str) :
    observe (readSection order modules value customHeaders) =
      match Yaml.get value.properties key with
      | none => observe (.start customHeaders)
      | some found => observe (obtainProperty order modules (.string key.toList, found)
          (obtainProperties order modules (value.before key) (.start customHeaders))) := by
  rw [readSection, obtainProperties_eq, obtainProperties_eq]
  exact Yaml.observe_entries observe hframe hunique _

/-- In front of a property nothing is observed that only it touches. -/
theorem observe_before {ω : Type} (observe : HostSection → ω) {key : String}
    (hframe : ∀ entry : Yaml × Yaml, entry.1 ≠ .string key.toList → ∀ host,
      observe (obtainProperty order modules entry host) = observe host)
    (value : Yaml) (host : HostSection) :
    observe (obtainProperties order modules (value.before key) host) = observe host := by
  rw [obtainProperties_eq]
  exact Yaml.observe_front observe hframe value host

/-- A property with sections does nothing when it is no sequence. -/
theorem HostSection.apply_of_section {property : String} (h : property = "locations" ∨ property = "errorConfig")
    (modules : List Str) (value : Yaml) (host : HostSection) :
    host.apply modules property.toList value = host := by
  have hother : property ∈ otherProperties := by rcases h with rfl | rfl <;> decide
  have hsetting : Setting.ofProperty property.toList = none := by rcases h with rfl | rfl <;> decide
  have hne : ∀ other ∈ ["customHeaders", "secureProxyTo", "fcgiScriptExtensions"], property ≠ other := by
    rcases h with rfl | rfl <;> decide
  rw [HostSection.apply, if_neg (mt String.toList_inj.1 (hne "customHeaders" (by decide))),
    if_neg (mt String.toList_inj.1 (hne "secureProxyTo" (by decide))),
    if_neg (mt String.toList_inj.1 (hne "fcgiScriptExtensions" (by decide))), hsetting]
  dsimp only
  rw [translate_of_other hother, List.append_nil]

theorem obtainProperty_of_asVec_eq_none {property : String}
    (h : property = "locations" ∨ property = "errorConfig") {value : Yaml} (hvalue : value.asVec = none)
    (host : HostSection) : obtainProperty order modules (.string property.toList, value) host = host := by
  rcases h with rfl | rfl
  · cases value with
    | array items => cases hvalue
    | _ => exact HostSection.apply_of_section (.inl rfl) modules _ host
  · cases value with
    | array items => cases hvalue
    | _ => exact HostSection.apply_of_section (.inr rfl) modules _ host

theorem nodes_badValue {translation : Translation} (h : translation ∈ hostTranslations)
    (modules : List Str) : translation.nodes modules .badValue = [] := by
  have hnone : ∀ translation ∈ hostTranslations, (translation.arguments .badValue).isEmpty = true := by
    decide
  rw [Translation.nodes, List.isEmpty_iff.1 (hnone translation h), List.map_nil, ite_self]

theorem property_ne_sections : ∀ translation ∈ hostTranslations,
    translation.property ≠ "locations" ∧ translation.property ≠ "errorConfig" := by
  decide +kernel

theorem obtainProperty_of_apply {property : String} (hlocations : property ≠ "locations")
    (herror : property ≠ "errorConfig") (value : Yaml) (host : HostSection) :
    obtainProperty order modules (.string property.toList, value) host =
      host.apply modules property.toList value := by
  rcases obtainProperty_cases order modules (.string property.toList, value) host with ⟨items, heq, -⟩ |
      ⟨items, heq, -⟩ | ⟨other, value', heq, hprop⟩ | ⟨hkey, -⟩
  · exact absurd (String.toList_inj.1 (Yaml.string.inj (Prod.ext_iff.1 heq).1)) hlocations
  · exact absurd (String.toList_inj.1 (Yaml.string.inj (Prod.ext_iff.1 heq).1)) herror
  · cases heq
    exact hprop
  · exact absurd rfl (hkey _)

/-- No other nodes are made than those of the properties. -/
theorem named_readSection_eq_nil {name : Str} (h : madeFrom name = none) (value : Yaml)
    (customHeaders : HashMap Str Str) :
    named name (readSection order modules value customHeaders).nodes = [] := by
  rw [readSection, obtainProperties_eq]
  refine @foldl_frame HostSection _ _ _ (fun host => named name host.nodes) _ (fun entry _ host => ?_) _
  exact named_obtainProperty (fun property hproperty => by rw [h] at hproperty; cases hproperty) host

theorem named_secure_readSection_eq_nil {name : Str} (hproxy : name ≠ "proxy".toList)
    (hlocation : name ≠ "location".toList) (value : Yaml) (customHeaders : HashMap Str Str) :
    named name (readSection order modules value customHeaders).secureNodes = [] := by
  rw [readSection, obtainProperties_eq]
  refine @foldl_frame HostSection _ _ _ (fun host => named name host.secureNodes) _ (fun entry _ host => ?_) _
  exact named_secure_obtainProperty (fun h => absurd h hproxy) (fun _ => hlocation) host

end Observation

/-! ## What a section is made of -/

/-- The custom headers that the sections of a property get. -/
def headersFor (value : Yaml) (key : String) (customHeaders : HashMap Str Str) : HashMap Str Str :=
  if value.precedes "customHeaders" key then insertHeaders (value.index "customHeaders") customHeaders
  else customHeaders

section Contents

variable {order : HeaderOrder} {modules : List Str} {value : Yaml} (hunique : value.UniqueKeys)
  (customHeaders : HashMap Str Str)

include hunique

theorem customHeaders_readSection : (readSection order modules value customHeaders).customHeaders =
    insertHeaders (value.index "customHeaders") customHeaders := by
  rw [observe_readSection HostSection.customHeaders (fun _ => customHeaders_obtainProperty) hunique,
    Yaml.index_eq]
  cases hget : Yaml.get value.properties "customHeaders" with
  | none => rfl
  | some found =>
      dsimp only
      rw [obtainProperty_of_apply (by decide) (by decide), HostSection.apply_customHeaders, if_pos rfl,
        observe_before HostSection.customHeaders (fun _ => customHeaders_obtainProperty)]
      rfl

theorem settings_readSection (setting : Setting) :
    (readSection order modules value customHeaders).settings setting =
      (value.index setting.property).asStr := by
  rw [observe_readSection (fun host => host.settings setting)
    (fun _ => settings_obtainProperty) hunique, Yaml.index_eq]
  cases hget : Yaml.get value.properties setting.property with
  | none => rfl
  | some found =>
      dsimp only
      rw [obtainProperty_of_apply (by cases setting <;> decide) (by cases setting <;> decide),
        HostSection.apply_settings, if_pos rfl,
        observe_before (fun host => host.settings setting) (fun _ => settings_obtainProperty)]
      exact Option.or_none

theorem fcgiScriptExtensions_readSection :
    (readSection order modules value customHeaders).fcgiScriptExtensions =
      value.sections "fcgiScriptExtensions" := by
  rw [observe_readSection HostSection.fcgiScriptExtensions (fun _ => fcgiScriptExtensions_obtainProperty)
    hunique, Yaml.sections, Yaml.index_eq]
  cases hget : Yaml.get value.properties "fcgiScriptExtensions" with
  | none => rfl
  | some found =>
      dsimp only
      rw [obtainProperty_of_apply (by decide) (by decide), HostSection.apply_fcgiScriptExtensions,
        if_pos rfl,
        observe_before HostSection.fcgiScriptExtensions (fun _ => fcgiScriptExtensions_obtainProperty)]
      rfl

theorem customHeaders_before (key : String) :
    (obtainProperties order modules (value.before key) (.start customHeaders)).customHeaders =
      headersFor value key customHeaders := by
  have hprefix : (Yaml.hash (value.before key)).UniqueKeys :=
    hunique.sublist ((List.takeWhile_sublist _).map _)
  refine (customHeaders_readSection hprefix customHeaders).trans ?_
  rw [headersFor, Yaml.precedes, Yaml.index_eq]
  change insertHeaders ((Yaml.get (value.before key) "customHeaders").getD .badValue) customHeaders = _
  cases hget : Yaml.get (value.before key) "customHeaders" with
  | none => rfl
  | some found =>
      have hwhole : Yaml.get value.properties "customHeaders" = some found := Yaml.get_of_before hget
      rw [Yaml.index_eq, hwhole]
      rfl

/-- The nodes of a name are those of the property that they are made from. -/
theorem named_translation {translation : Translation} (h : translation ∈ hostTranslations) :
    named translation.name.toList (readSection order modules value customHeaders).nodes =
      translation.nodes modules (value.index translation.property) := by
  have hframe : ∀ entry : Yaml × Yaml, entry.1 ≠ .string translation.property.toList → ∀ host,
      named translation.name.toList (obtainProperty order modules entry host).nodes =
        named translation.name.toList host.nodes := by
    intro entry hentry
    refine named_obtainProperty fun property hproperty => ?_
    rw [madeFrom_translation h, Option.some.injEq] at hproperty
    exact hproperty ▸ hentry
  rw [observe_readSection (fun host => named translation.name.toList host.nodes) hframe hunique,
    Yaml.index_eq]
  cases hget : Yaml.get value.properties translation.property with
  | none => exact (nodes_badValue h modules).symm
  | some found =>
      obtain ⟨hlocations, herror⟩ := property_ne_sections translation h
      dsimp only
      rw [obtainProperty_of_apply hlocations herror, HostSection.apply_nodes, translate_of_mem h,
        named_append, observe_before (fun host => named translation.name.toList host.nodes) hframe]
      exact ofKey_eq_self fun node hnode => translation.name_of_mem hnode

/-- What the sections of a property are made into, with the custom headers that are set before it. -/
theorem observe_sections {key : String} (hkey : key = "locations" ∨ key = "errorConfig")
    (observe : HostSection → KdlDocument) (make : HashMap Str Str → Yaml → KdlDocument)
    (hframe : ∀ entry : Yaml × Yaml, entry.1 ≠ .string key.toList → ∀ host,
      observe (obtainProperty order modules entry host) = observe host)
    (hstart : observe (.start customHeaders) = [])
    (hsections : ∀ items host,
      observe (obtainProperty order modules (.string key.toList, .array items) host) =
        items.flatMap (make host.customHeaders) ++ observe host) :
    observe (readSection order modules value customHeaders) =
      (value.sections key).flatMap (make (headersFor value key customHeaders)) := by
  rw [observe_readSection observe hframe hunique, Yaml.sections, Yaml.index_eq]
  cases hget : Yaml.get value.properties key with
  | none => exact hstart
  | some found =>
      have hbefore := (observe_before observe hframe value (.start customHeaders)).trans hstart
      dsimp only
      cases hfound : found.asVec with
      | none =>
          rw [obtainProperty_of_asVec_eq_none hkey hfound, hbefore, Option.getD_some, hfound]
          rfl
      | some items =>
          obtain rfl : found = .array items := by
            cases found with
            | array items' => rw [Option.some.inj hfound]
            | _ => cases hfound
          rw [hsections, hbefore, customHeaders_before hunique]
          exact List.append_nil _

theorem named_locations : named "location".toList (readSection order modules value customHeaders).nodes =
    (value.sections "locations").flatMap
      (locationNodes order modules (headersFor value "locations" customHeaders)) := by
  refine observe_sections hunique customHeaders (.inl rfl) (fun host => named "location".toList host.nodes)
    (locationNodes order modules) ?_ rfl ?_
  · intro entry hentry
    refine named_obtainProperty fun property hproperty => ?_
    cases hproperty
    exact hentry
  · intro items host
    change named _ (obtainLocations order modules items host).nodes = _
    rw [obtainLocations_eq, named_append]
    exact congrArg (· ++ _) (ofKey_eq_self fun node => name_of_mem_locationNodes)

theorem named_errorConfigs :
    named "error_config".toList (readSection order modules value customHeaders).nodes =
      (value.sections "errorConfig").flatMap
        (errorConfigNodes order modules (headersFor value "errorConfig" customHeaders)) := by
  refine observe_sections hunique customHeaders (.inr rfl)
    (fun host => named "error_config".toList host.nodes) (errorConfigNodes order modules) ?_ rfl ?_
  · intro entry hentry
    refine named_obtainProperty fun property hproperty => ?_
    cases hproperty
    exact hentry
  · intro items host
    change named _ (obtainErrorConfigs order modules items host).nodes = _
    rw [obtainErrorConfigs_eq, named_append]
    exact congrArg (· ++ _) (ofKey_eq_self fun node => name_of_mem_errorConfigNodes)

/-- The locations for HTTPS. -/
theorem named_secureLocations :
    named "location".toList (readSection order modules value customHeaders).secureNodes =
      (value.sections "locations").flatMap
        (secureLocationNodes order modules (headersFor value "locations" customHeaders)) := by
  refine observe_sections hunique customHeaders (.inl rfl)
    (fun host => named "location".toList host.secureNodes) (secureLocationNodes order modules) ?_ rfl ?_
  · intro entry hentry
    exact named_secure_obtainProperty (fun h => absurd h (by decide)) fun h => absurd h hentry
  · intro items host
    change named _ (obtainLocations order modules items host).secureNodes = _
    rw [obtainLocations_eq, named_append]
    exact congrArg (· ++ _) (ofKey_eq_self fun node => name_of_mem_secureLocationNodes)

/-- The proxies for HTTPS. -/
theorem named_secureProxies :
    named "proxy".toList (readSection order modules value customHeaders).secureNodes =
      secureProxyTo.nodes modules (value.index "secureProxyTo") := by
  have hframe : ∀ entry : Yaml × Yaml, entry.1 ≠ .string "secureProxyTo".toList → ∀ host,
      named "proxy".toList (obtainProperty order modules entry host).secureNodes =
        named "proxy".toList host.secureNodes := by
    intro entry hentry
    exact named_secure_obtainProperty (fun _ => hentry) fun _ => by decide
  rw [observe_readSection (fun host => named "proxy".toList host.secureNodes) hframe hunique,
    Yaml.index_eq]
  cases hget : Yaml.get value.properties "secureProxyTo" with
  | none =>
      have hnone : secureProxyTo.nodes modules .badValue = [] := ite_self []
      exact hnone.symm
  | some found =>
      dsimp only
      rw [obtainProperty_of_apply (by decide) (by decide), HostSection.apply_secureNodes, if_pos rfl,
        named_append, observe_before (fun host => named "proxy".toList host.secureNodes) hframe]
      exact ofKey_eq_self fun node hnode => secureProxyTo.name_of_mem hnode

end Contents

end Ferron.Yaml2Kdl
