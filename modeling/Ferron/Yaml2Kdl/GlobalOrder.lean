import Ferron.Yaml2Kdl.Convert
import Ferron.Yaml2Kdl.SectionOrder

/-!
# The global configuration with its keys in another order

What is kept of the global properties is set by one property each, and the global directives of a name are
made from one property, so neither depends on the order of the properties
(`obtainGlobalConfiguration_reordered`).
-/

set_option autoImplicit false

namespace Ferron.Yaml2Kdl

open Ferron.Config Ferron.Lib.KeyedList

/-! ## The global properties -/

/-- The properties that are kept, and `http2Settings`. -/
def otherGlobalProperties : List String :=
  ["port", "sport", "secure", "http2Settings", "enableHTTP2", "enableHTTP3", "cert", "key", "sni",
    "disableNonEncryptedServer", "environmentVariables", "enableAutomaticTLS", "locations", "errorConfig"]

theorem nodup_globalNames : (globalTranslations.map fun translation => translation.name.toList).Nodup :=
  nodup_map_toList (f := Translation.name) (by decide +kernel)

theorem disjoint_otherGlobalProperties : ∀ property ∈ otherGlobalProperties,
    ∀ translation ∈ globalTranslations, translation.property.toList ≠ property.toList := by
  have hne : ∀ property ∈ otherGlobalProperties, ∀ translation ∈ globalTranslations,
      translation.property ≠ property := by decide +kernel
  exact fun property hproperty translation htranslation =>
    mt String.toList_inj.1 (hne property hproperty translation htranslation)

theorem translate_of_otherGlobal {property : String} (h : property ∈ otherGlobalProperties)
    (modules : List Str) (value : Yaml) :
    translate globalTranslations modules property.toList value = [] := by
  have hnone : (globalTranslations.find? fun translation => translation.property.toList = property.toList) =
      none := by
    refine List.find?_eq_none.2 fun translation hmem heq => ?_
    exact disjoint_otherGlobalProperties property h translation hmem (of_decide_eq_true heq)
  rw [translate, hnone]

/-- The directives for HTTP/2. -/
def http2Nodes (modules : List Str) (value : Yaml) : KdlDocument :=
  value.properties.flatMap fun (setting, value) =>
    (setting.asStr.map fun setting => translate http2Translations modules setting value).getD []

/-- The directives that a global property puts behind the others. -/
def globalNodes (modules : List Str) (property : Str) (value : Yaml) : KdlDocument :=
  if property = "http2Settings".toList then http2Nodes modules value
  else translate globalTranslations modules property value

namespace GlobalConfiguration

section Apply

variable (modules : List Str) (config : GlobalConfiguration) (property : Str) (value : Yaml)

theorem apply_port : (config.apply modules (.string property, value)).port =
    if property = "port".toList then value.asI64.getD config.port
    else config.port := by
  by_cases h : property = "port".toList
  · subst h
    rfl
  · simp only [GlobalConfiguration.apply, Yaml.asStr, apply_ite GlobalConfiguration.port, if_neg h,
      ite_self]

theorem apply_securePort : (config.apply modules (.string property, value)).securePort =
    if property = "sport".toList then value.asI64.getD config.securePort
    else config.securePort := by
  by_cases h : property = "sport".toList
  · subst h
    rfl
  · simp only [GlobalConfiguration.apply, Yaml.asStr, apply_ite GlobalConfiguration.securePort, if_neg h,
      ite_self]

theorem apply_secure : (config.apply modules (.string property, value)).secure =
    if property = "secure".toList then value.asBool.getD config.secure
    else config.secure := by
  by_cases h : property = "secure".toList
  · subst h
    rfl
  · simp only [GlobalConfiguration.apply, Yaml.asStr, apply_ite GlobalConfiguration.secure, if_neg h,
      ite_self]

theorem apply_enableHttp2 : (config.apply modules (.string property, value)).enableHttp2 =
    if property = "enableHTTP2".toList then value.asBool.getD config.enableHttp2
    else config.enableHttp2 := by
  by_cases h : property = "enableHTTP2".toList
  · subst h
    rfl
  · simp only [GlobalConfiguration.apply, Yaml.asStr, apply_ite GlobalConfiguration.enableHttp2, if_neg h,
      ite_self]

theorem apply_enableHttp3 : (config.apply modules (.string property, value)).enableHttp3 =
    if property = "enableHTTP3".toList then value.asBool.getD config.enableHttp3
    else config.enableHttp3 := by
  by_cases h : property = "enableHTTP3".toList
  · subst h
    rfl
  · simp only [GlobalConfiguration.apply, Yaml.asStr, apply_ite GlobalConfiguration.enableHttp3, if_neg h,
      ite_self]

theorem apply_cert : (config.apply modules (.string property, value)).cert =
    if property = "cert".toList then value.asStr.or config.cert
    else config.cert := by
  by_cases h : property = "cert".toList
  · subst h
    rfl
  · simp only [GlobalConfiguration.apply, Yaml.asStr, apply_ite GlobalConfiguration.cert, if_neg h,
      ite_self]

theorem apply_key : (config.apply modules (.string property, value)).key =
    if property = "key".toList then value.asStr.or config.key
    else config.key := by
  by_cases h : property = "key".toList
  · subst h
    rfl
  · simp only [GlobalConfiguration.apply, Yaml.asStr, apply_ite GlobalConfiguration.key, if_neg h,
      ite_self]

theorem apply_sniConfiguration : (config.apply modules (.string property, value)).sniConfiguration =
    if property = "sni".toList then config.sniConfiguration ++ value.properties.filterMap sniBlock
    else config.sniConfiguration := by
  by_cases h : property = "sni".toList
  · subst h
    rfl
  · simp only [GlobalConfiguration.apply, Yaml.asStr, apply_ite GlobalConfiguration.sniConfiguration,
      if_neg h, ite_self]

theorem apply_disableNonEncryptedServer :
    (config.apply modules (.string property, value)).disableNonEncryptedServer =
    if property = "disableNonEncryptedServer".toList then value.asBool.getD config.disableNonEncryptedServer
    else config.disableNonEncryptedServer := by
  by_cases h : property = "disableNonEncryptedServer".toList
  · subst h
    rfl
  · simp only [GlobalConfiguration.apply, Yaml.asStr,
      apply_ite GlobalConfiguration.disableNonEncryptedServer, if_neg h, ite_self]

theorem apply_environmentVariables : (config.apply modules (.string property, value)).environmentVariables =
    if property = "environmentVariables".toList then insertVariables value config.environmentVariables
    else config.environmentVariables := by
  by_cases h : property = "environmentVariables".toList
  · subst h
    rfl
  · simp only [GlobalConfiguration.apply, Yaml.asStr, apply_ite GlobalConfiguration.environmentVariables,
      if_neg h, ite_self]

theorem apply_automaticTls : (config.apply modules (.string property, value)).automaticTls =
    if property = "enableAutomaticTLS".toList then value.asBool.getD config.automaticTls
    else config.automaticTls := by
  by_cases h : property = "enableAutomaticTLS".toList
  · subst h
    rfl
  · simp only [GlobalConfiguration.apply, Yaml.asStr, apply_ite GlobalConfiguration.automaticTls, if_neg h,
      ite_self]

/-- A property that is kept makes no directive. -/
theorem globalNodes_of_other {other : String} (hmem : other ∈ otherGlobalProperties)
    (hne : other ≠ "http2Settings") : globalNodes modules other.toList value = [] := by
  rw [globalNodes, if_neg fun heq => hne (String.toList_inj.1 heq), translate_of_otherGlobal hmem]

theorem apply_nodes : (config.apply modules (.string property, value)).nodes =
    config.nodes ++ globalNodes modules property value := by
  by_cases hkept : ∃ other ∈ otherGlobalProperties, property = other.toList
  · obtain ⟨other, hmem, rfl⟩ := hkept
    by_cases hhttp2 : other = "http2Settings"
    · subst hhttp2
      rfl
    · rw [globalNodes_of_other modules value hmem hhttp2, List.append_nil]
      simp only [GlobalConfiguration.apply, Yaml.asStr, apply_ite GlobalConfiguration.nodes,
        if_neg (mt String.toList_inj.1 hhttp2), translate_of_otherGlobal hmem, List.append_nil, ite_self]
  · have hne : ∀ other ∈ otherGlobalProperties, ¬property = other.toList :=
      fun other hmem heq => hkept ⟨other, hmem, heq⟩
    rw [globalNodes, if_neg (hne "http2Settings" (by decide))]
    unfold GlobalConfiguration.apply Yaml.asStr
    dsimp only
    rw [if_neg (hne "port" (by decide)), if_neg (hne "sport" (by decide)), if_neg (hne "secure" (by
      decide)), if_neg (hne "http2Settings" (by decide)), if_neg (hne "enableHTTP2" (by decide)),
      if_neg (hne "enableHTTP3" (by decide)), if_neg (hne "cert" (by decide)), if_neg (hne "key" (by
      decide)), if_neg (hne "sni" (by decide)), if_neg (hne "disableNonEncryptedServer" (by decide)),
      if_neg (hne "environmentVariables" (by decide)), if_neg (hne "enableAutomaticTLS" (by decide))]

end Apply

end GlobalConfiguration

/-! ## The order of the global properties -/

/-- The global properties, one after the other. -/
def readGlobal (modules : List Str) (value : Yaml) : GlobalConfiguration :=
  value.properties.foldl (GlobalConfiguration.apply modules) { nodes := moduleNodes modules }

section Order

variable {modules : List Str}

/-- What one property sets is made of its value. -/
theorem readGlobal_own {ω : Type} (kept : GlobalConfiguration → ω) {key : String} (set : Yaml → ω → ω)
    (happly : ∀ config property value, kept (config.apply modules (.string property, value)) =
      if property = key.toList then set value (kept config) else kept config)
    {value : Yaml} (hunique : value.UniqueKeys) :
    kept (readGlobal modules value) =
      match Yaml.get value.properties key with
      | none => kept { nodes := moduleNodes modules }
      | some found => set found (kept { nodes := moduleNodes modules }) := by
  have hframe : ∀ entry : Yaml × Yaml, entry.1 ≠ .string key.toList → ∀ config : GlobalConfiguration,
      kept (config.apply modules entry) = kept config := by
    intro entry hentry config
    cases hproperty : entry.1.asStr with
    | none => rw [GlobalConfiguration.apply, hproperty]
    | some property =>
        obtain ⟨own, found⟩ := entry
        dsimp only at hentry hproperty
        rw [Yaml.asStr_eq_some] at hproperty
        rw [hproperty, happly, if_neg fun heq => hentry (by rw [hproperty, heq])]
  rw [readGlobal, Yaml.observe_entries kept hframe hunique]
  cases Yaml.get value.properties key with
  | none => rfl
  | some found =>
      dsimp only
      rw [happly, if_pos rfl, Yaml.observe_front kept hframe]

/-- What one property sets does not depend on the order. -/
theorem readGlobal_kept {value value' : Yaml} (h : Reordered value value') {ω : Type}
    (kept : GlobalConfiguration → ω) {key : String} (hkey : key ∉ sectionKeys) (set : Yaml → ω → ω)
    (happly : ∀ config property value, kept (config.apply modules (.string property, value)) =
      if property = key.toList then set value (kept config) else kept config) :
    kept (readGlobal modules value) = kept (readGlobal modules value') := by
  rw [readGlobal_own kept set happly h.uniqueKeys.1, readGlobal_own kept set happly h.uniqueKeys.2,
    h.get_eq hkey]

end Order

/-- The property that the global directives of a name are made from. -/
def globalMadeFrom (name : Str) : Option String :=
  if http2Translations.any fun translation => translation.name.toList = name then some "http2Settings"
  else
    (globalTranslations.find? fun translation => translation.name.toList = name).map Translation.property

theorem any_http2Translations : ∀ translation ∈ globalTranslations,
    (http2Translations.any fun other => other.name.toList = translation.name.toList) = false := by
  have hne : ∀ translation ∈ globalTranslations, ∀ other ∈ http2Translations,
      other.name ≠ translation.name := by decide +kernel
  intro translation htranslation
  rw [List.any_eq_false]
  exact fun other hother heq =>
    hne translation htranslation other hother (String.toList_inj.1 (of_decide_eq_true heq))

theorem globalMadeFrom_of_mem {modules : List Str} {property : Str} {value : Yaml} {node : KdlNode}
    (h : node ∈ globalNodes modules property value) :
    ∃ key ∉ sectionKeys, property = key.toList ∧ globalMadeFrom node.name = some key := by
  rw [globalNodes] at h
  split at h
  · rename_i hproperty
    obtain ⟨⟨setting, found⟩, -, hmem⟩ := List.mem_flatMap.1 h
    dsimp only at hmem
    cases hsetting : setting.asStr with
    | none =>
        rw [hsetting] at hmem
        exact absurd hmem List.not_mem_nil
    | some name =>
        rw [hsetting] at hmem
        obtain ⟨translation, htranslation, -, hname⟩ := exists_of_mem_translate hmem
        refine ⟨"http2Settings", by decide, hproperty, ?_⟩
        rw [globalMadeFrom, if_pos]
        exact List.any_eq_true.2 ⟨translation, htranslation, decide_eq_true hname.symm⟩
  · obtain ⟨translation, htranslation, hproperty, hname⟩ := exists_of_mem_translate h
    refine ⟨translation.property, ?_, hproperty, ?_⟩
    · intro hmem
      refine disjoint_otherGlobalProperties translation.property ?_ translation htranslation rfl
      exact List.mem_append_right (otherGlobalProperties.take 12) hmem
    · have hother := any_http2Translations translation htranslation
      rw [globalMadeFrom, hname, hother, if_neg Bool.false_ne_true,
        find?_of_nodup nodup_globalNames htranslation]
      rfl

/-- The global directives do not depend on the order. -/
theorem readGlobal_nodes {modules : List Str} {value value' : Yaml} (h : Reordered value value') :
    SameDocument (readGlobal modules value).nodes (readGlobal modules value').nodes := by
  refine sameDocument_iff_named.2 fun name => ?_
  have hequal : named name (readGlobal modules value).nodes =
      named name (readGlobal modules value').nodes := by
    by_cases hmade : ∃ key ∉ sectionKeys, globalMadeFrom name = some key
    · obtain ⟨key, hkey, hmade⟩ := hmade
      refine readGlobal_kept h (fun config => named name config.nodes) hkey
        (fun found nodes => nodes ++ named name (globalNodes modules key.toList found))
        fun config property found => ?_
      rw [GlobalConfiguration.apply_nodes]
      split
      · rename_i hproperty
        rw [hproperty, named_append]
      · rename_i hproperty
        refine named_append_of_back config.nodes fun node hnode hname => hproperty ?_
        obtain ⟨own, -, hown, hmadeOwn⟩ := globalMadeFrom_of_mem hnode
        rw [hname, hmade] at hmadeOwn
        rw [hown, Option.some.inj hmadeOwn]
    · -- no property makes nodes of this name
      have hport : "port" ∉ sectionKeys := by decide
      refine readGlobal_kept h (fun config => named name config.nodes) hport (fun _ nodes => nodes)
        fun config property found => ?_
      rw [GlobalConfiguration.apply_nodes, ite_self]
      refine named_append_of_back config.nodes fun node hnode hname => ?_
      obtain ⟨key, hkey, -, hmadeKey⟩ := globalMadeFrom_of_mem hnode
      exact hmade ⟨key, hkey, hname ▸ hmadeKey⟩
  rw [hequal]
  exact SameDocument.refl _

/-! ## The global block -/

/-- The environment variables are put in front, whatever is behind them. -/
theorem insertEnvironment_append (modules : List Str) (nodes : KdlDocument) (entry : Str × Str) :
    insertEnvironment modules nodes entry = insertEnvironment modules [] entry ++ nodes := by
  refine foldl_front (fun front module nodes => ?_) environmentModules nodes
  split <;> rfl

/-- What stands in front of the global directives that the properties make. -/
def globalFront (modules : List Str) (config : GlobalConfiguration) : KdlDocument :=
  GlobalConfiguration.directives modules { config with nodes := [] }

theorem directives_eq (modules : List Str) (config : GlobalConfiguration) :
    config.directives modules = globalFront modules config ++ config.nodes := by
  rw [globalFront, GlobalConfiguration.directives, GlobalConfiguration.directives]
  dsimp only
  have hput : ∀ front entry nodes, insertEnvironment modules (front ++ nodes) entry =
      insertEnvironment modules front entry ++ nodes := by
    intro front entry nodes
    rw [insertEnvironment_append, insertEnvironment_append modules front, List.append_assoc]
  rw [foldl_front hput config.environmentVariables.entries config.nodes]
  simp only [List.append_assoc]

theorem obtainGlobalConfiguration_eq (yaml : Yaml) : obtainGlobalConfiguration yaml =
    (block "*".toList
        ((readGlobal (loadServerModules (yaml.index "global").properties) (yaml.index "global")).directives
          (loadServerModules (yaml.index "global").properties)),
      (readGlobal (loadServerModules (yaml.index "global").properties)
        (yaml.index "global")).sniConfiguration,
      loadServerModules (yaml.index "global").properties,
      asU16 (readGlobal (loadServerModules (yaml.index "global").properties)
        (yaml.index "global")).securePort) := rfl

/-- The global block has the same directives, and the rest is as before. -/
theorem obtainGlobalConfiguration_reordered {yaml yaml' : Yaml}
    (h : Reordered (yaml.index "global") (yaml'.index "global")) :
    SameNode (obtainGlobalConfiguration yaml).1 (obtainGlobalConfiguration yaml').1 ∧
      (obtainGlobalConfiguration yaml).2 = (obtainGlobalConfiguration yaml').2 := by
  have hmodules : loadServerModules (yaml'.index "global").properties =
      loadServerModules (yaml.index "global").properties := by
    rw [loadServerModules, loadServerModules, h.get_eq (by decide)]
  rw [obtainGlobalConfiguration_eq, obtainGlobalConfiguration_eq, hmodules]
  generalize loadServerModules (yaml.index "global").properties = modules
  have hport := readGlobal_kept h GlobalConfiguration.port (by decide)
    (fun value port => value.asI64.getD port) (GlobalConfiguration.apply_port modules)
  have hsecurePort := readGlobal_kept h GlobalConfiguration.securePort (by decide)
    (fun value port => value.asI64.getD port) (GlobalConfiguration.apply_securePort modules)
  have hsecure := readGlobal_kept h GlobalConfiguration.secure (by decide)
    (fun value secure => value.asBool.getD secure) (GlobalConfiguration.apply_secure modules)
  have henableHttp2 := readGlobal_kept h GlobalConfiguration.enableHttp2 (by decide)
    (fun value enabled => value.asBool.getD enabled) (GlobalConfiguration.apply_enableHttp2 modules)
  have henableHttp3 := readGlobal_kept h GlobalConfiguration.enableHttp3 (by decide)
    (fun value enabled => value.asBool.getD enabled) (GlobalConfiguration.apply_enableHttp3 modules)
  have hcert := readGlobal_kept h GlobalConfiguration.cert (by decide)
    (fun value cert => value.asStr.or cert) (GlobalConfiguration.apply_cert modules)
  have hkey := readGlobal_kept h GlobalConfiguration.key (by decide)
    (fun value key => value.asStr.or key) (GlobalConfiguration.apply_key modules)
  have hsni := readGlobal_kept h GlobalConfiguration.sniConfiguration (by decide)
    (fun value blocks => blocks ++ value.properties.filterMap sniBlock)
    (GlobalConfiguration.apply_sniConfiguration modules)
  have hdisabled := readGlobal_kept h GlobalConfiguration.disableNonEncryptedServer (by decide)
    (fun value disabled => value.asBool.getD disabled)
    (GlobalConfiguration.apply_disableNonEncryptedServer modules)
  have hvariables := readGlobal_kept h GlobalConfiguration.environmentVariables (by decide)
    insertVariables (GlobalConfiguration.apply_environmentVariables modules)
  have hautomaticTls := readGlobal_kept h GlobalConfiguration.automaticTls (by decide)
    (fun value enabled => value.asBool.getD enabled) (GlobalConfiguration.apply_automaticTls modules)
  refine ⟨sameNode_block_iff.2 ?_, ?_⟩
  · rw [directives_eq, directives_eq]
    refine SameByKey.append ?_ (readGlobal_nodes h)
    rw [globalFront, globalFront, GlobalConfiguration.directives, GlobalConfiguration.directives]
    dsimp only
    rw [hport, hsecurePort, hsecure, henableHttp2, henableHttp3, hcert, hkey, hdisabled, hvariables,
      hautomaticTls]
    exact SameDocument.refl _
  · dsimp only
    rw [hsni, hsecurePort]

end Ferron.Yaml2Kdl
