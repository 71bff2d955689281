import Ferron.Lib.Layers
import Ferron.Yaml2Kdl.ConfigurationParts

/-!
# Properties of the global section

A property of the global section becomes directives in one block (`GlobalProperty.own`). The sections that do
not set it may give its directive all the same (`GlobalProperty.others`): the proxies of the other port, the
custom headers that they inherit, and the handlers for SCGI and FastCGI, which every section makes when the
module is loaded.

With some filters the converted document has these two, each in its order (`interleaved_blocks`).
-/

set_option autoImplicit false

namespace Ferron.Yaml2Kdl

open Ferron.Common Ferron.Config Ferron.Lib.KeyedList Ferron.Lib.Layers

/-! ## Properties of the global section -/

/-- `proxyTo`. -/
def proxyTo : Translation := ⟨"proxyTo", some "rproxy", "proxy", textOrTexts⟩

theorem proxyTo_mem : proxyTo ∈ hostTranslations := by
  simp [hostTranslations, proxyTo]

/-- A handler without a target, as a section makes it all the same. -/
def Handler.byDefault (modules : List Str) (value : Yaml) (handler : Handler) : Handlers :=
  handler.made modules fun setting => if setting = handler.path then settingsOf value setting else none

theorem applicationHandler_congr {modules : List Str} {settings settings' : Setting → Option Str}
    {name : String} {applicationPath path : Setting}
    (happlication : settings applicationPath = settings' applicationPath)
    (hpath : settings path = settings' path) :
    applicationHandler modules settings name applicationPath path =
      applicationHandler modules settings' name applicationPath path := by
  rw [applicationHandler, applicationHandler, happlication, hpath]

theorem Handler.made_congr {modules : List Str} {settings settings' : Setting → Option Str}
    (handler : Handler)
    (htarget : settings handler.target = settings' handler.target)
    (hpath : settings handler.path = settings' handler.path) :
    handler.made modules settings = handler.made modules settings' := by
  cases handler with
  | scgi =>
      rw [target] at htarget
      rw [path] at hpath
      rw [made, made, scgiHandler, scgiHandler, htarget, hpath]
  | fcgi =>
      rw [target] at htarget
      rw [path] at hpath
      rw [made, made, fcgiHandler, fcgiHandler, htarget, hpath]
  | wsgi => exact applicationHandler_congr htarget hpath
  | wsgid => exact applicationHandler_congr htarget hpath
  | asgi => exact applicationHandler_congr htarget hpath

/-- A section without a target makes the handler by default. -/
theorem Handler.made_of_unset {modules : List Str} {value : Yaml} {handler : Handler}
    (h : Yaml.get value.properties handler.target.property = none) :
    handler.made modules (settingsOf value) = handler.byDefault modules value := by
  have htarget : settingsOf value handler.target = none := by
    rw [settingsOf, Yaml.index_eq, h]
    rfl
  refine handler.made_congr ?_ ?_
  · rw [htarget, if_neg (by cases handler <;> decide)]
  · rw [if_pos rfl]

/-- What the global section sets: a directive for the whole server, or what any section may set. -/
inductive GlobalProperty where
  | directive (name : String) (hname : name ∈ globalNames)
  | translated (translation : Translation) (htranslation : translation ∈ hostTranslations)
  | headers
  | extensions
  | handler (kind : Handler)
  | secureProxies

namespace GlobalProperty

/-- The name of its directive. -/
def name : GlobalProperty → Str
  | directive name _ => name.toList
  | translated translation _ => translation.name.toList
  | headers => "header".toList
  | extensions => "fcgi_extension".toList
  | handler kind => kind.name.toList
  | secureProxies => "proxy".toList

/-- The key that sets it in a section. -/
def key : GlobalProperty → Option String
  | directive _ _ => none
  | translated translation _ => some translation.property
  | headers => some "customHeaders"
  | extensions => some "fcgiScriptExtensions"
  | handler kind => some kind.target.property
  | secureProxies => some "secureProxyTo"

/-- It stands in the documents for HTTPS. -/
def isSecure : GlobalProperty → Bool
  | secureProxies => true
  | _ => false

/-- The directives that the value of the global section is converted to. -/
def converted (order : HeaderOrder) (yaml : Yaml) : GlobalProperty → KdlDocument
  | directive name _ => named name.toList (globalDirectives yaml)
  | translated translation _ =>
      translation.nodes (modulesOf yaml) ((globalSection yaml).index translation.property)
  | headers => headerNodes order (inheritedHeaders yaml)
  | extensions => fcgiExtensions (modulesOf yaml) ((globalSection yaml).sections "fcgiScriptExtensions")
  | handler kind => (kind.made (modulesOf yaml) (settingsOf (globalSection yaml))).map Prod.snd
  | secureProxies => secureProxyTo.nodes (modulesOf yaml) ((globalSection yaml).index "secureProxyTo")

/-- The name of the block that the global value stands in. -/
def blockName (yaml : Yaml) (property : GlobalProperty) : Str :=
  if property.isSecure then secureName "*".toList (securePortOf yaml) else "*".toList

/-- The location in it that the global value stands in: a handler may have a path. -/
def path (yaml : Yaml) : GlobalProperty → Option Str
  | handler kind => settingsOf (globalSection yaml) kind.path
  | _ => none

/-- The part is the one of the global section that the global value is made from. -/
def isOwn (property : GlobalProperty) (part : Part) : Bool :=
  part.ofGlobal && part.secure == property.isSecure

section Given

variable (order : HeaderOrder) (modules : List Str)

/-- What a part gives the directive. -/
def given (part : Part) : GlobalProperty → KdlDocument
  | directive _ _ => []
  | translated translation _ =>
      if part.secure then
        if translation.name = "proxy" then secureProxyTo.nodes modules (part.value.index "secureProxyTo")
        else []
      else translation.nodes modules (part.value.index translation.property)
  | headers =>
      if part.secure then []
      else headerNodes order (insertHeaders (part.value.index "customHeaders") part.customHeaders)
  | extensions =>
      if part.secure then [] else fcgiExtensions modules (part.value.sections "fcgiScriptExtensions")
  | handler kind =>
      if part.secure then [] else (kind.made modules (settingsOf part.value)).withPath none
  | secureProxies =>
      if part.secure then secureProxyTo.nodes modules (part.value.index "secureProxyTo")
      else proxyTo.nodes modules (part.value.index "proxyTo")

/-- What a part that does not set the property gives the directive all the same: the proxies of the other
port, the headers that it inherits, or the default handler. -/
def givenByDefault (part : Part) : GlobalProperty → KdlDocument
  | directive _ _ => []
  | translated translation _ =>
      if part.secure then
        if translation.name = "proxy" then secureProxyTo.nodes modules (part.value.index "secureProxyTo")
        else []
      else []
  | headers => if part.secure then [] else headerNodes order part.customHeaders
  | extensions => []
  | handler kind => if part.secure then [] else (kind.byDefault modules part.value).withPath none
  | secureProxies => if part.secure then [] else proxyTo.nodes modules (part.value.index "proxyTo")

/-- What a part gives the directive in a location of a handler. -/
def located (path : Option Str) (status : Option ErrorHandlerStatus) (part : Part) :
    GlobalProperty → KdlDocument
  | handler kind =>
      if part.secure then [] else (kind.made modules (settingsOf part.value)).inLocation path status
  | _ => []

/-- What it gives there all the same. -/
def locatedByDefault (path : Option Str) (status : Option ErrorHandlerStatus) (part : Part) :
    GlobalProperty → KdlDocument
  | handler kind => if part.secure then [] else (kind.byDefault modules part.value).inLocation path status
  | _ => []

end Given

section Blocks

variable (order : HeaderOrder) (env : Environment) (yaml : Yaml) (property : GlobalProperty)
  (filters : ServerConfigurationFilters)

/-- The global value in the blocks with some filters. -/
def own : KdlDocument :=
  underName env filters (property.blockName yaml)
    (if pathOf filters = property.path yaml ∧ filters.errorHandlerStatus = none then
      property.converted order yaml
    else [])

/-- What else gives the directive there, when only the global section sets the property: the blocks of SNI
hostnames, and the sections all the same. -/
def others : KdlDocument :=
  ((sniBlocks yaml).flatMap fun node =>
      underName env filters node.name
        (if pathOf filters = none ∧ filters.errorHandlerStatus = none then
          named property.name (childNodes node)
        else [])) ++
    (topParts yaml).flatMap fun entry =>
      underName env filters entry.1
        ((if property.isOwn entry.2 then []
          else property.locatedByDefault (modulesOf yaml) (pathOf filters) filters.errorHandlerStatus
            entry.2) ++
          (entry.2.placed (pathOf filters) filters.errorHandlerStatus).flatMap fun part =>
            if property.isOwn part then [] else property.givenByDefault order (modulesOf yaml) part)

/-- The global value stays in effect: the nearest block around that has the directive has nothing else, or
it has the same values from elsewhere. -/
def Kept : Prop :=
  Undisturbed (fun filters => (property.own order env yaml filters).map kdlNodeToConfigurationEntry)
    (fun filters => (property.others order env yaml filters).map kdlNodeToConfigurationEntry)
    ((property.converted order yaml).map kdlNodeToConfigurationEntry) (around filters)

/-- The name of a block is that of a host that some filters are of. -/
def Names (env : Environment) (filters : ServerConfigurationFilters) (name : Str) : Prop :=
  ∃ part ∈ name.splitOn ',', ∃ host, parseHostFilter env [] part = .ok host ∧ host.isOf filters = true

/-- No section sets the property in a block or in the blocks around it, except for the global section. -/
def Unset : Prop :=
  ∀ key, property.key = some key → ∀ g ∈ around filters, ∀ entry ∈ topParts yaml, Names env g entry.1 →
    ∀ part ∈ entry.2.placed (pathOf g) g.errorHandlerStatus, part.ofGlobal = false →
      Yaml.get part.value.properties key = none

end Blocks

/-! ## What the parts give -/

theorem not_sectionName_of_globalName : ∀ name ∈ globalNames, ∀ own ∈ sectionNames,
    ¬own.toList = name.toList := by
  have hne : ∀ name ∈ globalNames, ∀ own ∈ sectionNames, own ≠ name := by decide +kernel
  exact fun name hname own hown => mt String.toList_inj.1 (hne name hname own hown)

theorem not_block_of_globalName : ∀ name ∈ globalNames,
    name.toList ≠ "location".toList ∧ name.toList ≠ "error_config".toList := by
  have hne : ∀ name ∈ globalNames, name ≠ "location" ∧ name ≠ "error_config" := by decide +kernel
  exact fun name hname =>
    ⟨mt String.toList_inj.1 (hne name hname).1, mt String.toList_inj.1 (hne name hname).2⟩

theorem name_not_block (property : GlobalProperty) :
    property.name ≠ "location".toList ∧ property.name ≠ "error_config".toList := by
  cases property with
  | directive name hname => exact not_block_of_globalName name hname
  | translated translation htranslation => exact name_ne_sections translation htranslation
  | headers => decide
  | extensions => decide
  | handler kind => cases kind <;> decide
  | secureProxies => decide

theorem name_not_reserved (property : GlobalProperty) : property.name ∉ reservedNames := by
  cases property with
  | directive name hname =>
      have hnot : ∀ name ∈ globalNames,
          name ∉ ["location", "error_config", "UNDOCUMENTED_REMOVE_PATH_PREFIX"] := by decide +kernel
      exact toList_notMem (hnot name hname)
  | translated translation htranslation =>
      have hnot : ∀ translation ∈ hostTranslations,
          translation.name ∉ ["location", "error_config", "UNDOCUMENTED_REMOVE_PATH_PREFIX"] := by
        decide +kernel
      exact toList_notMem (hnot translation htranslation)
  | headers => decide
  | extensions => decide
  | handler kind => cases kind <;> decide
  | secureProxies => decide

section Parts

variable {order : HeaderOrder} {modules : List Str} (property : GlobalProperty) {part : Part}
  (hunique : part.value.UniqueKeys)

include hunique

theorem named_secure {name : Str} (hlocation : name ≠ "location".toList) (hsecure : part.secure = true) :
    named name (part.document order modules) =
      if name = "proxy".toList then secureProxyTo.nodes modules (part.value.index "secureProxyTo")
      else [] := by
  rw [Part.document, if_pos hsecure, secure_sectionDocuments]
  split
  · rename_i hproxy
    rw [hproxy, named_secureProxies hunique]
  · rename_i hproxy
    exact named_secure_readSection_eq_nil hproxy hlocation _ _

/-- A part gives the directive what is made of the property. -/
theorem named_document :
    named property.name (part.document order modules) = property.given order modules part := by
  have hlocation := property.name_not_block.1
  cases hsecure : part.secure with
  | true =>
      rw [named_secure hunique hlocation hsecure]
      cases property with
      | directive name hname =>
          have hproxy := not_sectionName_of_globalName name hname "proxy"
            (mem_sectionNames_of_translation proxyTo_mem)
          exact if_neg fun heq => hproxy heq.symm
      | translated translation htranslation =>
          rw [given, if_pos hsecure]
          exact if_congr String.toList_inj rfl rfl
      | headers =>
          rw [given, if_pos hsecure]
          exact if_neg (by decide)
      | extensions =>
          rw [given, if_pos hsecure]
          exact if_neg (by decide)
      | handler kind =>
          rw [given, if_pos hsecure]
          exact if_neg (by cases kind <;> decide)
      | secureProxies =>
          rw [given, if_pos hsecure]
          exact if_pos rfl
  | false =>
      have hplain : ¬part.secure = true := by rw [hsecure]; exact Bool.false_ne_true
      rw [Part.document, if_neg hplain]
      cases property with
      | directive name hname =>
          exact named_sectionDocuments_eq_nil hunique _ hlocation (not_block_of_globalName name hname).2
            (not_sectionName_of_globalName name hname)
      | translated translation htranslation =>
          rw [given, if_neg hplain]
          exact named_sectionDocuments_translation hunique _ htranslation
      | headers =>
          rw [given, if_neg hplain]
          exact named_sectionDocuments_header hunique _
      | extensions =>
          rw [given, if_neg hplain]
          exact named_sectionDocuments_fcgiExtension hunique _
      | handler kind =>
          rw [given, if_neg hplain, ← Handlers.directives_eq]
          exact named_sectionDocuments_handler hunique _ kind
      | secureProxies =>
          rw [given, if_neg hplain]
          exact named_sectionDocuments_translation hunique _ proxyTo_mem

omit hunique in
theorem filter_handlers_eq_nil (hkind : ∀ kind : Handler, property ≠ .handler kind) :
    ((part.handlers modules).filter fun handler => handler.2.name = property.name) = [] := by
  refine List.filter_eq_nil_iff.2 fun handler hhandler hsame => ?_
  rw [Part.handlers] at hhandler
  split at hhandler
  · exact absurd hhandler List.not_mem_nil
  · obtain ⟨own, hown, heq⟩ := name_of_mem_allHandlers hhandler
    have hequal : own.toList = property.name := heq.symm.trans (of_decide_eq_true hsame)
    cases property with
    | directive name hname =>
        exact not_sectionName_of_globalName name hname own (mem_sectionNames_of_handler hown) hequal
    | translated translation htranslation =>
        have hne : ∀ own ∈ handlerNames, ∀ translation ∈ hostTranslations,
            own ≠ translation.name := by decide +kernel
        exact hne own hown translation htranslation (String.toList_inj.1 hequal)
    | headers => exact absurd hequal ((by decide : ∀ own ∈ handlerNames, ¬own.toList = _) own hown)
    | extensions => exact absurd hequal ((by decide : ∀ own ∈ handlerNames, ¬own.toList = _) own hown)
    | handler kind => exact hkind kind rfl
    | secureProxies => exact absurd hequal ((by decide : ∀ own ∈ handlerNames, ¬own.toList = _) own hown)

omit hunique in
/-- The handlers in locations of their own give the directive what is made of it. -/
theorem named_handlers (path : Option Str) (status : Option ErrorHandlerStatus) :
    named property.name ((part.handlers modules).inLocation path status) =
      property.located modules path status part := by
  rw [Handlers.named_inLocation]
  have hnil : Handlers.inLocation path status [] = [] := by
    cases path with
    | none => rfl
    | some path => cases status <;> rfl
  by_cases hkind : ∃ kind, property = .handler kind
  · obtain ⟨kind, rfl⟩ := hkind
    rw [located, Part.handlers]
    split
    · exact hnil
    · exact congrArg (Handlers.inLocation path status)
        (kind.filter_allHandlers modules (settingsOf part.value))
  · have hother : ∀ kind : Handler, property ≠ .handler kind := not_exists.1 hkind
    rw [filter_handlers_eq_nil property hother, hnil]
    cases property with
    | handler kind => exact absurd rfl (hother kind)
    | _ => rfl

end Parts

section Unset

variable {order : HeaderOrder} {modules : List Str} {property : GlobalProperty} {part : Part}
  (hown : property.isOwn part = false)
  (hunset : part.ofGlobal = false → ∀ key, property.key = some key →
    Yaml.get part.value.properties key = none)

include hown hunset

/-- A part that does not set the property gives what it gives by default. -/
theorem given_of_unset : property.given order modules part = property.givenByDefault order modules part := by
  have hindex : ∀ key, property.key = some key → part.secure = property.isSecure →
      Yaml.get part.value.properties key = none := by
    intro key hkey hsecure
    refine hunset ?_ key hkey
    rw [isOwn, hsecure, BEq.rfl, Bool.and_true] at hown
    exact hown
  cases property with
  | directive name hname => rfl
  | translated translation htranslation =>
      rw [given, givenByDefault]
      refine if_ctx_congr Iff.rfl (fun _ => rfl) fun hplain => ?_
      rw [Yaml.index_eq, hindex _ rfl (Bool.eq_false_of_not_eq_true hplain)]
      exact nodes_badValue htranslation modules
  | headers =>
      rw [given, givenByDefault]
      refine if_ctx_congr Iff.rfl (fun _ => rfl) fun hplain => ?_
      rw [Yaml.index_eq, hindex _ rfl (Bool.eq_false_of_not_eq_true hplain)]
      rfl
  | extensions =>
      rw [given, givenByDefault]
      split
      · rfl
      · rename_i hplain
        rw [Yaml.sections, Yaml.index_eq, hindex _ rfl (Bool.eq_false_of_not_eq_true hplain)]
        exact ite_self []
  | handler kind =>
      rw [given, givenByDefault]
      refine if_ctx_congr Iff.rfl (fun _ => rfl) fun hplain => ?_
      rw [Handler.made_of_unset (hindex _ rfl (Bool.eq_false_of_not_eq_true hplain))]
  | secureProxies =>
      rw [given, givenByDefault]
      refine if_ctx_congr Iff.rfl (fun hsecure => ?_) fun _ => rfl
      rw [Yaml.index_eq, hindex _ rfl hsecure]
      exact ite_self []

/-- And so in a location of a handler. -/
theorem located_of_unset (path : Option Str) (status : Option ErrorHandlerStatus) :
    property.located modules path status part = property.locatedByDefault modules path status part := by
  cases property with
  | handler kind =>
      rw [located, locatedByDefault]
      refine if_ctx_congr Iff.rfl (fun _ => rfl) fun hplain => ?_
      have hsecure : part.secure = false := Bool.eq_false_of_not_eq_true hplain
      have hglobal : part.ofGlobal = false := by
        have hsame : (part.secure == (GlobalProperty.handler kind).isSecure) = true := by
          rw [hsecure]
          rfl
        rwa [isOwn, hsame, Bool.and_true] at hown
      rw [Handler.made_of_unset (hunset hglobal _ rfl)]
  | _ => rfl

end Unset

/-! ## The values in a layer -/

section Layer

variable {order : HeaderOrder} {env : Environment} {yaml : Yaml} {property : GlobalProperty}
  {filters : ServerConfigurationFilters}

theorem interleaved_underName {α : Type} {name : Str} {l m n : List α}
    (h : Names env filters name → Interleaved l m n) :
    Interleaved (underName env filters name l) (underName env filters name m)
      (underName env filters name n) := by
  refine Interleaved.flatMap fun part hpart => ?_
  cases hhost : parseHostFilter env [] part with
  | error message => exact .nil
  | ok host =>
      dsimp only
      split
      · rename_i hof
        exact h ⟨part, hpart, host, hhost, hof⟩
      · exact .nil

/-- What the part of the global section that the global value is made from gives at a place. -/
def ownIn (order : HeaderOrder) (modules : List Str) (path : Option Str) (status : Option ErrorHandlerStatus)
    (property : GlobalProperty) (part : Part) : KdlDocument :=
  (if property.isOwn part then property.located modules path status part else []) ++
    (part.placed path status).flatMap fun part =>
      if property.isOwn part then property.given order modules part else []

/-- Directives of the whole server stand in the block itself. -/
theorem flatMap_blocksAt_globallyNamed {document : KdlDocument} (h : GloballyNamed document)
    (path : Option Str) (status : Option ErrorHandlerStatus) (name : Str) :
    (blocksAt path status document).flatMap (named name) =
      if path = none ∧ status = none then named name document else [] := by
  have hlocations : ∀ path, locationsWith path document = [] := by
    intro path
    rw [locationsWith, List.filter_eq_nil_iff.2 fun node hnode => by simp [(h.noBlocks node hnode).1]]
    rfl
  have herrors : ∀ status, errorConfigsWith status document = [] := by
    intro status
    rw [errorConfigsWith, List.filter_eq_nil_iff.2 fun node hnode => by simp [(h.noBlocks node hnode).2]]
    rfl
  cases path with
  | none =>
      cases status with
      | none => exact (List.flatMap_singleton _ _).trans (if_pos ⟨rfl, rfl⟩).symm
      | some status =>
          rw [if_neg fun h => Option.some_ne_none status h.2, blocksAt, List.flatMap_singleton, herrors]
          rfl
  | some path =>
      rw [if_neg fun h => Option.some_ne_none path h.1, blocksAt_some]
      cases status with
      | none =>
          dsimp only
          rw [hlocations]
          rfl
      | some status =>
          dsimp only
          rw [hlocations]
          rfl

theorem flatMap_named_singleton (name : Str) (nodes : KdlDocument) :
    (nodes.flatMap fun node => named name [node]) = named name nodes := by
  induction nodes with
  | nil => rfl
  | cons node nodes ih => rw [List.flatMap_cons, ih, ← named_append, List.singleton_append]

/-- What a part gives the directive at a place. -/
theorem flatMap_blocksAt_document {part : Part} (hkeys : DistinctKeys part.value) (modules : List Str)
    (path : Option Str) (status : Option ErrorHandlerStatus) :
    (blocksAt path status (part.document order modules)).flatMap (named property.name) =
      property.located modules path status part ++
        (part.placed path status).flatMap fun part => property.given order modules part := by
  rw [flatMap_blocksAt rfl hkeys, flatMap_named_singleton, named_handlers]
  refine congrArg (_ ++ ·) (List.flatMap_congr fun other hother => ?_)
  exact named_document property (Part.distinctKeys_of_mem_placed hkeys hother).uniqueKeys

/-- A part gives the global value, and by default what does not set the property. -/
theorem interleaved_part {modules : List Str} {path : Option Str} {status : Option ErrorHandlerStatus}
    {part : Part}
    (hpart : part.ofGlobal = false → ∀ key, property.key = some key →
      Yaml.get part.value.properties key = none)
    (hplaced : ∀ other ∈ part.placed path status, other.ofGlobal = false → ∀ key, property.key = some key →
      Yaml.get other.value.properties key = none) :
    Interleaved (property.ownIn order modules path status part)
      ((if property.isOwn part then [] else property.locatedByDefault modules path status part) ++
        (part.placed path status).flatMap fun part =>
          if property.isOwn part then [] else property.givenByDefault order modules part)
      (property.located modules path status part ++
        (part.placed path status).flatMap fun part => property.given order modules part) := by
  refine Interleaved.append ?_ (Interleaved.flatMap fun other hother => ?_)
  · cases hown : property.isOwn part with
    | true => exact .all_left _
    | false =>
        rw [located_of_unset hown hpart]
        exact .all_right _
  · cases hown : property.isOwn other with
    | true => exact .all_left _
    | false =>
        rw [given_of_unset hown (hplaced other hother)]
        exact .all_right _

theorem not_isOwn_of_placed {part other : Part} {path : Option Str} {status : Option ErrorHandlerStatus}
    (h : other ∈ part.placed path status)
    (hother : path = none → status = none → property.isOwn part = false) : property.isOwn other = false := by
  rcases Part.placed_cases h with ⟨hpath, hstatus, rfl⟩ | hglobal
  · exact hother hpath hstatus
  · rw [isOwn, hglobal]
    rfl

theorem flatMap_placed_eq_nil {modules : List Str} {part : Part} {path : Option Str}
    {status : Option ErrorHandlerStatus}
    (h : path = none → status = none → property.isOwn part = false) :
    ((part.placed path status).flatMap fun part =>
      if property.isOwn part then property.given order modules part else []) = [] := by
  refine List.flatMap_eq_nil_iff.2 fun other hother => ?_
  rw [not_isOwn_of_placed hother h]
  rfl

theorem ownIn_of_not_own {modules : List Str} {part : Part} (hown : property.isOwn part = false)
    (path : Option Str) (status : Option ErrorHandlerStatus) :
    property.ownIn order modules path status part = [] := by
  rw [ownIn, hown, flatMap_placed_eq_nil fun _ _ => hown]
  rfl

/-- The part of the global section that the global value is made from. -/
def ownPart (yaml : Yaml) (property : GlobalProperty) : Part :=
  ⟨true, property.isSecure, globalSection yaml, ∅⟩

theorem isOwn_ownPart : property.isOwn (property.ownPart yaml) = true := by
  rw [isOwn, ownPart, BEq.rfl]
  rfl

/-- The part gives the global value in its place. -/
theorem ownIn_ownPart (hsection : ∀ name hname, property ≠ .directive name hname) (path : Option Str)
    (status : Option ErrorHandlerStatus) :
    property.ownIn order (modulesOf yaml) path status (property.ownPart yaml) =
      if path = property.path yaml ∧ status = none then property.converted order yaml else [] := by
  rw [ownIn, if_pos isOwn_ownPart]
  cases status with
  | some status =>
      have hplaced := @flatMap_placed_eq_nil order property (modulesOf yaml) (property.ownPart yaml) path
        (some status) fun _ hstatus => absurd hstatus (Option.some_ne_none _)
      rw [hplaced, List.append_nil, if_neg nofun]
      cases property with
      | handler kind => cases path <;> rfl
      | _ => rfl
  | none =>
      cases path with
      | some path =>
          have hplaced := @flatMap_placed_eq_nil order property (modulesOf yaml) (property.ownPart yaml)
            (some path) none fun hpath => absurd hpath (Option.some_ne_none _)
          rw [hplaced, List.append_nil]
          cases property with
          | handler kind =>
              refine (Handlers.withPath_made _ _ kind _).trans (if_congr ?_ rfl rfl)
              exact (and_iff_left rfl).symm
          | _ => rfl
      | none =>
          have hown : (if property.isOwn (property.ownPart yaml) then
              property.given order (modulesOf yaml) (property.ownPart yaml) else []) =
                property.given order (modulesOf yaml) (property.ownPart yaml) := if_pos isOwn_ownPart
          rw [Part.placed, List.flatMap_singleton, hown]
          cases property with
          | directive name hname => exact absurd rfl (hsection name hname)
          | handler kind =>
              refine (Handlers.withPath_made _ _ kind _).trans (if_congr ?_ rfl rfl)
              exact (and_iff_left rfl).symm
          | _ => rfl

/-- In the blocks with some filters the parts give the global value. -/
theorem flatMap_ownIn (hsection : ∀ name hname, property ≠ .directive name hname) :
    ((topParts yaml).flatMap fun entry => underName env filters entry.1
      (property.ownIn order (modulesOf yaml) (pathOf filters) filters.errorHandlerStatus entry.2)) =
        property.own order env yaml filters := by
  have hhosts : (((yaml.sections "hosts").flatMap (hostParts yaml)).flatMap fun entry =>
      underName env filters entry.1
        (property.ownIn order (modulesOf yaml) (pathOf filters) filters.errorHandlerStatus entry.2)) =
          [] := by
    refine List.flatMap_eq_nil_iff.2 fun entry hentry => ?_
    obtain ⟨host, -, hentry⟩ := List.mem_flatMap.1 hentry
    rw [ownIn_of_not_own (by rw [isOwn, (of_mem_hostParts hentry).1]; rfl), underName_nil]
  have hplace := @ownIn_ownPart order yaml property hsection (pathOf filters) filters.errorHandlerStatus
  rw [topParts, List.flatMap_append, hhosts, List.append_nil, partsNamed, List.flatMap_cons,
    List.flatMap_singleton, own, blockName, ← hplace, ownPart]
  cases hsecure : property.isSecure with
  | true =>
      rw [@ownIn_of_not_own order property (modulesOf yaml) ⟨true, false, globalSection yaml, ∅⟩
        (by rw [isOwn, hsecure]; rfl), underName_nil]
      rfl
  | false =>
      rw [@ownIn_of_not_own order property (modulesOf yaml) ⟨true, true, globalSection yaml, ∅⟩
        (by rw [isOwn, hsecure]; rfl), underName_nil]
      exact List.append_nil _

/-- The global directives have other names than what a section may set. -/
theorem named_eq_nil_of_globallyNamed {document : KdlDocument} (h : GloballyNamed document)
    (hsection : ∀ name hname, property ≠ .directive name hname) : named property.name document = [] := by
  refine ofKey_eq_nil fun node hnode hsame => ?_
  obtain ⟨own, hown, heq⟩ := h node hnode
  have hequal : ∀ name ∈ sectionNames, name.toList = property.name → False :=
    fun name hname hname' => not_sectionName_of_globalName own hown name hname
      (hname'.trans (hsame.symm.trans heq))
  cases property with
  | directive name hname => exact hsection name hname rfl
  | translated translation htranslation =>
      exact hequal _ (mem_sectionNames_of_translation htranslation) rfl
  | headers => exact hequal "header" (by decide) rfl
  | extensions => exact hequal "fcgi_extension" (by decide) rfl
  | handler kind => exact hequal _ (mem_sectionNames_of_handler kind.name_mem) rfl
  | secureProxies => exact hequal _ (mem_sectionNames_of_translation proxyTo_mem) rfl

/-- The blocks of SNI hostnames have what the others have. -/
theorem foundUnder_sniBlocks :
    ((sniBlocks yaml).flatMap fun node =>
        foundUnder env filters (named property.name) node.name (childNodes node)) =
      (sniBlocks yaml).flatMap fun node => underName env filters node.name
        (if pathOf filters = none ∧ filters.errorHandlerStatus = none then
          named property.name (childNodes node)
        else []) := by
  refine List.flatMap_congr fun node hnode => ?_
  obtain ⟨entry, -, hentry⟩ := List.mem_filterMap.1 hnode
  obtain ⟨name, children, rfl, hchildren⟩ := eq_block_of_sniBlock hentry
  exact congrArg (underName env filters name) (flatMap_blocksAt_globallyNamed hchildren _ _ _)

/-- Under some filters a converted document has the global value and what else gives the directive. -/
theorem interleaved_blocks (h : DistinctConfiguration yaml)
    (hunset : ∀ entry ∈ topParts yaml, Names env filters entry.1 →
      (entry.2.ofGlobal = false → ∀ key, property.key = some key →
        Yaml.get entry.2.value.properties key = none) ∧
      ∀ other ∈ entry.2.placed (pathOf filters) filters.errorHandlerStatus, other.ofGlobal = false →
        ∀ key, property.key = some key → Yaml.get other.value.properties key = none) :
    Interleaved (property.own order env yaml filters) (property.others order env yaml filters)
      ((blocksUnder env filters (convertYamlToKdl order yaml)).flatMap (named property.name)) := by
  have hfirst : foundUnder env filters (named property.name) "*".toList (globalDirectives yaml) =
      underName env filters "*".toList
        (if pathOf filters = none ∧ filters.errorHandlerStatus = none then
          named property.name (globalDirectives yaml)
        else []) :=
    congrArg (underName env filters _)
      (flatMap_blocksAt_globallyNamed (globallyNamed_globalDirectives yaml) _ _ _)
  have hparts : Interleaved
      ((topParts yaml).flatMap fun entry => underName env filters entry.1
        (property.ownIn order (modulesOf yaml) (pathOf filters) filters.errorHandlerStatus entry.2))
      ((topParts yaml).flatMap fun entry =>
        underName env filters entry.1
          ((if property.isOwn entry.2 then []
            else property.locatedByDefault (modulesOf yaml) (pathOf filters) filters.errorHandlerStatus
              entry.2) ++
            (entry.2.placed (pathOf filters) filters.errorHandlerStatus).flatMap fun part =>
              if property.isOwn part then [] else property.givenByDefault order (modulesOf yaml) part))
      ((topParts yaml).flatMap fun entry => foundUnder env filters (named property.name) entry.1
        (entry.2.document order (modulesOf yaml))) := by
    refine Interleaved.flatMap fun entry hentry => ?_
    rw [foundUnder, flatMap_blocksAt_document (h.of_mem_topParts hentry)]
    exact interleaved_underName fun hnames =>
      interleaved_part (hunset entry hentry hnames).1 (hunset entry hentry hnames).2
  rw [flatMap_blocksUnder_convert rfl h, foundUnder_sniBlocks, hfirst, others]
  by_cases hdirective : ∃ name hname, property = .directive name hname
  · obtain ⟨name, hname, rfl⟩ := hdirective
    have hnone : ((topParts yaml).flatMap fun entry => underName env filters entry.1
        ((directive name hname).ownIn order (modulesOf yaml) (pathOf filters) filters.errorHandlerStatus
          entry.2)) = [] := by
      refine List.flatMap_eq_nil_iff.2 fun entry _ => ?_
      have hownIn : (directive name hname).ownIn order (modulesOf yaml) (pathOf filters)
          filters.errorHandlerStatus entry.2 = [] := by
        rw [ownIn, List.append_eq_nil_iff, List.flatMap_eq_nil_iff]
        exact ⟨ite_self [], fun part _ => ite_self []⟩
      rw [hownIn, underName_nil]
    rw [hnone] at hparts
    rw [List.append_assoc]
    exact ((Interleaved.all_right _).append hparts).front _
  · have hsection : ∀ name hname, property ≠ .directive name hname :=
      fun name hname heq => hdirective ⟨name, hname, heq⟩
    rw [named_eq_nil_of_globallyNamed (globallyNamed_globalDirectives yaml) hsection, ite_self, underName_nil]
    rw [flatMap_ownIn hsection] at hparts
    exact (Interleaved.all_right _).append hparts

theorem clearCondition_mem_around {g : ServerConfigurationFilters} (h : g ∈ around filters) :
    clearCondition g ∈ around filters := by
  simp only [around, List.mem_cons, List.not_mem_nil, or_false] at h ⊢
  rcases h with rfl | rfl | rfl | rfl | rfl | rfl | rfl
  · exact .inr (.inr (.inl rfl))
  · exact .inr (.inr (.inl rfl))
  · exact .inr (.inr (.inl rfl))
  · exact .inr (.inr (.inr (.inl rfl)))
  · exact .inr (.inr (.inr (.inr (.inl rfl))))
  · exact .inr (.inr (.inr (.inr (.inr (.inl rfl)))))
  · exact .inr (.inr (.inr (.inr (.inr (.inr rfl)))))

/-- The property is not set in the sections at a place, nor in those around them. -/
theorem Unset.at_place (h : property.Unset env yaml filters) {g : ServerConfigurationFilters}
    (hg : g ∈ around filters) {entry : Str × Part} (hentry : entry ∈ topParts yaml)
    (hnames : Names env g entry.1) :
    (entry.2.ofGlobal = false → ∀ key, property.key = some key →
      Yaml.get entry.2.value.properties key = none) ∧
    ∀ other ∈ entry.2.placed (pathOf g) g.errorHandlerStatus, other.ofGlobal = false →
      ∀ key, property.key = some key → Yaml.get other.value.properties key = none := by
  refine ⟨fun hglobal key hkey => ?_, fun other hother hglobal key hkey =>
    h key hkey g hg entry hentry hnames other hother hglobal⟩
  exact h key hkey (clearCondition g) (clearCondition_mem_around hg) entry hentry hnames entry.2
    List.mem_cons_self hglobal

theorem notMem_blockName : ',' ∉ property.blockName yaml := by
  rw [blockName]
  split
  · rw [secureName, List.mem_append, List.mem_append, not_or, not_or]
    refine ⟨⟨by decide, by decide⟩, fun hmem => ?_⟩
    exact absurd (Nat.isDigit_of_mem_toDigits (by decide) (by decide) hmem) (by decide)
  · decide

/-- The global value is there once or not at all. -/
theorem own_eq_nil_or : property.own order env yaml filters = [] ∨
    property.own order env yaml filters = property.converted order yaml := by
  rw [own, underName, List.splitOn_eq_singleton notMem_blockName, List.flatMap_singleton]
  split
  · split
    · split
      · exact .inr rfl
      · exact .inl rfl
    · exact .inl rfl
  · exact .inl rfl

end Layer

end GlobalProperty

end Ferron.Yaml2Kdl
