import Ferron.Yaml2Kdl.ConvertedDocument

/-!
# The parts of a section

A section is converted to a document for all ports and one for HTTPS: these are its parts. What stands in a
part at some place, in a location or in an error configuration, are the parts of the sections there, and the
handlers that have the path (`named_blocksAt`).

What a part gives a directive is known by the name of the directive: the nodes of a property
(`named_translated`), the custom headers, a handler, or the proxies for HTTPS.
-/

set_option autoImplicit false

namespace Ferron.Yaml2Kdl

open Ferron.Common Ferron.Config Ferron.Lib.KeyedList

/-! ## Handlers -/

/-- The handlers. -/
inductive Handler where
  | scgi
  | fcgi
  | wsgi
  | wsgid
  | asgi
  deriving DecidableEq

namespace Handler

/-- The name of the module and of the directive. -/
def name : Handler → String
  | scgi => "scgi"
  | fcgi => "fcgi"
  | wsgi => "wsgi"
  | wsgid => "wsgid"
  | asgi => "asgi"

/-- The setting of what the handler passes requests to. -/
def target : Handler → Setting
  | scgi => .scgiTo
  | fcgi => .fcgiTo
  | wsgi => .wsgiApplicationPath
  | wsgid => .wsgidApplicationPath
  | asgi => .asgiApplicationPath

/-- The setting of the path of the handler. -/
def path : Handler → Setting
  | scgi => .scgiPath
  | fcgi => .fcgiPath
  | wsgi => .wsgiPath
  | wsgid => .wsgidPath
  | asgi => .asgiPath

variable (modules : List Str) (settings : Setting → Option Str)

/-- The handler as it is made of the settings, if it is. -/
def made : Handler → Handlers
  | scgi => scgiHandler modules settings
  | fcgi => fcgiHandler modules settings
  | wsgi => applicationHandler modules settings "wsgi" .wsgiApplicationPath .wsgiPath
  | wsgid => applicationHandler modules settings "wsgid" .wsgidApplicationPath .wsgidPath
  | asgi => applicationHandler modules settings "asgi" .asgiApplicationPath .asgiPath

theorem name_mem (handler : Handler) : handler.name ∈ handlerNames := by
  cases handler <;> decide

theorem name_of_mem_made {handler : Handler} {node : Option Str × KdlNode}
    (h : node ∈ handler.made modules settings) : node.2.name = handler.name.toList := by
  cases handler with
  | scgi => exact name_of_mem_scgiHandler h
  | fcgi => exact name_of_mem_fcgiHandler h
  | wsgi => exact name_of_mem_applicationHandler h
  | wsgid => exact name_of_mem_applicationHandler h
  | asgi => exact name_of_mem_applicationHandler h

theorem name_injective {handler other : Handler} (h : handler.name.toList = other.name.toList) :
    handler = other := by
  cases handler <;> cases other <;> first
    | rfl
    | exact absurd h (by decide)

theorem allHandlers_eq : allHandlers modules settings =
    asgi.made modules settings ++ wsgid.made modules settings ++ wsgi.made modules settings ++
      fcgi.made modules settings ++ scgi.made modules settings := rfl

/-- A handler has the path of its setting. -/
theorem path_of_mem_made {handler : Handler} {node : Option Str × KdlNode}
    (h : node ∈ handler.made modules settings) : node.1 = settings handler.path := by
  have happlication : ∀ {name : String} {applicationPath path : Setting},
      node ∈ applicationHandler modules settings name applicationPath path → node.1 = settings path := by
    intro name applicationPath path h
    rw [applicationHandler] at h
    split at h
    · obtain ⟨application, -, rfl⟩ := Option.map_eq_some_iff.1 (Option.mem_toList.1 h)
      rfl
    · exact absurd h List.not_mem_nil
  cases handler with
  | scgi =>
      rw [made, scgiHandler] at h
      split at h
      · rw [List.mem_singleton.1 h]
        rfl
      · exact absurd h List.not_mem_nil
  | fcgi =>
      rw [made, fcgiHandler] at h
      split at h
      · rw [List.mem_singleton.1 h]
        rfl
      · exact absurd h List.not_mem_nil
  | wsgi => exact happlication h
  | wsgid => exact happlication h
  | asgi => exact happlication h

/-- The handlers of a name are the one that is made. -/
theorem filter_allHandlers (handler : Handler) :
    ((allHandlers modules settings).filter fun entry => entry.2.name = handler.name.toList) =
      handler.made modules settings := by
  have hfilter : ∀ other : Handler,
      ((other.made modules settings).filter fun entry => entry.2.name = handler.name.toList) =
        if other = handler then other.made modules settings else [] := by
    intro other
    split
    · rename_i heq
      subst heq
      exact List.filter_eq_self.2 fun entry hentry =>
        decide_eq_true (name_of_mem_made modules settings hentry)
    · rename_i hne
      refine List.filter_eq_nil_iff.2 fun entry hentry hname => hne ?_
      exact name_injective ((name_of_mem_made modules settings hentry).symm.trans (of_decide_eq_true hname))
  rw [allHandlers_eq]
  simp only [List.filter_append, hfilter]
  cases handler <;> simp

end Handler

namespace Handlers

/-- The handlers with a path, or those without one. -/
def withPath (path : Option Str) (handlers : Handlers) : KdlDocument :=
  (handlers.filter fun handler => handler.1 = path).map Prod.snd

theorem withPath_append (path : Option Str) (front back : Handlers) :
    withPath path (front ++ back) = withPath path front ++ withPath path back := by
  rw [withPath, List.filter_append, List.map_append]
  rfl

/-- The handlers at a place that is a location of their own. -/
def inLocation (path : Option Str) (status : Option ErrorHandlerStatus) (handlers : Handlers) : KdlDocument :=
  match path, status with
  | some path, none => handlers.withPath (some path)
  | _, _ => []

theorem directives_eq (handlers : Handlers) : handlers.directives = handlers.withPath none := by
  induction handlers with
  | nil => rfl
  | cons handler handlers ih =>
      rw [← List.singleton_append, withPath_append, directives, List.flatMap_append, ← ih]
      refine congrArg (· ++ _) ?_
      obtain ⟨path, node⟩ := handler
      cases path <;> rfl

/-- The locations with a path are those of the handlers that have it. -/
theorem locationsWith_locations (path : Str) (handlers : Handlers) :
    locationsWith path handlers.locations =
      (handlers.withPath (some path)).map fun handler => [handler] := by
  induction handlers with
  | nil => rfl
  | cons handler handlers ih =>
      rw [← List.singleton_append, withPath_append, locations, List.flatMap_append, locationsWith,
        List.filter_append, List.map_append, List.map_append]
      refine congrArg₂ (· ++ ·) ?_ ih
      obtain ⟨own, node⟩ := handler
      cases own with
      | none => rfl
      | some own =>
          have hnode : ∀ p : KdlNode → Bool, ([handlerLocation own node].filter p).map childNodes =
              if p (handlerLocation own node) then [[node]] else [] := by
            intro p
            rw [List.filter_cons]
            split <;> rfl
          have hown : (isLocation (handlerLocation own node) &&
              decide ((handlerLocation own node).firstString.getD [] = path)) = decide (own = path) := rfl
          refine (hnode _).trans ?_
          rw [hown, withPath, List.filter_cons]
          by_cases hsame : own = path
          · simp [hsame]
          · simp [hsame]

/-- The handler stands at its path. -/
theorem withPath_made (modules : List Str) (settings : Setting → Option Str) (handler : Handler)
    (path : Option Str) :
    withPath path (handler.made modules settings) =
      if path = settings handler.path then (handler.made modules settings).map Prod.snd else [] := by
  rw [withPath]
  split
  · rename_i hpath
    rw [List.filter_eq_self.2 fun node hnode =>
      decide_eq_true ((handler.path_of_mem_made modules settings hnode).trans hpath.symm)]
  · rename_i hpath
    rw [List.filter_eq_nil_iff.2 fun node hnode hsame => hpath
      ((of_decide_eq_true hsame).symm.trans (handler.path_of_mem_made modules settings hnode))]
    rfl

theorem named_withPath {name : Str} (path : Option Str) (handlers : Handlers) :
    named name (handlers.withPath path) =
      withPath path (handlers.filter fun handler => handler.2.name = name) := by
  rw [withPath, withPath, named, ofKey, List.filter_map, List.filter_filter, List.filter_filter]
  refine congrArg (List.map _) (List.filter_congr fun handler _ => ?_)
  exact Bool.and_comm _ _

theorem named_inLocation {name : Str} (path : Option Str) (status : Option ErrorHandlerStatus)
    (handlers : Handlers) :
    named name (handlers.inLocation path status) =
      inLocation path status (handlers.filter fun handler => handler.2.name = name) := by
  cases path with
  | none => rfl
  | some path =>
      cases status with
      | none => exact named_withPath (some path) handlers
      | some status => rfl

end Handlers

/-! ## What a section gives a directive -/

/-- The settings of a section. -/
def settingsOf (value : Yaml) (setting : Setting) : Option Str := (value.index setting.property).asStr

/-- Nodes that have one name. -/
theorem named_of_forall {name own : Str} {nodes : KdlDocument} (h : ∀ node ∈ nodes, node.name = own) :
    named name nodes = if own = name then nodes else [] := by
  split
  · rename_i heq
    exact ofKey_eq_self fun node hnode => (h node hnode).trans heq
  · rename_i hne
    exact ofKey_eq_nil fun node hnode hname => hne ((h node hnode).symm.trans hname)

theorem named_handler (modules : List Str) (settings : Setting → Option Str) (name : Str)
    (handler : Handler) :
    named name (handler.made modules settings).directives =
      if handler.name.toList = name then (handler.made modules settings).directives else [] :=
  named_of_forall fun _ hnode =>
    handler.name_of_mem_made modules settings (Handlers.mem_of_mem_directives hnode)

theorem named_headerNodes (order : HeaderOrder) (customHeaders : HashMap Str Str) (name : Str) :
    named name (headerNodes order customHeaders) =
      if "header".toList = name then headerNodes order customHeaders else [] := by
  refine named_of_forall fun node hnode => ?_
  obtain ⟨header, value, rfl⟩ := name_of_mem_headerNodes hnode
  rfl

theorem named_fcgiExtensions (modules : List Str) (extensions : List Yaml) (name : Str) :
    named name (fcgiExtensions modules extensions) =
      if "fcgi_extension".toList = name then fcgiExtensions modules extensions else [] := by
  refine named_of_forall fun node hnode => ?_
  rw [fcgiExtensions] at hnode
  split at hnode
  · obtain ⟨arguments, -, rfl⟩ := List.mem_map.1 hnode
    rfl
  · exact absurd hnode List.not_mem_nil

section Contents

variable {order : HeaderOrder} {modules : List Str} {value : Yaml} (hunique : value.UniqueKeys)
  (customHeaders : HashMap Str Str)

include hunique

/-- The directives of a name outside of the locations. -/
theorem named_sectionDocuments {name : Str} (hlocation : name ≠ "location".toList) :
    named name (sectionDocuments order modules value customHeaders).1 =
      named name (readSection order modules value customHeaders).nodes ++
        (if "scgi".toList = name then (Handler.scgi.made modules (settingsOf value)).directives else []) ++
        (if "header".toList = name then
          headerNodes order (insertHeaders (value.index "customHeaders") customHeaders) else []) ++
        ((if "fcgi".toList = name then (Handler.fcgi.made modules (settingsOf value)).directives else []) ++
          (if "fcgi_extension".toList = name then
            fcgiExtensions modules (value.sections "fcgiScriptExtensions") else []) ++
          (if "wsgi".toList = name then (Handler.wsgi.made modules (settingsOf value)).directives else []) ++
          (if "wsgid".toList = name then (Handler.wsgid.made modules (settingsOf value)).directives
            else []) ++
          if "asgi".toList = name then (Handler.asgi.made modules (settingsOf value)).directives
            else []) := by
  have hsettings : (readSection order modules value customHeaders).settings = settingsOf value :=
    funext fun setting => settings_readSection hunique customHeaders setting
  have hfront : ∀ handlers : Handlers, ∀ node ∈ handlers.locations, node.name ≠ name :=
    fun handlers node hnode hname => hlocation (hname.symm.trans (Handlers.name_of_mem_locations hnode))
  rw [sectionDocuments_fst, finish_nodes, hsettings, customHeaders_readSection hunique,
    fcgiScriptExtensions_readSection hunique, named_append, named_append_of_front (hfront _), named_append,
    named_append, named_headerNodes, handlersBehind, named_append, named_append, named_append, named_append,
    named_fcgiExtensions]
  exact congrArg₂ (· ++ ·) (congrArg₂ (· ++ ·) (congrArg (_ ++ ·) (named_handler _ _ _ .scgi)) rfl)
    (congrArg₂ (· ++ ·) (congrArg₂ (· ++ ·) (congrArg₂ (· ++ ·) (congrArg₂ (· ++ ·)
      (named_handler _ _ _ .fcgi) rfl) (named_handler _ _ _ .wsgi)) (named_handler _ _ _ .wsgid))
      (named_handler _ _ _ .asgi))

theorem named_sectionDocuments_translation {translation : Translation}
    (h : translation ∈ hostTranslations) :
    named translation.name.toList (sectionDocuments order modules value customHeaders).1 =
      translation.nodes modules (value.index translation.property) := by
  have hnames : ∀ translation ∈ hostTranslations, ∀ name ∈ "header" :: "fcgi_extension" :: handlerNames,
      name ≠ translation.name := by decide +kernel
  have hne := fun name hname => mt String.toList_inj.1 (hnames translation h name hname)
  rw [named_sectionDocuments hunique customHeaders (name_ne_sections translation h).1,
    named_translation hunique customHeaders h, if_neg (hne "scgi" (by decide)),
    if_neg (hne "header" (by decide)), if_neg (hne "fcgi" (by decide)),
    if_neg (hne "fcgi_extension" (by decide)), if_neg (hne "wsgi" (by decide)),
    if_neg (hne "wsgid" (by decide)), if_neg (hne "asgi" (by decide))]
  simp only [List.append_nil]

theorem named_sectionDocuments_header :
    named "header".toList (sectionDocuments order modules value customHeaders).1 =
      headerNodes order (insertHeaders (value.index "customHeaders") customHeaders) := by
  rw [named_sectionDocuments hunique customHeaders (by decide),
    named_readSection_eq_nil (by decide) value customHeaders]
  exact List.append_nil _

theorem named_sectionDocuments_fcgiExtension :
    named "fcgi_extension".toList (sectionDocuments order modules value customHeaders).1 =
      fcgiExtensions modules (value.sections "fcgiScriptExtensions") := by
  rw [named_sectionDocuments hunique customHeaders (by decide),
    named_readSection_eq_nil (by decide) value customHeaders]
  simp only [if_neg (show ¬"scgi".toList = "fcgi_extension".toList by decide),
    if_neg (show ¬"header".toList = "fcgi_extension".toList by decide),
    if_neg (show ¬"fcgi".toList = "fcgi_extension".toList by decide),
    if_neg (show ¬"wsgi".toList = "fcgi_extension".toList by decide),
    if_neg (show ¬"wsgid".toList = "fcgi_extension".toList by decide),
    if_neg (show ¬"asgi".toList = "fcgi_extension".toList by decide), if_true, List.append_nil,
    List.nil_append]

theorem named_sectionDocuments_handler (handler : Handler) :
    named handler.name.toList (sectionDocuments order modules value customHeaders).1 =
      (handler.made modules (settingsOf value)).directives := by
  have hlocation : handler.name.toList ≠ "location".toList := by cases handler <;> decide
  have hmade : madeFrom handler.name.toList = none := by cases handler <;> decide
  rw [named_sectionDocuments hunique customHeaders hlocation,
    named_readSection_eq_nil hmade value customHeaders]
  cases handler <;> simp [Handler.name]

/-- A section has directives of no other names. -/
theorem named_sectionDocuments_eq_nil {name : Str} (hlocation : name ≠ "location".toList)
    (herror : name ≠ "error_config".toList) (hname : ∀ own ∈ sectionNames, ¬own.toList = name) :
    named name (sectionDocuments order modules value customHeaders).1 = [] := by
  have hmade : madeFrom name = none := by
    rw [madeFrom, if_neg hlocation, if_neg herror, Option.map_eq_none_iff, List.find?_eq_none]
    exact fun translation htranslation hfound =>
      hname _ (mem_sectionNames_of_translation htranslation) (of_decide_eq_true hfound)
  rw [named_sectionDocuments hunique customHeaders hlocation,
    named_readSection_eq_nil hmade value customHeaders, if_neg (hname "scgi" (by decide)),
    if_neg (hname "header" (by decide)), if_neg (hname "fcgi" (by decide)),
    if_neg (hname "fcgi_extension" (by decide)), if_neg (hname "wsgi" (by decide)),
    if_neg (hname "wsgid" (by decide)), if_neg (hname "asgi" (by decide))]
  rfl

omit hunique in
theorem secure_sectionDocuments :
    (sectionDocuments order modules value customHeaders).2.getD [] =
      (readSection order modules value customHeaders).secureNodes := by
  rw [sectionDocuments_snd]
  split
  · rename_i hempty
    rw [List.isEmpty_iff.1 hempty]
    rfl
  · rfl

theorem named_sectionDocuments_location :
    named "location".toList (sectionDocuments order modules value customHeaders).1 =
      (allHandlers modules (settingsOf value)).locations ++
        (value.sections "locations").flatMap
          (locationNodes order modules (headersFor value "locations" customHeaders)) := by
  have hsettings : (readSection order modules value customHeaders).settings = settingsOf value :=
    funext fun setting => settings_readSection hunique customHeaders setting
  have hhandler : ∀ node : KdlNode, (∃ name ∈ handlerNames, node.name = name.toList) →
      node.name ≠ "location".toList := by
    rintro node ⟨name, hmem, hname⟩ hlocation
    have hnone : ∀ name ∈ handlerNames, ¬name.toList = "location".toList := by decide
    exact hnone name hmem (hname.symm.trans hlocation)
  rw [sectionDocuments_fst, finish_nodes, hsettings, named_append_of_back, named_append,
    named_append_of_back, named_append_of_back, named_locations hunique customHeaders]
  · exact congrArg (· ++ _) (ofKey_eq_self fun node hnode => Handlers.name_of_mem_locations hnode)
  · exact fun node hnode => hhandler node
      (name_of_mem_allHandlers (mem_allHandlers_of_scgi (Handlers.mem_of_mem_directives hnode)))
  · intro node hnode
    obtain ⟨header, value, rfl⟩ := name_of_mem_headerNodes hnode
    exact (show "header".toList ≠ "location".toList by decide)
  · intro node hnode
    rcases name_of_mem_handlersBehind hnode with hname | hmem
    · rw [hname]
      decide
    · exact hhandler node (name_of_mem_allHandlers hmem)

theorem named_sectionDocuments_errorConfig :
    named "error_config".toList (sectionDocuments order modules value customHeaders).1 =
      (value.sections "errorConfig").flatMap
        (errorConfigNodes order modules (headersFor value "errorConfig" customHeaders)) := by
  rw [named_sectionDocuments hunique customHeaders (by decide), named_errorConfigs hunique customHeaders]
  simp only [if_neg (show ¬"scgi".toList = "error_config".toList by decide),
    if_neg (show ¬"header".toList = "error_config".toList by decide),
    if_neg (show ¬"fcgi".toList = "error_config".toList by decide),
    if_neg (show ¬"fcgi_extension".toList = "error_config".toList by decide),
    if_neg (show ¬"wsgi".toList = "error_config".toList by decide),
    if_neg (show ¬"wsgid".toList = "error_config".toList by decide),
    if_neg (show ¬"asgi".toList = "error_config".toList by decide), List.append_nil]

end Contents

/-! ## The parts of a section -/

/-- The part of a section for all ports, or the one for HTTPS, with the custom headers that it inherits. -/
structure Part where
  ofGlobal : Bool
  secure : Bool
  value : Yaml
  customHeaders : HashMap Str Str

/-- The status that an error configuration is for. -/
def statusOf (errorConfig : Yaml) : ErrorHandlerStatus :=
  match (errorConfig.index "scode").asI64 with
  | some scode => .status (asU16 scode)
  | none => .any

namespace Part

/-- The part of a section in it. -/
def within (part : Part) (key : String) (secure : Bool) (value : Yaml) : Part :=
  ⟨false, secure, value, headersFor part.value key part.customHeaders⟩

/-- The parts of the locations with a path. -/
def locations (path : Str) (part : Part) : List Part :=
  ((part.value.sections "locations").filter fun location => (location.index "path").asStr = some path).map
    (part.within "locations" part.secure)

/-- The parts of the error configurations for a status. What is for HTTPS in them stands in the document for
all ports. -/
def errorConfigs (status : ErrorHandlerStatus) (part : Part) : List Part :=
  if part.secure then []
  else
    ((part.value.sections "errorConfig").filter fun errorConfig => statusOf errorConfig = status).flatMap
      fun errorConfig =>
        [part.within "errorConfig" true errorConfig, part.within "errorConfig" false errorConfig]

/-- The parts of the sections at a place. -/
def placed (path : Option Str) (status : Option ErrorHandlerStatus) (part : Part) : List Part :=
  let places := match path with
    | none => [part]
    | some path => part.locations path
  match status with
  | none => places
  | some status => places.flatMap (errorConfigs status)

/-- The handlers of the part. -/
def handlers (modules : List Str) (part : Part) : Handlers :=
  if part.secure then [] else allHandlers modules (settingsOf part.value)

/-- The document that the converter makes of the part. -/
def document (order : HeaderOrder) (modules : List Str) (part : Part) : KdlDocument :=
  if part.secure then (sectionDocuments order modules part.value part.customHeaders).2.getD []
  else (sectionDocuments order modules part.value part.customHeaders).1

end Part

/-- The keys of a section and of the sections in it are different. -/
inductive DistinctKeys : Yaml → Prop where
  | intro {value : Yaml} (hunique : value.UniqueKeys)
      (hsections : ∀ key, ∀ item ∈ value.sections key, DistinctKeys item) : DistinctKeys value

theorem DistinctKeys.uniqueKeys {value : Yaml} (h : DistinctKeys value) : value.UniqueKeys := by
  cases h with
  | intro hunique => exact hunique

theorem DistinctKeys.of_hash {entries : List (Yaml × Yaml)} (hunique : (entries.map Prod.fst).Nodup)
    (hitems : ∀ entry ∈ entries, ∀ items, entry.2 = .array items → ∀ item ∈ items, DistinctKeys item) :
    DistinctKeys (.hash entries) := by
  refine .intro hunique fun key item hitem => ?_
  obtain ⟨items, hentry, hmem⟩ := Yaml.mem_of_mem_sections hitem
  exact hitems _ hentry items rfl item hmem

theorem DistinctKeys.of_not_hash {value : Yaml} (h : value.asHash = none) : DistinctKeys value := by
  have hnone : value.properties = [] := by rw [Yaml.properties, h]; rfl
  refine .intro (by rw [Yaml.UniqueKeys, hnone]; exact List.nodup_nil) fun key item hitem => ?_
  obtain ⟨items, hentry, -⟩ := Yaml.mem_of_mem_sections hitem
  rw [hnone] at hentry
  exact absurd hentry List.not_mem_nil

theorem DistinctKeys.of_mem_sections {value item : Yaml} {key : String} (h : DistinctKeys value)
    (hitem : item ∈ value.sections key) : DistinctKeys item := by
  cases h with
  | intro _ hsections => exact hsections key item hitem

namespace Part

/-- A part at a place is the part itself, or one of a section in it. -/
theorem placed_cases {part other : Part} {path : Option Str} {status : Option ErrorHandlerStatus}
    (h : other ∈ part.placed path status) :
    path = none ∧ status = none ∧ other = part ∨ other.ofGlobal = false := by
  have hlocation : ∀ {path : Str} {place : Part}, place ∈ part.locations path → place.ofGlobal = false := by
    intro path place hplace
    obtain ⟨location, -, rfl⟩ := List.mem_map.1 hplace
    rfl
  cases status with
  | none =>
      cases path with
      | none => exact .inl ⟨rfl, rfl, List.mem_singleton.1 h⟩
      | some path => exact .inr (hlocation h)
  | some status =>
      refine .inr ?_
      obtain ⟨place, -, hother⟩ := List.mem_flatMap.1 h
      rw [errorConfigs] at hother
      split at hother
      · exact absurd hother List.not_mem_nil
      · obtain ⟨errorConfig, -, hother⟩ := List.mem_flatMap.1 hother
        simp only [List.mem_cons, List.not_mem_nil, or_false] at hother
        rcases hother with rfl | rfl <;> rfl

theorem distinctKeys_of_mem_locations {part location : Part} {path : Str} (hkeys : DistinctKeys part.value)
    (h : location ∈ part.locations path) : DistinctKeys location.value := by
  obtain ⟨item, hitem, rfl⟩ := List.mem_map.1 h
  exact hkeys.of_mem_sections (List.mem_of_mem_filter hitem)

theorem distinctKeys_of_mem_errorConfigs {part errorConfig : Part} {status : ErrorHandlerStatus}
    (hkeys : DistinctKeys part.value) (h : errorConfig ∈ part.errorConfigs status) :
    DistinctKeys errorConfig.value := by
  rw [errorConfigs] at h
  split at h
  · exact absurd h List.not_mem_nil
  · obtain ⟨item, hitem, h⟩ := List.mem_flatMap.1 h
    have hitemKeys := hkeys.of_mem_sections (List.mem_of_mem_filter hitem)
    simp only [List.mem_cons, List.not_mem_nil, or_false] at h
    rcases h with rfl | rfl
    · exact hitemKeys
    · exact hitemKeys

/-- The keys of the sections at a place are different. -/
theorem distinctKeys_of_mem_placed {part other : Part} {path : Option Str}
    {status : Option ErrorHandlerStatus} (hkeys : DistinctKeys part.value)
    (h : other ∈ part.placed path status) : DistinctKeys other.value := by
  have hplace : ∀ place ∈ (match path with
      | none => [part]
      | some path => part.locations path), DistinctKeys place.value := by
    cases path with
    | none => exact fun place hplace => List.mem_singleton.1 hplace ▸ hkeys
    | some path => exact fun place hplace => distinctKeys_of_mem_locations hkeys hplace
  cases status with
  | none => exact hplace other h
  | some status =>
      obtain ⟨place, hmem, hother⟩ := List.mem_flatMap.1 h
      exact distinctKeys_of_mem_errorConfigs (hplace place hmem) hother

end Part

/-! ## The blocks at a place -/

theorem locationsWith_named (path : Str) (nodes : KdlDocument) :
    locationsWith path (named "location".toList nodes) = locationsWith path nodes := by
  rw [locationsWith, locationsWith, named, ofKey, List.filter_filter]
  refine congrArg (List.map _) (List.filter_congr fun node _ => ?_)
  rw [isLocation]
  cases decide (node.name = "location".toList) <;> simp

theorem errorConfigsWith_named (status : ErrorHandlerStatus) (nodes : KdlDocument) :
    errorConfigsWith status (named "error_config".toList nodes) = errorConfigsWith status nodes := by
  rw [errorConfigsWith, errorConfigsWith, named, ofKey, List.filter_filter]
  refine congrArg (List.map _) (List.filter_congr fun node _ => ?_)
  rw [isErrorConfiguration]
  cases decide (node.name = "error_config".toList) <;> simp

theorem locationsWith_locationNode (path own : Str) (config : KdlDocument) :
    locationsWith path [locationNode own config] = if own = path then [config] else [] := by
  have hown : (isLocation (locationNode own config) &&
      decide ((locationNode own config).firstString.getD [] = path)) = decide (own = path) := rfl
  rw [locationsWith, List.filter_cons, hown]
  by_cases hsame : own = path
  · rw [if_pos (decide_eq_true hsame), if_pos hsame]
    rfl
  · rw [if_neg (by simpa using hsame), if_neg hsame]
    rfl

theorem errorConfigsWith_errorConfigNode (status : ErrorHandlerStatus) (errorConfig : Yaml)
    (config : KdlDocument) :
    errorConfigsWith status [errorConfigNode (errorConfig.index "scode").asI64 config] =
      if statusOf errorConfig = status then [config] else [] := by
  have hstatus : errorStatus (errorConfigNode (errorConfig.index "scode").asI64 config) =
      statusOf errorConfig := by
    rw [statusOf]
    cases (errorConfig.index "scode").asI64 <;> rfl
  have hown : (isErrorConfiguration (errorConfigNode (errorConfig.index "scode").asI64 config) &&
      decide (errorStatus (errorConfigNode (errorConfig.index "scode").asI64 config) = status)) =
        decide (statusOf errorConfig = status) := by
    rw [hstatus]
    rfl
  rw [errorConfigsWith, List.filter_cons, hown]
  by_cases hsame : statusOf errorConfig = status
  · rw [if_pos (decide_eq_true hsame), if_pos hsame]
    rfl
  · rw [if_neg (by simpa using hsame), if_neg hsame]
    rfl

/-- A handler is no error configuration. -/
theorem errorConfigsWith_handler {modules : List Str} {part : Part} {handler : Option Str × KdlNode}
    (h : handler ∈ part.handlers modules) (status : ErrorHandlerStatus) :
    errorConfigsWith status [handler.2] = [] := by
  rw [Part.handlers] at h
  split at h
  · exact absurd h List.not_mem_nil
  · obtain ⟨name, hmem, hname⟩ := name_of_mem_allHandlers h
    have hnone : ∀ name ∈ handlerNames, ¬name.toList = "error_config".toList := by decide
    have hnot : isErrorConfiguration handler.2 = false :=
      decide_eq_false fun herror => hnone name hmem (hname.symm.trans herror)
    rw [errorConfigsWith, List.filter_cons_of_neg (by rw [hnot]; exact Bool.false_ne_true)]
    rfl

section Blocks

variable {order : HeaderOrder} {modules : List Str} {α : Type} {f : KdlDocument → List α} (hf : f [] = [])

theorem flatMap_locationNodes (path : Str) (customHeaders : HashMap Str Str) (items : List Yaml) :
    (locationsWith path (items.flatMap (locationNodes order modules customHeaders))).flatMap f =
      (items.filter fun location => (location.index "path").asStr = some path).flatMap fun location =>
        f (sectionDocuments order modules location customHeaders).1 := by
  induction items with
  | nil => rfl
  | cons location items ih =>
      rw [List.flatMap_cons, locationsWith_append, List.flatMap_append, ih, List.filter_cons, locationNodes]
      cases hpath : (location.index "path").asStr with
      | none => rfl
      | some own =>
          rw [Option.map_some, Option.toList_some, locationsWith_locationNode]
          by_cases hsame : own = path
          · simp [hsame]
          · simp [hsame]

include hf

theorem flatMap_secureLocationNodes (path : Str) (customHeaders : HashMap Str Str) (items : List Yaml) :
    (locationsWith path (items.flatMap (secureLocationNodes order modules customHeaders))).flatMap f =
      (items.filter fun location => (location.index "path").asStr = some path).flatMap fun location =>
        f ((sectionDocuments order modules location customHeaders).2.getD []) := by
  induction items with
  | nil => rfl
  | cons location items ih =>
      rw [List.flatMap_cons, locationsWith_append, List.flatMap_append, ih, List.filter_cons,
        secureLocationNodes]
      cases hpath : (location.index "path").asStr with
      | none => rfl
      | some own =>
          cases hsecure : (sectionDocuments order modules location customHeaders).2 with
          | none =>
              by_cases hsame : own = path
              · simp [hsame, hsecure, hf, locationsWith]
              · simp [hsame, locationsWith]
          | some config =>
              rw [Option.bind_some, Option.map_some, Option.toList_some, locationsWith_locationNode]
              by_cases hsame : own = path
              · simp [hsame, hsecure]
              · simp [hsame]

/-- The blocks of the locations with a path: those of handlers, and the parts of the locations. -/
theorem flatMap_locationsWith {part : Part} (h : part.value.UniqueKeys) (path : Str) :
    (locationsWith path (part.document order modules)).flatMap f =
      ((part.handlers modules).withPath (some path)).flatMap (fun handler => f [handler]) ++
        (part.locations path).flatMap fun location => f (location.document order modules) := by
  obtain ⟨ofGlobal, secure, value, customHeaders⟩ := part
  rw [Part.locations, List.flatMap_map, ← locationsWith_named]
  cases secure with
  | true =>
      rw [Part.document, if_pos rfl, secure_sectionDocuments, named_secureLocations h,
        flatMap_secureLocationNodes hf]
      rfl
  | false =>
      rw [Part.document, if_neg Bool.false_ne_true, named_sectionDocuments_location h, locationsWith_append,
        List.flatMap_append, flatMap_locationNodes, Handlers.locationsWith_locations, List.flatMap_map]
      rfl

/-- The blocks of the error configurations for a status. -/
theorem flatMap_errorConfigsWith {part : Part} (h : part.value.UniqueKeys) (status : ErrorHandlerStatus) :
    (errorConfigsWith status (part.document order modules)).flatMap f =
      (part.errorConfigs status).flatMap fun errorConfig => f (errorConfig.document order modules) := by
  obtain ⟨ofGlobal, secure, value, customHeaders⟩ := part
  rw [Part.errorConfigs, ← errorConfigsWith_named]
  cases secure with
  | true =>
      rw [Part.document, if_pos rfl, secure_sectionDocuments,
        named_secure_readSection_eq_nil (by decide) (by decide)]
      rfl
  | false =>
      rw [Part.document, if_neg Bool.false_ne_true, if_neg Bool.false_ne_true,
        named_sectionDocuments_errorConfig h, List.flatMap_assoc]
      generalize value.sections "errorConfig" = items
      induction items with
      | nil => rfl
      | cons errorConfig items ih =>
          rw [List.flatMap_cons, errorConfigsWith_append, List.flatMap_append, ih, List.filter_cons,
            errorConfigNodes]
          dsimp only
          rw [errorConfigsWith_append, List.flatMap_append, errorConfigsWith_errorConfigNode]
          cases hsecure : (sectionDocuments order modules errorConfig
              (headersFor value "errorConfig" customHeaders)).2 with
          | none =>
              by_cases hsame : statusOf errorConfig = status
              · simp [hsame, hf, errorConfigsWith, Part.document, Part.within, hsecure]
              · simp [hsame, errorConfigsWith]
          | some config =>
              rw [Option.map_some, Option.toList_some, errorConfigsWith_errorConfigNode]
              by_cases hsame : statusOf errorConfig = status
              · simp [hsame, Part.document, Part.within, hsecure]
              · simp [hsame]

/-- The blocks at a place in a part are those of handlers and the parts of the sections there. -/
theorem flatMap_blocksAt {part : Part} (h : DistinctKeys part.value)
    (path : Option Str) (status : Option ErrorHandlerStatus) :
    (blocksAt path status (part.document order modules)).flatMap f =
      ((part.handlers modules).inLocation path status).flatMap (fun handler => f [handler]) ++
        (part.placed path status).flatMap fun part => f (part.document order modules) := by
  cases path with
  | none =>
      cases status with
      | none => rfl
      | some status =>
          rw [blocksAt, Part.placed, List.flatMap_singleton, List.flatMap_singleton,
            flatMap_errorConfigsWith hf h.uniqueKeys]
          rfl
  | some path =>
      cases status with
      | none => exact flatMap_locationsWith hf h.uniqueKeys path
      | some status =>
          rw [blocksAt_some, List.flatMap_assoc, flatMap_locationsWith _ h.uniqueKeys, Part.placed,
            List.flatMap_assoc]
          · have hnone : ((part.handlers modules).withPath (some path)).flatMap
                (fun handler => (errorConfigsWith status [handler]).flatMap f) = [] := by
              refine List.flatMap_eq_nil_iff.2 fun node hnode => ?_
              obtain ⟨handler, hmem, rfl⟩ := List.mem_map.1 hnode
              rw [errorConfigsWith_handler (List.mem_of_mem_filter hmem)]
              rfl
            rw [hnone]
            refine List.flatMap_congr fun location hlocation => ?_
            exact flatMap_errorConfigsWith hf
              (Part.distinctKeys_of_mem_locations h hlocation).uniqueKeys status
          · rfl

end Blocks

end Ferron.Yaml2Kdl
