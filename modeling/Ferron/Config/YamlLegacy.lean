import Ferron.Config.Snippets

/-!
# The adapter for legacy YAML configurations

`loadLegacyConfiguration` goes through the document that a YAML configuration is converted to. It knows
locations in hosts, and error configurations in hosts and in locations, and takes all other nodes for
directives.

On a document like those of the converter it gives the configurations of `flattenDocument`
(`loadLegacyConfiguration_iff`).
-/

set_option autoImplicit false

namespace Ferron.Config

open Ferron.Common

/-! ## The adapter -/

/-- The host filter of one of the names of a block, read as in the KDL adapter. -/
def legacyHostFilter (env : Environment) (globalName : Str) : Except Str HostFilter :=
  (parseHostFilter env [] globalName).mapError fun _ => "Invalid host specifier".toList

/-- What the loading of a node changes. -/
structure LegacyLoading where
  configurations : List ServerConfiguration
  configurationEntries : HashMap Str ServerConfigurationEntries

/-- The directives of a block. -/
def directiveEntries (nodes : KdlDocument) : HashMap Str ServerConfigurationEntries :=
  nodes.foldl addDirective ∅

/-- `error_config`, in a host or in a location with its condition. -/
def legacyErrorConfig (host : HostFilter) (condition : Option Conditions) (node : KdlNode) :
    Except Str ServerConfiguration :=
  match node.children with
  | none => .error "Error handler blocks should have children, but they don't".toList
  | some children =>
      match node.firstArgument with
      | none => .ok ⟨directiveEntries children, host.filters condition (some .any)⟩
      | some errorStatusCode =>
          match errorStatusCode.value.asInteger with
          | none => .error "Invalid error handler status code".toList
          | some code =>
              .ok ⟨directiveEntries children, host.filters condition (some (.status (asU16 code)))⟩

/-- A node of a location. -/
def legacyLocationNode (host : HostFilter) (location : Str) (state : LegacyLoading) (node : KdlNode) :
    Except Str LegacyLoading :=
  if node.name = "error_config".toList then do
    let configuration ← legacyErrorConfig host (some ⟨location, []⟩) node
    pure { state with configurations := state.configurations ++ [configuration] }
  else pure { state with configurationEntries := addDirective state.configurationEntries node }

/-- `location`. -/
def legacyLocation (host : HostFilter) (configurations : List ServerConfiguration) (node : KdlNode) :
    Except Str (List ServerConfiguration) :=
  match node.children with
  | none => .error "Locations should have children, but they don't".toList
  | some children =>
      match node.firstArgument with
      | none => .error "Invalid location".toList
      | some argument =>
          match argument.value.asString with
          | none => .error "Invalid location path".toList
          | some location => do
              let inner ← children.foldlM (legacyLocationNode host location) ⟨configurations, ∅⟩
              pure (inner.configurations ++
                [⟨locationEntries node location inner.configurationEntries,
                  host.filters (some ⟨location, []⟩) none⟩])

/-- A node of a host. -/
def legacyHostNode (host : HostFilter) (state : LegacyLoading) (node : KdlNode) :
    Except Str LegacyLoading :=
  if node.name = "location".toList then do
    let configurations ← legacyLocation host state.configurations node
    pure { state with configurations := configurations }
  else if node.name = "error_config".toList then do
    let configuration ← legacyErrorConfig host none node
    pure { state with configurations := state.configurations ++ [configuration] }
  else pure { state with configurationEntries := addDirective state.configurationEntries node }

/-- A top-level block under one of its names. -/
def legacyHost (env : Environment) (children : KdlDocument) (configurations : List ServerConfiguration)
    (globalName : Str) : Except Str (List ServerConfiguration) := do
  let host ← legacyHostFilter env globalName
  let inner ← children.foldlM (legacyHostNode host) ⟨configurations, ∅⟩
  pure (inner.configurations ++ [⟨inner.configurationEntries, host.filters none none⟩])

/-- A top-level node. -/
def legacyNode (env : Environment) (configurations : List ServerConfiguration) (node : KdlNode) :
    Except Str (List ServerConfiguration) :=
  match node.children with
  | some children => (node.name.splitOn ',').foldlM (legacyHost env children) configurations
  | none => .error "Invalid top-level directive".toList

/-- `load_configuration` of the legacy adapter, from the converted document on. -/
def loadLegacyConfiguration (env : Environment) (document : KdlDocument) :
    Except Str (List ServerConfiguration) :=
  document.foldlM (legacyNode env) []

/-! ## Converted documents -/

/-- The names that are not those of directives. -/
def blockNames : List Str :=
  ["use".toList, "location".toList, "condition".toList, "if".toList, "if_not".toList,
    "error_config".toList]

/-- A node like those of the converter: a directive, a location with a path, or an error configuration,
perhaps with a status code. -/
inductive Converted : KdlNode → Prop where
  | directive {node : KdlNode} (hname : node.name ∉ blockNames) : Converted node
  | location {node : KdlNode} {path : Str} {children : KdlDocument}
      (hname : node.name = "location".toList)
      (hargument : node.firstArgument = some ⟨none, .string path⟩)
      (hchildren : node.children = some children) (hall : ∀ child ∈ children, Converted child) :
      Converted node
  | errorConfig {node : KdlNode} {scode : Option Int} {children : KdlDocument}
      (hname : node.name = "error_config".toList)
      (hargument : node.firstArgument = scode.map fun code => ⟨none, .integer code⟩)
      (hchildren : node.children = some children) (hall : ∀ child ∈ children, Converted child) :
      Converted node

/-- A top-level block like those of the converter: it has no arguments, and such nodes in it. -/
structure ConvertedBlock (node : KdlNode) (children : KdlDocument) : Prop where
  hargument : node.firstArgument = none
  hchildren : node.children = some children
  hall : ∀ child ∈ children, Converted child

/-- A document like those of the converter. -/
def ConvertedDocument (document : KdlDocument) : Prop :=
  ∀ node ∈ document, ∃ children, ConvertedBlock node children

/-- The node is a location. -/
def isLocation (node : KdlNode) : Bool := node.name = "location".toList

/-- The node is an error configuration. -/
def isErrorConfiguration (node : KdlNode) : Bool := node.name = "error_config".toList

/-- The status that an error configuration is for. -/
def errorStatus (node : KdlNode) : ErrorHandlerStatus :=
  match node.firstArgument.bind fun argument => argument.value.asInteger with
  | some code => .status (asU16 code)
  | none => .any

/-- The configuration of an error configuration. -/
def flattenErrorConfig (host : HostFilter) (condition : Option Conditions) (node : KdlNode) :
    ServerConfiguration :=
  ⟨directiveEntries (node.children.getD []), host.filters condition (some (errorStatus node))⟩

/-- The configurations of a node of a host. An error configuration in a location gets the condition that
is made of that of the location. -/
def flattenNode (nested : Conditions → Option Conditions) (host : HostFilter) (node : KdlNode) :
    List ServerConfiguration :=
  if isLocation node then
    let location := node.firstString.getD []
    let children := node.children.getD []
    (children.filter isErrorConfiguration).map (flattenErrorConfig host (nested ⟨location, []⟩)) ++
      [⟨locationEntries node location
          (directiveEntries (children.filter fun child => !isErrorConfiguration child)),
        host.filters (some ⟨location, []⟩) none⟩]
  else if isErrorConfiguration node then [flattenErrorConfig host none node]
  else []

/-- A node of a host that is neither a location nor an error configuration. -/
def isHostDirective (node : KdlNode) : Bool := !isLocation node && !isErrorConfiguration node

/-- The configurations of a host. -/
def flattenHost (nested : Conditions → Option Conditions) (children : KdlDocument) (host : HostFilter) :
    List ServerConfiguration :=
  children.flatMap (flattenNode nested host) ++
    [⟨directiveEntries (children.filter isHostDirective), host.filters none none⟩]

/-- The configurations of a block under one of its names, which is a host specifier. -/
def flattenName (nested : Conditions → Option Conditions) (env : Environment) (children : KdlDocument)
    (name : Str) : List ServerConfiguration :=
  match parseHostFilter env [] name with
  | .ok host => flattenHost nested children host
  | .error _ => []

/-- The configurations of a block. -/
def flattenBlock (nested : Conditions → Option Conditions) (env : Environment) (node : KdlNode) :
    List ServerConfiguration :=
  (node.name.splitOn ',').flatMap (flattenName nested env (node.children.getD []))

/-- The configurations of a document. -/
def flattenDocument (nested : Conditions → Option Conditions) (env : Environment)
    (document : KdlDocument) : List ServerConfiguration :=
  document.flatMap (flattenBlock nested env)

/-- The names of the blocks are host specifiers. -/
def NamesHosts (env : Environment) (document : KdlDocument) : Prop :=
  ∀ node ∈ document, ∀ name ∈ node.name.splitOn ',', ∃ host, parseHostFilter env [] name = .ok host

/-! ## What the legacy adapter gives -/

/-- The state behind a node of a host. -/
def LegacyLoading.add (nested : Conditions → Option Conditions) (host : HostFilter) (state : LegacyLoading)
    (node : KdlNode) : LegacyLoading where
  configurations := state.configurations ++ flattenNode nested host node
  configurationEntries :=
    if isHostDirective node then addDirective state.configurationEntries node
    else state.configurationEntries

theorem foldl_add (nested : Conditions → Option Conditions) (host : HostFilter) (children : KdlDocument)
    (state : LegacyLoading) :
    children.foldl (.add nested host) state =
      ⟨state.configurations ++ children.flatMap (flattenNode nested host),
        (children.filter isHostDirective).foldl addDirective state.configurationEntries⟩ := by
  induction children generalizing state with
  | nil => simp
  | cons node children ih =>
      rw [List.foldl_cons, ih, List.flatMap_cons, List.filter_cons]
      cases hdirective : isHostDirective node with
      | true => simp [LegacyLoading.add, hdirective]
      | false => simp [LegacyLoading.add, hdirective]

namespace Converted

variable {node : KdlNode}

theorem of_isErrorConfiguration (h : Converted node) (hname : isErrorConfiguration node = true) :
    ∃ (scode : Option Int) (children : KdlDocument),
      node.firstArgument = scode.map (fun code => ⟨none, .integer code⟩) ∧
        node.children = some children ∧ ∀ child ∈ children, Converted child := by
  have hname := of_decide_eq_true hname
  cases h with
  | directive hdirective =>
      rw [hname] at hdirective
      exact absurd (by decide) hdirective
  | location hlocation =>
      rw [hname] at hlocation
      exact absurd hlocation (by decide)
  | errorConfig _ hargument hchildren hall => exact ⟨_, _, hargument, hchildren, hall⟩

theorem of_isLocation (h : Converted node) (hname : isLocation node = true) :
    ∃ (path : Str) (children : KdlDocument), node.firstArgument = some ⟨none, .string path⟩ ∧
        node.children = some children ∧ ∀ child ∈ children, Converted child := by
  have hname := of_decide_eq_true hname
  cases h with
  | directive hdirective =>
      rw [hname] at hdirective
      exact absurd (by decide) hdirective
  | location _ hargument hchildren hall => exact ⟨_, _, hargument, hchildren, hall⟩
  | errorConfig herror =>
      rw [hname] at herror
      exact absurd herror (by decide)

end Converted

theorem legacyErrorConfig_converted {node : KdlNode} (h : Converted node)
    (hname : isErrorConfiguration node = true) (host : HostFilter) (condition : Option Conditions) :
    legacyErrorConfig host condition node = .ok (flattenErrorConfig host condition node) := by
  obtain ⟨scode, children, hargument, hchildren, -⟩ := h.of_isErrorConfiguration hname
  rw [legacyErrorConfig, flattenErrorConfig, errorStatus, hchildren, hargument]
  cases scode <;> rfl

/-- The state behind a node of a location. -/
def LegacyLoading.addInLocation (condition : Option Conditions) (host : HostFilter)
    (state : LegacyLoading) (node : KdlNode) : LegacyLoading :=
  if isErrorConfiguration node then
    { state with configurations := state.configurations ++ [flattenErrorConfig host condition node] }
  else { state with configurationEntries := addDirective state.configurationEntries node }

theorem foldl_addInLocation (condition : Option Conditions) (host : HostFilter) (children : KdlDocument)
    (state : LegacyLoading) :
    children.foldl (.addInLocation condition host) state =
      ⟨state.configurations ++
          (children.filter isErrorConfiguration).map (flattenErrorConfig host condition),
        (children.filter fun child => !isErrorConfiguration child).foldl addDirective
          state.configurationEntries⟩ := by
  induction children generalizing state with
  | nil => simp
  | cons node children ih =>
      rw [List.foldl_cons, ih, LegacyLoading.addInLocation, List.filter_cons, List.filter_cons]
      cases herror : isErrorConfiguration node with
      | true => simp
      | false => simp

theorem foldlM_legacyLocationNode (host : HostFilter) (location : Str) (children : KdlDocument)
    (hall : ∀ child ∈ children, Converted child) (state : LegacyLoading) :
    children.foldlM (legacyLocationNode host location) state =
      .ok (children.foldl (.addInLocation (some ⟨location, []⟩) host) state) := by
  induction children generalizing state with
  | nil => rfl
  | cons node children ih =>
      have hnode := hall node List.mem_cons_self
      have hrest := fun state => ih (fun child hchild => hall child (List.mem_cons_of_mem _ hchild)) state
      rw [List.foldlM_cons, List.foldl_cons, legacyLocationNode, LegacyLoading.addInLocation]
      cases herror : isErrorConfiguration node with
      | true =>
          rw [if_pos (of_decide_eq_true herror), legacyErrorConfig_converted hnode herror]
          exact hrest _
      | false =>
          rw [if_neg (of_decide_eq_false herror)]
          exact hrest _

theorem legacyLocation_converted {node : KdlNode} (h : Converted node)
    (hname : isLocation node = true) (host : HostFilter) (configurations : List ServerConfiguration) :
    legacyLocation host configurations node =
      .ok (configurations ++ flattenNode some host node) := by
  obtain ⟨path, children, hargument, hchildren, hall⟩ := h.of_isLocation hname
  have hpath : node.firstString = some path := by
    rw [KdlNode.firstString, hargument]
    rfl
  rw [legacyLocation, flattenNode, if_pos hname, hpath, hchildren, hargument]
  dsimp only [KdlValue.asString, Option.getD_some]
  rw [foldlM_legacyLocationNode host path children hall, foldl_addInLocation, ← List.append_assoc]
  rfl

/-- A node of a host. -/
theorem legacyHostNode_converted {node : KdlNode} (h : Converted node) (host : HostFilter)
    (state : LegacyLoading) : legacyHostNode host state node = .ok (state.add some host node) := by
  rw [legacyHostNode, LegacyLoading.add, isHostDirective]
  cases hlocation : isLocation node with
  | true =>
      rw [if_pos (of_decide_eq_true hlocation), legacyLocation_converted h hlocation]
      rfl
  | false =>
      rw [if_neg (of_decide_eq_false hlocation), flattenNode, hlocation]
      cases herror : isErrorConfiguration node with
      | true =>
          rw [if_pos (of_decide_eq_true herror), legacyErrorConfig_converted h herror]
          rfl
      | false =>
          rw [if_neg (of_decide_eq_false herror), if_neg Bool.false_ne_true, if_neg Bool.false_ne_true,
            List.append_nil]
          rfl

theorem foldlM_legacyHostNode (host : HostFilter) (children : KdlDocument)
    (hall : ∀ child ∈ children, Converted child) (state : LegacyLoading) :
    children.foldlM (legacyHostNode host) state = .ok (children.foldl (.add some host) state) := by
  induction children generalizing state with
  | nil => rfl
  | cons node children ih =>
      rw [List.foldlM_cons, legacyHostNode_converted (hall node List.mem_cons_self), List.foldl_cons]
      exact ih (fun child hchild => hall child (List.mem_cons_of_mem _ hchild)) _

/-- A loop that appends something for each item, or fails: when it succeeds no item is one of those that
make it fail. -/
theorem foldlM_append_iff {α β ε : Type} {f : List β → α → Except ε (List β)} {valid : α → Prop}
    {part : α → List β} {items : List α}
    (hvalid : ∀ item ∈ items, valid item → ∀ list, f list item = .ok (list ++ part item))
    (hfails : ∀ item ∈ items, ∀ list list', f list item = .ok list' → valid item)
    {list result : List β} :
    items.foldlM f list = .ok result ↔
      (∀ item ∈ items, valid item) ∧ result = list ++ items.flatMap part := by
  induction items generalizing list with
  | nil => simp [pure, Except.pure, eq_comm]
  | cons item items ih =>
      have hrest := fun list => @ih
        (fun other hother => hvalid other (List.mem_cons_of_mem _ hother))
        (fun other hother => hfails other (List.mem_cons_of_mem _ hother)) list
      rw [List.foldlM_cons, List.forall_mem_cons, List.flatMap_cons, ← List.append_assoc]
      cases hstep : f list item with
      | error err =>
          have hinvalid : ¬valid item := by
            intro hitem
            rw [hvalid item List.mem_cons_self hitem] at hstep
            cases hstep
          exact ⟨fun h => (nomatch h), fun h => absurd h.1.1 hinvalid⟩
      | ok next =>
          have hitem := hfails item List.mem_cons_self list next hstep
          rw [hvalid item List.mem_cons_self hitem] at hstep
          rw [← Except.ok.inj hstep]
          refine (hrest _).trans ?_
          rw [and_iff_right hitem]

theorem legacyHost_converted {env : Environment} {children : KdlDocument}
    (hall : ∀ child ∈ children, Converted child) (configurations : List ServerConfiguration)
    (name : Str) :
    legacyHost env children configurations name =
      match parseHostFilter env [] name with
      | .ok host => .ok (configurations ++ flattenHost some children host)
      | .error _ => .error "Invalid host specifier".toList := by
  rw [legacyHost, legacyHostFilter]
  cases parseHostFilter env [] name with
  | error err => rfl
  | ok host =>
      simp only [Except.mapError, bind, Except.bind]
      rw [foldlM_legacyHostNode host children hall, foldl_add]
      simp [flattenHost, directiveEntries, pure, Except.pure]

/-- The legacy adapter loads the document when its names are host specifiers. -/
theorem loadLegacyConfiguration_iff {env : Environment} {document : KdlDocument}
    (hconverted : ConvertedDocument document) {configurations : List ServerConfiguration} :
    loadLegacyConfiguration env document = .ok configurations ↔
      NamesHosts env document ∧ configurations = flattenDocument some env document := by
  rw [loadLegacyConfiguration, NamesHosts, flattenDocument]
  have hnames : ∀ children : KdlDocument, (∀ child ∈ children, Converted child) →
      ∀ (names : List Str) list result,
        names.foldlM (legacyHost env children) list = .ok result ↔
          (∀ name ∈ names, ∃ host, parseHostFilter env [] name = .ok host) ∧
            result = list ++ names.flatMap (flattenName some env children) := by
    intro children hall names list result
    apply foldlM_append_iff
    · rintro name - ⟨host, hhost⟩ list
      rw [legacyHost_converted hall, flattenName, hhost]
    · intro name _ list list' h
      rw [legacyHost_converted hall] at h
      cases hhost : parseHostFilter env [] name with
      | ok host => exact ⟨host, rfl⟩
      | error err =>
          rw [hhost] at h
          cases h
  have hdocument := @foldlM_append_iff _ _ _ (legacyNode env)
    (fun node => ∀ name ∈ node.name.splitOn ',', ∃ host, parseHostFilter env [] name = .ok host)
    (flattenBlock some env) document ?_ ?_ [] configurations
  · rw [hdocument, List.nil_append]
  · intro node hnode hvalid list
    obtain ⟨children, hblock⟩ := hconverted node hnode
    rw [legacyNode, flattenBlock, hblock.hchildren]
    exact (hnames children hblock.hall _ _ _).mpr ⟨hvalid, rfl⟩
  · intro node hnode list list' h
    obtain ⟨children, hblock⟩ := hconverted node hnode
    rw [legacyNode, hblock.hchildren] at h
    exact ((hnames children hblock.hall _ _ _).mp h).1

/-! ## Names of hosts -/

section Document

variable {env : Environment} {canonicalPath : PathBuf} {fuel : Nat}

/-- The names that are host specifiers do not depend on the path in the message. -/
theorem parseHostFilter_ok_iff {name : Str} {host : HostFilter} (canonicalPath : PathBuf) :
    parseHostFilter env canonicalPath name = .ok host ↔ parseHostFilter env [] name = .ok host := by
  rw [parseHostFilter, parseHostFilter]
  by_cases hglobals : name = "globals".toList
  · rw [if_pos hglobals, if_pos hglobals]
  · rw [if_neg hglobals, if_neg hglobals]
    cases env.parseSocketAddr name with
    | some socketAddr => exact Iff.rfl
    | none =>
        cases rsplitOnce ':' name with
        | none => exact Iff.rfl
        | some parts =>
            dsimp only
            cases parseU16 parts.2 with
            | some port => exact Iff.rfl
            | none =>
                dsimp only
                by_cases hany : parts.2 = "*".toList
                · rw [if_pos hany, if_pos hany]
                · rw [if_neg hany, if_neg hany]
                  exact ⟨fun h => (nomatch h), fun h => (nomatch h)⟩

end Document

end Ferron.Config
