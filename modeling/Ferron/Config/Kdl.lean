import Ferron.Config.ConditionalData
import Ferron.Rust.Path

/-!
# The KDL configuration adapter

`kdlIterateFn` goes through the nodes of a host block and flattens the blocks in it: each block becomes
a configuration of its own, behind those of the blocks in it. What is left of the nesting is the
condition of a configuration, which holds the prefix of the location and the conditionals around it.

A file may use a snippet in itself and include itself, so a loader has fuel.
-/

set_option autoImplicit false

namespace Ferron.Config

open Ferron.Common

/-! ## Documents -/

/-- A KDL value. A float is given by its bits. -/
inductive KdlValue where
  | string (value : Str)
  | integer (value : Int)
  | float (bits : UInt64)
  | bool (value : Bool)
  | null

namespace KdlValue

/-- `as_string`. -/
def asString : KdlValue → Option Str
  | string value => some value
  | _ => none

/-- `as_integer`. -/
def asInteger : KdlValue → Option Int
  | integer value => some value
  | _ => none

/-- `as_bool`. -/
def asBool : KdlValue → Option Bool
  | bool value => some value
  | _ => none

end KdlValue

/-- An argument of a node, or a property of it when it has a name. -/
structure KdlEntry where
  name : Option Str
  value : KdlValue

/-- A node. -/
structure KdlNode where
  name : Str
  entries : List KdlEntry
  children : Option (List KdlNode)

/-- A document. -/
abbrev KdlDocument := List KdlNode

namespace KdlNode

/-- `entry(0)`: the first argument. -/
def firstArgument (node : KdlNode) : Option KdlEntry :=
  node.entries.find? fun entry => entry.name.isNone

/-- `entry` with a name: the last property with the name. -/
def property (node : KdlNode) (name : Str) : Option KdlEntry :=
  node.entries.reverse.find? fun entry => entry.name == some name

/-- The first argument, if it is a text. -/
def firstString (node : KdlNode) : Option Str := node.firstArgument.bind fun e => e.value.asString

end KdlNode

/-- The configuration value of a KDL value. -/
def configurationValue : KdlValue → ServerConfigurationValue
  | .string value => .string value
  | .integer value => .integer value
  | .float bits => .float bits
  | .bool value => .bool value
  | .null => .null

/-- `kdl_node_to_configuration_entry`. -/
def kdlNodeToConfigurationEntry (node : KdlNode) : ServerConfigurationEntry :=
  let values := (node.entries.filter fun entry => entry.name.isNone).map fun entry =>
    configurationValue entry.value
  let props := node.entries.foldl (fun (props : HashMap Str ServerConfigurationValue) entry =>
    match entry.name with
    | some name => props.insert name (configurationValue entry.value)
    | none => props) ∅
  { values := if values.isEmpty then [.bool true] else values, props := props }

/-! ## Loading a node -/

/-- A loader that may fail with a message. It gives nothing when it runs out of fuel. -/
abbrev Load := ExceptT Str Option

/-- A result that needs no fuel. -/
def Load.ofExcept {α : Type} (result : Except Str α) : Load α := ExceptT.mk (some result)

/-- The filter of a host: hostname, IP address, port and whether it is a host. -/
structure HostFilter where
  hostname : Option Str
  ip : Option IpAddr
  port : Option UInt16
  isHost : Bool

/-- The filters of a configuration of the host. -/
def HostFilter.filters (host : HostFilter) (condition : Option Conditions)
    (errorHandlerStatus : Option ErrorHandlerStatus) : ServerConfigurationFilters where
  isHost := host.isHost
  hostname := host.hostname
  ip := host.ip
  port := host.port
  condition := condition
  errorHandlerStatus := errorHandlerStatus

/-- The configuration of a block. The conditions of the location and the conditional blocks around it,
the nearest one first, are kept for reference; the loader looks at the first of them only. -/
structure Block where
  configuration : ServerConfiguration
  enclosing : List Conditions

/-- The filters of a block. -/
def Block.filters (b : Block) : ServerConfigurationFilters := b.configuration.filters

/-- The filters of the block with these conditions in the same host. -/
def Block.filtersUnder (b : Block) (condition : Option Conditions) : ServerConfigurationFilters :=
  { b.filters with condition := condition, errorHandlerStatus := none }

/-- What the loading of a node reads and changes. -/
structure Loading where
  configurations : List Block
  configurationEntries : HashMap Str ServerConfigurationEntries
  loadedConditions : HashMap Str (List ConditionalData)
  /-- The number of address lists so far. -/
  tables : Nat

/-- What the loading of a node only reads. -/
structure LoadingContext where
  libraries : Libraries
  canonicalPath : PathBuf
  hostFilter : HostFilter
  snippets : HashMap Str KdlDocument

/-- A message with the path of the file. -/
def messageAt (message : String) (canonicalPath : PathBuf) : Str :=
  message.toList ++ " at \"".toList ++ canonicalPath ++ "\"".toList

/-- A snippet by its name. -/
def findSnippet (snippets : HashMap Str KdlDocument) (node : KdlNode) : Except Str KdlDocument :=
  match node.firstString with
  | none => .error "Invalid `use` statement".toList
  | some snippetName =>
      match snippets.lookup snippetName with
      | none => .error ("Snippet not defined: ".toList ++ snippetName ++
          ". You might need to define it before using it".toList)
      | some snippet => .ok snippet

/-- Adds a directive to the entries of its block. -/
def addDirective (entries : HashMap Str ServerConfigurationEntries) (node : KdlNode) :
    HashMap Str ServerConfigurationEntries :=
  let value := kdlNodeToConfigurationEntry node
  match entries.lookup node.name with
  | some present => entries.insert node.name ⟨present.inner ++ [value]⟩
  | none => entries.insert node.name ⟨[value]⟩

/-- The state in which the nodes of a block are loaded. -/
def Loading.enter (state : Loading) : Loading := { state with configurationEntries := ∅ }

/-- The state behind a block: its configuration comes last, and what it defined is forgotten. -/
def Loading.leave (state inner : Loading) (block : Block) : Loading :=
  { state with configurations := inner.configurations ++ [block], tables := inner.tables }

section Node

variable (ctx : LoadingContext)
  -- the recursive call, with the conditions of the blocks around the node
  (iterate : List Conditions → Bool → Loading → KdlNode → Load Loading)

/-- `use`: the nodes of the snippet are loaded in its place. -/
def iterateUse (enclosing : List Conditions) (isErrorConfig : Bool) (state : Loading)
    (node : KdlNode) : Load Loading := do
  let snippet ← Load.ofExcept (findSnippet ctx.snippets node)
  snippet.foldlM (iterate enclosing isErrorConfig) state

/-- The marker for `remove_base`. -/
def removeBaseMarker (location : Str) : ServerConfigurationEntries :=
  ⟨[{ values := [.string location], props := ∅ }]⟩

/-- The nodes of a location, a condition or a conditional block, and its text. -/
def blockHeader (node : KdlNode) : Except Str (KdlDocument × Str) :=
  match node.children with
  | none => .error (messageAt "Locations should have children, but they don't" ctx.canonicalPath)
  | some children =>
      match node.firstArgument with
      | none => .error (messageAt "Invalid location" ctx.canonicalPath)
      | some argument =>
          match argument.value.asString with
          | none => .error (messageAt "Invalid location path" ctx.canonicalPath)
          | some text => .ok (children, text)

/-- The entries of a location: with `remove_base` they get the marker. -/
def locationEntries (node : KdlNode) (location : Str)
    (configurationEntries : HashMap Str ServerConfigurationEntries) :
    HashMap Str ServerConfigurationEntries :=
  if ((node.property "remove_base".toList).bind fun e => e.value.asBool).getD false then
    configurationEntries.insert "UNDOCUMENTED_REMOVE_PATH_PREFIX".toList (removeBaseMarker location)
  else configurationEntries

/-- `location`. -/
def iterateLocation (enclosing : List Conditions) (isErrorConfig : Bool) (state : Loading)
    (node : KdlNode) : Load Loading :=
  if isErrorConfig then throw "Locations in error configurations aren't allowed".toList
  else if enclosing.head?.isSome then
    throw "Nested locations and locations in conditions aren't allowed".toList
  else do
    let (children, location) ← Load.ofExcept (blockHeader ctx node)
    let conditions : Conditions := ⟨location, []⟩
    let inner ← children.foldlM (iterate (conditions :: enclosing) isErrorConfig) state.enter
    pure (state.leave inner ⟨⟨locationEntries node location inner.configurationEntries,
      ctx.hostFilter.filters (some conditions) none⟩, enclosing⟩)

/-- The nodes of a condition, with those of the snippets that they use. The first list is gone through
first. -/
def conditionData (conditionName : Str) :
    Nat → List KdlDocument → Nat → List ConditionalData → Load (Nat × List ConditionalData)
  | 0, _, _, _ => ExceptT.mk none
  | _ + 1, [], tables, conditionsData => pure (tables, conditionsData)
  | fuel + 1, [] :: nodesStack, tables, conditionsData =>
      conditionData conditionName fuel nodesStack tables conditionsData
  | fuel + 1, (node :: nodes) :: nodesStack, tables, conditionsData =>
      if node.name = "use".toList then do
        let snippet ← Load.ofExcept (findSnippet ctx.snippets node)
        conditionData conditionName fuel (snippet :: nodes :: nodesStack) tables conditionsData
      else
        match parseConditionalData ctx.libraries tables node.name
            (kdlNodeToConfigurationEntry node) with
        | .ok d =>
            conditionData conditionName fuel (nodes :: nodesStack) (tables + 1)
              (conditionsData ++ [d])
        | .error err => throw ("Invalid or unsupported subcondition at \"".toList ++ conditionName ++
            "\" condition: ".toList ++ err)

/-- `condition`. -/
def iterateCondition (fuel : Nat) (isErrorConfig : Bool) (state : Loading) (node : KdlNode) :
    Load Loading :=
  if isErrorConfig then throw "Conditions in error configurations aren't allowed".toList
  else do
    let (children, conditionName) ← Load.ofExcept (blockHeader ctx node)
    let (tables, conditionsData) ←
      conditionData ctx conditionName fuel [children] state.tables []
    pure { state with
      loadedConditions := state.loadedConditions.insert conditionName conditionsData
      tables := tables }

/-- The data of a condition by its name. -/
def findCondition (state : Loading) (conditionName : Str) : Except Str (List ConditionalData) :=
  match state.loadedConditions.lookup conditionName with
  | some conditionals => .ok conditionals
  | none => .error ("Condition not defined: ".toList ++ conditionName ++
      ". You might need to define it before using it".toList)

/-- The conditions of a conditional block: those around it, and one conditional more. -/
def newConditions (enclosing : List Conditions) (conditional : Conditional) : Conditions :=
  let conditions := enclosing.head?.getD ⟨"/".toList, []⟩
  { conditions with conditionals := conditions.conditionals ++ [conditional] }

/-- `if` and `if_not`, which wrap the data of the condition in different ways. -/
def iterateConditional (wrap : List ConditionalData → Conditional) (enclosing : List Conditions)
    (isErrorConfig : Bool) (state : Loading) (node : KdlNode) : Load Loading :=
  if isErrorConfig then throw "Conditions in error configurations aren't allowed".toList
  else do
    let (children, conditionName) ← Load.ofExcept (blockHeader ctx node)
    let conditionals ← Load.ofExcept (findCondition state conditionName)
    let conditions := newConditions enclosing (wrap conditionals)
    let inner ← children.foldlM (iterate (conditions :: enclosing) isErrorConfig) state.enter
    pure (state.leave inner ⟨⟨inner.configurationEntries,
      ctx.hostFilter.filters (some conditions) none⟩, enclosing⟩)

/-- `as u16`. -/
def asU16 (n : Int) : UInt16 := UInt16.ofNat (n % 2 ^ 16).toNat

/-- `error_config`. Without a status code its nodes are all taken for directives. -/
def iterateErrorConfig (enclosing : List Conditions) (isErrorConfig : Bool) (state : Loading)
    (node : KdlNode) : Load Loading :=
  if isErrorConfig then throw "Nested error configurations aren't allowed".toList
  else
    match node.children with
    | none =>
        throw (messageAt "Error handler blocks should have children, but they don't"
          ctx.canonicalPath)
    | some children =>
        match node.firstArgument with
        | none =>
            pure (state.leave state.enter
              ⟨⟨children.foldl addDirective ∅, ctx.hostFilter.filters none (some .any)⟩, enclosing⟩)
        | some errorStatusCode =>
            match errorStatusCode.value.asInteger with
            | none => throw (messageAt "Invalid error handler status code" ctx.canonicalPath)
            | some code => do
                let inner ← children.foldlM (iterate enclosing true) state.enter
                pure (state.leave inner ⟨⟨inner.configurationEntries,
                  ctx.hostFilter.filters none (some (.status (asU16 code)))⟩, enclosing⟩)

end Node

/-- `kdl_iterate_fn`. -/
def kdlIterateFn (ctx : LoadingContext) :
    Nat → List Conditions → Bool → Loading → KdlNode → Load Loading
  | 0, _, _, _, _ => ExceptT.mk none
  | fuel + 1, enclosing, isErrorConfig, state, node =>
      let iterate := kdlIterateFn ctx fuel
      if node.name = "use".toList then iterateUse ctx iterate enclosing isErrorConfig state node
      else if node.name = "location".toList then
        iterateLocation ctx iterate enclosing isErrorConfig state node
      else if node.name = "condition".toList then
        iterateCondition ctx fuel isErrorConfig state node
      else if node.name = "if".toList then
        iterateConditional ctx iterate .ifBlock enclosing isErrorConfig state node
      else if node.name = "if_not".toList then
        iterateConditional ctx iterate .ifNot enclosing isErrorConfig state node
      else if node.name = "error_config".toList then
        iterateErrorConfig ctx iterate enclosing isErrorConfig state node
      else pure { state with
        configurationEntries := addDirective state.configurationEntries node }

/-! ## Loading a file -/

/-- The file system, and what is read by other libraries. -/
structure Environment extends Libraries where
  canonicalize : PathBuf → Option PathBuf
  readToString : PathBuf → Except Str Str
  parseKdl : Str → Except Str KdlDocument
  glob : Str → Except Str (List (Except Str PathBuf))
  parseSocketAddr : Str → Option (IpAddr × UInt16)

/-- `parse::<u16>`. -/
def parseU16 (s : Str) : Option UInt16 :=
  let digits := match s with
    | '+' :: rest => rest
    | _ => s
  if digits.isEmpty || !digits.all Char.isDigit then none
  else
    let n := digits.foldl (fun n c => 10 * n + (c.toNat - '0'.toNat)) 0
    if n < 2 ^ 16 then some (UInt16.ofNat n) else none

/-- `rsplit_once`. -/
def rsplitOnce (separator : Char) (s : Str) : Option (Str × Str) :=
  let back := (s.reverse.takeWhile (· ≠ separator)).reverse
  if back.length < s.length then some (s.take (s.length - (back.length + 1)), back) else none

/-- The text between square brackets, or the whole text. -/
def withoutBrackets (address : Str) : Str :=
  match address with
  | '[' :: rest => if rest.getLast? = some ']' then rest.dropLast else address
  | _ => address

/-- The filter of an address with a port. -/
def addressFilter (env : Environment) (address : Str) (port : Option UInt16) : HostFilter :=
  match env.parseIpAddr (withoutBrackets address) with
  | some ip => ⟨none, some ip, port, true⟩
  | none =>
      if address = "*".toList ∨ address.isEmpty then ⟨none, none, port, true⟩
      else ⟨some address, none, port, true⟩

/-- The host filter of one of the names of a block. -/
def parseHostFilter (env : Environment) (canonicalPath : PathBuf) (globalName : Str) :
    Except Str HostFilter :=
  if globalName = "globals".toList then .ok ⟨none, none, none, false⟩
  else
    match env.parseSocketAddr globalName with
    | some (ip, port) => .ok ⟨none, some ip, some port, true⟩
    | none =>
        match rsplitOnce ':' globalName with
        | some (address, portStr) =>
            match parseU16 portStr with
            | some port => .ok (addressFilter env address (some port))
            | none =>
                if portStr = "*".toList then .ok (addressFilter env address none)
                else .error (messageAt "Invalid host specifier" canonicalPath)
        | none => .ok (addressFilter env globalName none)

/-- What the loading of a file changes. -/
structure FileLoading where
  configurations : List Block
  loadedConditions : HashMap Str (List ConditionalData)
  snippets : HashMap Str KdlDocument
  tables : Nat
  loadedPaths : List PathBuf

section File

variable (env : Environment) (canonicalPath : PathBuf)

/-- A top-level block under one of its names. -/
def loadHost (fuel : Nat) (children : KdlDocument) (state : FileLoading) (globalName : Str) :
    Load FileLoading := do
  let hostFilter ← Load.ofExcept (parseHostFilter env canonicalPath globalName)
  let ctx : LoadingContext := ⟨env.toLibraries, canonicalPath, hostFilter, state.snippets⟩
  let inner ← children.foldlM (kdlIterateFn ctx fuel [] false)
    ⟨state.configurations, ∅, state.loadedConditions, state.tables⟩
  pure { state with
    configurations := inner.configurations ++
      [⟨⟨inner.configurationEntries, hostFilter.filters none none⟩, []⟩]
    loadedConditions := inner.loadedConditions
    tables := inner.tables }

/-- A message about the includes of the file. -/
def includeMessage (err : Str) : Str :=
  messageAt "Failed to determine includes for the server configuration file" canonicalPath ++
    ": ".toList ++ err

/-- The files that match a pattern, relative to the directory of the file. -/
def globFiles (includeGlob : Str) : Except Str (List PathBuf) :=
  let includeGlobPath := if PathBuf.isAbsolute includeGlob then includeGlob
    else PathBuf.join ((PathBuf.parent canonicalPath).getD canonicalPath) includeGlob
  match env.glob includeGlobPath with
  | .error err => .error (includeMessage canonicalPath err)
  | .ok filesGlobbed => filesGlobbed.mapM fun file =>
      match file with
      | .error err => .error (includeMessage canonicalPath err)
      | .ok fileGlobbed => .ok ((env.canonicalize fileGlobbed).getD fileGlobbed)

/-- The files that an `include` directive names. -/
def includeFiles (node : KdlNode) : Except Str (List PathBuf) := do
  let includeGlobs := (node.entries.filter fun entry => entry.name.isNone).filterMap fun entry =>
    entry.value.asString
  let files ← includeGlobs.mapM (globFiles env canonicalPath)
  pure files.flatten

/-- A top-level node. -/
def loadNode (fuel : Nat)
    (load : PathBuf → List PathBuf → Nat → Load (List Block × List PathBuf × Nat))
    (state : FileLoading) (node : KdlNode) : Load FileLoading := do
  if node.name = "snippet".toList then
    let some snippetName := node.firstString | throw "Invalid or missing snippet name".toList
    let some children := node.children
      | throw ("Snippet \"".toList ++ snippetName ++ "\" is missing children".toList)
    pure { state with snippets := state.snippets.insert snippetName children }
  else
    match node.children with
    | some children => (node.name.splitOn ',').foldlM (loadHost env canonicalPath fuel children) state
    | none =>
        if node.name = "include".toList then do
          let files ← Load.ofExcept (includeFiles env canonicalPath node)
          files.foldlM (fun (state : FileLoading) file => do
            let (configurations, loadedPaths, tables) ← load file state.loadedPaths state.tables
            pure { state with
              configurations := state.configurations ++ configurations
              loadedPaths := loadedPaths
              tables := tables }) state
        else throw (messageAt "Invalid top-level directive" canonicalPath)

end File

/-- `load_configuration_inner`. -/
def loadConfigurationInner (env : Environment) :
    Nat → PathBuf → List PathBuf → Nat → Load (List Block × List PathBuf × Nat)
  | 0, _, _, _ => ExceptT.mk none
  | fuel + 1, path, loadedPaths, tables =>
      let canonicalPath := (env.canonicalize path).getD path
      if loadedPaths.contains canonicalPath then
        throw ("Detected the server configuration file include loop while attempting to load \"".toList
          ++ canonicalPath ++ "\"".toList)
      else do
        let fileContents ← Load.ofExcept ((env.readToString path).mapError fun err =>
          messageAt "Failed to read from the server configuration file" canonicalPath ++
            ": ".toList ++ err)
        let document ← Load.ofExcept ((env.parseKdl fileContents).mapError fun err =>
          "Failed to parse the server configuration file: ".toList ++ err)
        let state ← document.foldlM
          (loadNode env canonicalPath fuel (loadConfigurationInner env fuel))
          ⟨[], ∅, ∅, tables, canonicalPath :: loadedPaths⟩
        pure (state.configurations, state.loadedPaths, state.tables)

/-- `load_configuration`, with the conditions around each block. -/
def loadConfiguration (env : Environment) (fuel : Nat) (path : PathBuf) : Load (List Block) := do
  let (configurations, _, _) ← loadConfigurationInner env fuel path [] 0
  pure configurations

/-! ## What a loader gives -/

namespace Load

variable {α β σ : Type}

theorem pure_inj {a b : α} (h : (pure a : Load α) = pure b) : a = b :=
  Except.ok.inj (Option.some.inj h)

theorem of_bind {x : Load α} {f : α → Load β} {b : β} (h : x >>= f = pure b) :
    ∃ a, x = pure a ∧ f a = pure b := by
  change ExceptT.bind x f = _ at h
  cases x with
  | none => exact absurd h (fun h => nomatch h)
  | some result =>
      cases result with
      | error e => exact absurd h (fun h => nomatch h)
      | ok a => exact ⟨a, rfl, h⟩

theorem of_throw {e : Str} {b : β} (h : (throw e : Load β) = pure b) : False :=
  nomatch h

theorem of_none {b : β} (h : (ExceptT.mk none : Load β) = pure b) : False :=
  nomatch h

/-- What each step keeps, a run over a list keeps. -/
theorem of_foldlM {R : σ → σ → Prop} (hrefl : ∀ s, R s s)
    (htrans : ∀ s t u, R s t → R t u → R s u) {f : σ → α → Load σ}
    (hstep : ∀ s a t, f s a = pure t → R s t) (l : List α) {s t : σ}
    (h : l.foldlM f s = pure t) : R s t := by
  induction l generalizing s with
  | nil =>
      rw [List.foldlM_nil] at h
      rw [pure_inj h]
      exact hrefl t
  | cons a l ih =>
      rw [List.foldlM_cons] at h
      obtain ⟨u, hu, hrest⟩ := of_bind h
      exact htrans s u t (hstep s a u hu) (ih hrest)

end Load

end Ferron.Config
