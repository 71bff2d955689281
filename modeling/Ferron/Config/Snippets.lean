import Ferron.Config.LoadSimulation
import Ferron.Config.NestedBlocks

/-!
# Snippets

A `use` node stands for the nodes of a snippet. In the place of a `use` in a file the nodes of its
snippet may be written, unless the `use` stands right in an `error_config` block without a status code:
there it is taken for a directive, and the configurations differ (`loadsTo_expanded_iff`).

The two runs are compared with `Approximates`: with equality at all other places (`plug_approximates`),
and with a difference that stays once it is there at the places in such a block (`plug_diverge`).
-/

set_option autoImplicit false

namespace Ferron.Config

open Ferron.Common Ferron.Lib

/-! ## Places -/

/-- The blocks in a host whose nodes are loaded. -/
inductive BlockKind where
  | location
  | condition
  | ifBlock
  | ifNot
  | errorConfig

/-- The name of the node. -/
def BlockKind.name : BlockKind → Str
  | location => "location".toList
  | condition => "condition".toList
  | ifBlock => "if".toList
  | ifNot => "if_not".toList
  | errorConfig => "error_config".toList

/-- There is no argument among the entries. -/
def noArgument (entries : List KdlEntry) : Bool :=
  (entries.find? fun entry => entry.name.isNone).isNone

/-- A place in the block of a host: between two of its nodes, or inside a block between two of them. -/
inductive Place where
  | here (before after : KdlDocument)
  | inside (before after : KdlDocument) (kind : BlockKind) (entries : List KdlEntry) (inner : Place)

namespace Place

/-- The block of the host with the nodes at the place. -/
def plug (nodes : KdlDocument) : Place → KdlDocument
  | here before after => before ++ (nodes ++ after)
  | inside before after kind entries inner =>
      before ++ ([⟨kind.name, entries, some (inner.plug nodes)⟩] ++ after)

/-- There is no block around the place. -/
def isHere : Place → Bool
  | here _ _ => true
  | inside _ _ _ _ _ => false

/-- The place is right in an `error_config` block without a status code. -/
def inAnyErrorConfig : Place → Bool
  | here _ _ => false
  | inside _ _ .condition _ _ => false
  | inside _ _ .errorConfig entries inner =>
      if noArgument entries then inner.isHere else inner.inAnyErrorConfig
  | inside _ _ _ _ inner => inner.inAnyErrorConfig

variable {before after : KdlDocument} {kind : BlockKind} {entries : List KdlEntry} {inner : Place}

/-- For a block whose nodes are loaded it is the place in the block that counts. -/
theorem inAnyErrorConfig_inside (hcondition : kind ≠ .condition)
    (hargument : kind = .errorConfig → noArgument entries = false) :
    (inside before after kind entries inner).inAnyErrorConfig = inner.inAnyErrorConfig := by
  cases kind with
  | condition => exact absurd rfl hcondition
  | errorConfig => exact if_neg (by rw [hargument rfl]; exact Bool.noConfusion)
  | location => rfl
  | ifBlock => rfl
  | ifNot => rfl

theorem inAnyErrorConfig_of_noArgument (hargument : noArgument entries = true) :
    (inside before after .errorConfig entries inner).inAnyErrorConfig = inner.isHere :=
  if_pos hargument

end Place

section Nodes

variable {ctx : LoadingContext} {E D C : List Block → List Block → Prop}

theorem NodesApproximate.of_step
    {iterate iterate' : List Conditions → Bool → Loading → KdlNode → Load Loading} {node node' : KdlNode}
    (hstep : ∀ enclosing isErrorConfig s t, Loading.Related E s t →
      Approximates (Loading.Related D) (iterate enclosing isErrorConfig s node)
        (iterate' enclosing isErrorConfig t node')) :
    NodesApproximate E D iterate iterate' [node] [node'] := by
  intro enclosing isErrorConfig s t hst
  rw [List.foldlM_cons, List.foldlM_cons]
  exact Approximates.bind (hstep enclosing isErrorConfig s t hst) (fun _ _ h => .ok h)

/-- Nodes in the middle of a block. -/
theorem NodesApproximate.around (hE : KeptByPush E) (hD : KeptByPush D) {fuel k : Nat}
    {nodes nodes' : KdlDocument}
    (h : NodesApproximate E D (kdlIterateFn ctx fuel) (kdlIterateFn ctx (fuel + k)) nodes nodes')
    (before after : KdlDocument) :
    NodesApproximate E D (kdlIterateFn ctx fuel) (kdlIterateFn ctx (fuel + k))
      (before ++ (nodes ++ after)) (before ++ (nodes' ++ after)) := by
  intro enclosing isErrorConfig s t hst
  simp only [List.foldlM_append]
  apply Approximates.bind (kdlIterateFn_mono hE fuel k before enclosing isErrorConfig s t hst)
  intro s t hst
  apply Approximates.bind (h enclosing isErrorConfig s t hst)
  intro s t hst
  exact kdlIterateFn_mono hD fuel k after enclosing isErrorConfig s t hst

/-- The directives of a block do not tell the nodes in the blocks of it. -/
theorem foldl_addDirective_plug {place : Place} (hplace : place.isHere = false)
    (nodes nodes' : KdlDocument) :
    (place.plug nodes).foldl addDirective ∅ = (place.plug nodes').foldl addDirective ∅ := by
  cases place with
  | here => exact absurd hplace Bool.noConfusion
  | inside before after kind entries inner =>
      simp only [Place.plug, List.foldl_append]
      rfl

variable {nodes nodes' : KdlDocument} {k : Nat}

/-- A block whose nodes are loaded leads from one relation to the other when its nodes do. -/
theorem inside_approximates (hD : KeptByPush D) {fuel : Nat} {kind : BlockKind}
    {entries : List KdlEntry}
    (hiterate : kind ≠ .condition → (kind = .errorConfig → noArgument entries = false) →
      NodesApproximate E D (kdlIterateFn ctx fuel) (kdlIterateFn ctx (fuel + k)) nodes nodes')
    (hcondition : kind = .condition → (∀ blocks blocks', E blocks blocks' → D blocks blocks') ∧
      ConditionsApproximate ctx k nodes nodes')
    (hany : kind = .errorConfig → noArgument entries = true →
      ∀ enclosing blocks blocks', E blocks blocks' →
        D (blocks ++ [anyErrorBlock ctx enclosing nodes])
          (blocks' ++ [anyErrorBlock ctx enclosing nodes']))
    (enclosing : List Conditions) (isErrorConfig : Bool) {s t : Loading}
    (hst : Loading.Related E s t) :
    Approximates (Loading.Related D)
      (kdlIterateFn ctx (fuel + 1) enclosing isErrorConfig s ⟨kind.name, entries, some nodes⟩)
      (kdlIterateFn ctx (fuel + k + 1) enclosing isErrorConfig t ⟨kind.name, entries, some nodes'⟩) := by
  cases kind with
  | location =>
      have hinner := hiterate BlockKind.noConfusion BlockKind.noConfusion
      exact iterateLocation_approximates hD (.some hinner) hst
  | condition =>
      obtain ⟨hED, hinner⟩ := hcondition rfl
      exact (iterateCondition_approximates (.some hinner) hst).imp fun _ _ h => h.imp hED
  | ifBlock =>
      have hinner := hiterate BlockKind.noConfusion BlockKind.noConfusion
      exact iterateConditional_approximates hD (.some hinner) hst
  | ifNot =>
      have hinner := hiterate BlockKind.noConfusion BlockKind.noConfusion
      exact iterateConditional_approximates hD (.some hinner) hst
  | errorConfig =>
      cases hargument : noArgument entries with
      | true =>
          have hnone := Option.isNone_iff_eq_none.1 hargument
          exact iterateErrorConfig_any_approximates hnone (.some (hany rfl hargument enclosing)) hst
      | false =>
          have hinner := hiterate BlockKind.noConfusion (fun _ => hargument)
          have hsome : (entries.find? fun entry => entry.name.isNone) ≠ none := by
            intro hnone
            rw [noArgument, hnone] at hargument
            exact Bool.noConfusion hargument
          exact iterateErrorConfig_status_approximates hD hsome (.some hinner) hst

/-- In a condition the nodes at a place do as well as other ones that do so on their own. -/
theorem plug_conditionsApproximate (h : ConditionsApproximate ctx k nodes nodes') (place : Place) :
    ConditionsApproximate ctx (k + 2) (place.plug nodes) (place.plug nodes') := by
  cases place with
  | here before after => exact h.around before after
  | inside before after kind entries inner =>
      have hself : ConditionsApproximate ctx 0 [⟨kind.name, entries, some (inner.plug nodes)⟩]
          [⟨kind.name, entries, some (inner.plug nodes')⟩] := .of_children _ _ _ _
      have hmore := (hself.around before after).add k
      rwa [Nat.add_comm (0 + 2) k] at hmore

/-- Nodes that do as well as other ones on their own do so at every place, except where they are all
taken for directives. -/
theorem plug_approximates (hpush : KeptByPush C)
    (hiterate : ∀ fuel, NodesApproximate C C (kdlIterateFn ctx fuel)
      (kdlIterateFn ctx (fuel + (k + 2))) nodes nodes')
    (hconditions : ConditionsApproximate ctx k nodes nodes') (place : Place)
    (hplace : place.inAnyErrorConfig = false) (fuel : Nat) :
    NodesApproximate C C (kdlIterateFn ctx fuel) (kdlIterateFn ctx (fuel + (k + 2)))
      (place.plug nodes) (place.plug nodes') := by
  induction place generalizing fuel with
  | here before after => exact (hiterate fuel).around hpush hpush before after
  | inside before after kind entries inner ih =>
      apply NodesApproximate.around hpush hpush
      apply NodesApproximate.of_step
      intro enclosing isErrorConfig s t hst
      cases fuel with
      | zero => exact .outOfFuel _
      | succ fuel =>
          rw [Nat.add_right_comm fuel 1 (k + 2)]
          apply inside_approximates hpush ?_ ?_ ?_ enclosing isErrorConfig hst
          · intro hcondition hargument
            rw [Place.inAnyErrorConfig_inside hcondition hargument] at hplace
            exact ih hplace fuel
          · exact fun _ => ⟨fun _ _ h => h, plug_conditionsApproximate hconditions inner⟩
          · rintro rfl hargument enclosing blocks blocks' hblocks
            rw [Place.inAnyErrorConfig_of_noArgument hargument] at hplace
            rw [anyErrorBlock, anyErrorBlock, foldl_addDirective_plug hplace nodes nodes']
            exact hpush _ _ _ hblocks

/-- Nodes that are told from other ones when they are taken for directives are so at every place where
this happens. -/
theorem plug_diverge (hE : KeptByPush E) (hD : KeptByPush D)
    (hany : ∀ before after enclosing blocks blocks', E blocks blocks' →
      D (blocks ++ [anyErrorBlock ctx enclosing (before ++ (nodes ++ after))])
        (blocks' ++ [anyErrorBlock ctx enclosing (before ++ (nodes' ++ after))])) (place : Place)
    (hplace : place.inAnyErrorConfig = true) (fuel : Nat) :
    NodesApproximate E D (kdlIterateFn ctx fuel) (kdlIterateFn ctx (fuel + k))
      (place.plug nodes) (place.plug nodes') := by
  induction place generalizing fuel with
  | here before after => exact absurd hplace Bool.noConfusion
  | inside before after kind entries inner ih =>
      apply NodesApproximate.around hE hD
      apply NodesApproximate.of_step
      intro enclosing isErrorConfig s t hst
      cases fuel with
      | zero => exact .outOfFuel _
      | succ fuel =>
          rw [Nat.add_right_comm fuel 1 k]
          apply inside_approximates hD ?_ ?_ ?_ enclosing isErrorConfig hst
          · intro hcondition hargument
            rw [Place.inAnyErrorConfig_inside hcondition hargument] at hplace
            exact ih hplace fuel
          · rintro rfl
            exact absurd hplace Bool.noConfusion
          · rintro rfl hargument enclosing blocks blocks' hblocks
            rw [Place.inAnyErrorConfig_of_noArgument hargument] at hplace
            cases inner with
            | here front back => exact hany front back enclosing blocks blocks' hblocks
            | inside => exact absurd hplace Bool.noConfusion

end Nodes

/-! ## A `use` and its snippet -/

/-- The node is a `use` of the snippet with the name. -/
structure KdlNode.Uses (node : KdlNode) (snippetName : Str) : Prop where
  name : node.name = "use".toList
  firstString : node.firstString = some snippetName

section Uses

variable {ctx : LoadingContext} {useNode : KdlNode} {snippetName : Str} {snippet : KdlDocument}
  (huses : useNode.Uses snippetName) (hsnippet : ctx.snippets.lookup snippetName = some snippet)

include huses hsnippet

theorem findSnippet_of_uses : findSnippet ctx.snippets useNode = .ok snippet := by
  simp only [findSnippet, huses.firstString, hsnippet]

/-- A `use` takes one step more than the nodes of its snippet. -/
theorem foldlM_useNode (fuel : Nat) (enclosing : List Conditions) (isErrorConfig : Bool)
    (state : Loading) :
    [useNode].foldlM (kdlIterateFn ctx (fuel + 1) enclosing isErrorConfig) state =
      snippet.foldlM (kdlIterateFn ctx fuel enclosing isErrorConfig) state := by
  simp only [List.foldlM_cons, List.foldlM_nil, bind_pure]
  rw [kdlIterateFn, if_pos huses.name, iterateUse, findSnippet_of_uses huses hsnippet]
  rfl

theorem conditionData_useNode (conditionName : Str) (fuel : Nat) (stack : List KdlDocument)
    (tables : Nat) (data : List ConditionalData) :
    conditionData ctx conditionName (fuel + 1) ([useNode] :: stack) tables data =
      conditionData ctx conditionName fuel (snippet :: [] :: stack) tables data := by
  rw [conditionData, if_pos huses.name, findSnippet_of_uses huses hsnippet]
  rfl

variable {C : List Block → List Block → Prop}

/-- The nodes of the snippet do as well as the `use`. -/
theorem nodesApproximate_snippet (hpush : KeptByPush C) (fuel : Nat) :
    NodesApproximate C C (kdlIterateFn ctx fuel) (kdlIterateFn ctx (fuel + 4)) [useNode] snippet := by
  intro enclosing isErrorConfig s t hst
  cases fuel with
  | zero => exact .outOfFuel _
  | succ fuel =>
      rw [foldlM_useNode huses hsnippet]
      exact kdlIterateFn_mono hpush fuel 5 snippet enclosing isErrorConfig s t hst

theorem nodesApproximate_useNode (hpush : KeptByPush C) (fuel : Nat) :
    NodesApproximate C C (kdlIterateFn ctx fuel) (kdlIterateFn ctx (fuel + 4)) snippet [useNode] := by
  intro enclosing isErrorConfig s t hst
  rw [foldlM_useNode huses hsnippet]
  exact kdlIterateFn_mono hpush fuel 3 snippet enclosing isErrorConfig s t hst

theorem conditionsApproximate_snippet : ConditionsApproximate ctx 2 [useNode] snippet := by
  intro conditionName fuel stack tables data
  cases fuel with
  | zero => exact .outOfFuel _
  | succ fuel =>
      rw [conditionData_useNode huses hsnippet]
      have hconcat := @conditionData_concat ctx conditionName fuel snippet [] stack tables data
      rw [List.append_nil] at hconcat
      exact hconcat.trans_eq (conditionData_mono fuel 3 (snippet :: stack) tables data)

theorem conditionsApproximate_useNode : ConditionsApproximate ctx 2 snippet [useNode] := by
  intro conditionName fuel stack tables data
  rw [conditionData_useNode huses hsnippet]
  have hsplit := @conditionData_split ctx conditionName fuel snippet [] stack tables data
  rwa [List.append_nil] at hsplit

end Uses

/-! ## Directives -/

/-- The values of a directive. -/
def directiveValues (entries : HashMap Str ServerConfigurationEntries) (name : Str) :
    List ServerConfigurationEntry :=
  ((entries.lookup name).map fun present => present.inner).getD []

theorem directiveValues_addDirective (entries : HashMap Str ServerConfigurationEntries) (node : KdlNode)
    (name : Str) :
    directiveValues (addDirective entries node) name = directiveValues entries name ++
      if node.name = name then [kdlNodeToConfigurationEntry node] else [] := by
  rw [directiveValues, directiveValues, addDirective]
  by_cases hname : node.name = name
  · subst hname
    rw [if_pos rfl]
    cases hlookup : entries.lookup node.name with
    | none => simp only [AList.lookup_insert, Option.map_some, Option.map_none, Option.getD_some,
        Option.getD_none, List.nil_append]
    | some present => simp only [AList.lookup_insert, Option.map_some, Option.getD_some]
  · rw [if_neg hname, List.append_nil]
    have hother : name ≠ node.name := fun h => hname h.symm
    cases entries.lookup node.name with
    | none => simp only [AList.lookup_insert_ne hother]
    | some present => simp only [AList.lookup_insert_ne hother]

/-- The nodes with a name give the values of the directive. -/
theorem directiveValues_foldl (nodes : KdlDocument)
    (entries : HashMap Str ServerConfigurationEntries) (name : Str) :
    directiveValues (nodes.foldl addDirective entries) name = directiveValues entries name ++
      (nodes.filter fun node => node.name = name).map kdlNodeToConfigurationEntry := by
  induction nodes generalizing entries with
  | nil => exact (List.append_nil _).symm
  | cons node nodes ih =>
      rw [List.foldl_cons, ih, directiveValues_addDirective, List.append_assoc]
      by_cases hname : node.name = name
      · rw [if_pos hname, List.filter_cons_of_pos (by simpa using hname)]
        rfl
      · rw [if_neg hname, List.filter_cons_of_neg (by simpa using hname)]
        rfl

/-- The first argument of a node is the first value of the directive. -/
theorem firstString_eq_of_entry_eq {node node' : KdlNode}
    (h : kdlNodeToConfigurationEntry node = kdlNodeToConfigurationEntry node') :
    node.firstString = node'.firstString := by
  have hstring : ∀ node : KdlNode, node.firstString =
      (kdlNodeToConfigurationEntry node).values.head?.bind fun value => value.asStr := by
    intro node
    rw [KdlNode.firstString, KdlNode.firstArgument, ← List.head?_filter, kdlNodeToConfigurationEntry]
    cases node.entries.filter fun entry => entry.name.isNone with
    | nil => rfl
    | cons entry rest =>
        obtain ⟨name, value⟩ := entry
        cases value <;> rfl
  rw [hstring, hstring, h]

/-- A `use` that is taken for a directive is told from the nodes of a snippet that does not use
itself. -/
theorem anyErrorBlock_ne {ctx : LoadingContext} {useNode : KdlNode} {snippetName : Str}
    {snippet : KdlDocument} (huses : useNode.Uses snippetName)
    (hother : ∀ node ∈ snippet, ¬node.Uses snippetName) (before after : KdlDocument)
    (enclosing : List Conditions) :
    (anyErrorBlock ctx enclosing (before ++ ([useNode] ++ after))).configuration ≠
      (anyErrorBlock ctx enclosing (before ++ (snippet ++ after))).configuration := by
  intro hsame
  have hentries := congrArg (fun c => directiveValues c.entries "use".toList) hsame
  simp only [anyErrorBlock, directiveValues_foldl, List.filter_append, List.map_append,
    List.append_cancel_left_eq, List.append_cancel_right_eq] at hentries
  rw [List.filter_cons_of_pos (by simpa using huses.name), List.filter_nil, List.map_singleton]
    at hentries
  -- one node of the snippet would be a `use` with the same arguments
  have hmem : kdlNodeToConfigurationEntry useNode ∈
      (snippet.filter fun node => node.name = "use".toList).map kdlNodeToConfigurationEntry := by
    rw [← hentries]
    exact List.mem_singleton_self _
  obtain ⟨node, hnode, hentry⟩ := List.mem_map.1 hmem
  obtain ⟨hnode, hname⟩ := List.mem_filter.1 hnode
  exact hother node hnode
    ⟨of_decide_eq_true hname, (firstString_eq_of_entry_eq hentry).trans huses.firstString⟩

/-! ## Loaded lists that differ -/

/-- Two lists that agree up to a block, which has different configurations. -/
def Diverge (blocks blocks' : List Block) : Prop :=
  ∃ front b b' back back', blocks = front ++ b :: back ∧ blocks' = front ++ b' :: back' ∧
    b.configuration ≠ b'.configuration

namespace Diverge

variable {blocks blocks' : List Block}

theorem append (h : Diverge blocks blocks') (more more' : List Block) :
    Diverge (blocks ++ more) (blocks' ++ more') := by
  obtain ⟨front, b, b', back, back', rfl, rfl, hne⟩ := h
  exact ⟨front, b, b', back ++ more, back' ++ more', by rw [List.append_assoc, List.cons_append],
    by rw [List.append_assoc, List.cons_append], hne⟩

theorem prepend (front : List Block) (h : Diverge blocks blocks') :
    Diverge (front ++ blocks) (front ++ blocks') := by
  obtain ⟨front', b, b', back, back', rfl, rfl, hne⟩ := h
  exact ⟨front ++ front', b, b', back, back', by rw [List.append_assoc], by rw [List.append_assoc], hne⟩

/-- The configurations are not the same. -/
theorem map_configuration_ne (h : Diverge blocks blocks') :
    blocks.map Block.configuration ≠ blocks'.map Block.configuration := by
  obtain ⟨front, b, b', back, back', rfl, rfl, hne⟩ := h
  intro hsame
  rw [List.map_append, List.map_append, List.append_cancel_left_eq, List.map_cons, List.map_cons,
    List.cons.injEq] at hsame
  exact hne hsame.1

/-- Lists that are equal or diverge, and lists that diverge. -/
theorem blockRelations :
    BlockRelations (fun blocks blocks' => blocks = blocks' ∨ Diverge blocks blocks') Diverge where
  refl _ := Or.inl rfl
  weaker _ _ h := Or.inr h
  append := by
    rintro front front' back back' (rfl | hfront) (rfl | hback)
    · exact Or.inl rfl
    · exact Or.inr (hback.prepend front)
    · exact Or.inr (hfront.append back back)
    · exact Or.inr (hfront.append back back')
  append_left := fun _ _ back back' hfront _ => hfront.append back back'

/-- Two configurations that differ, behind lists that are equal or diverge. -/
theorem of_ne {b b' : Block} (hne : b.configuration ≠ b'.configuration)
    (h : blocks = blocks' ∨ Diverge blocks blocks') : Diverge (blocks ++ [b]) (blocks' ++ [b']) := by
  rcases h with rfl | h
  · exact ⟨blocks, b, b', [], [], rfl, rfl, hne⟩
  · exact h.append [b] [b']

end Diverge

/-! ## Files -/

/-- The snippets that the nodes of a file define. -/
def definedSnippets (document : KdlDocument) : HashMap Str KdlDocument :=
  document.foldl defineSnippet ∅

/-- A file with a `use` in one of its hosts. The snippet is defined before and does not use itself. -/
structure SnippetUse where
  front : KdlDocument
  hostName : Str
  hostEntries : List KdlEntry
  place : Place
  back : KdlDocument
  useNode : KdlNode
  snippetName : Str
  snippet : KdlDocument
  hostName_ne : hostName ≠ "snippet".toList
  uses : useNode.Uses snippetName
  defined : (definedSnippets front).lookup snippetName = some snippet
  not_uses_itself : ∀ node ∈ snippet, ¬node.Uses snippetName

namespace SnippetUse

/-- The file with these nodes at the place. -/
def fileWith (u : SnippetUse) (nodes : KdlDocument) : KdlDocument :=
  u.front ++ ⟨u.hostName, u.hostEntries, some (u.place.plug nodes)⟩ :: u.back

/-- The file. -/
def document (u : SnippetUse) : KdlDocument := u.fileWith [u.useNode]

/-- The file with the nodes of the snippet in the place of the `use`. -/
def expanded (u : SnippetUse) : KdlDocument := u.fileWith u.snippet

variable (u : SnippetUse) {env : Environment}

theorem lookup_snippet {ctx : LoadingContext} (hctx : ctx.snippets = u.front.foldl defineSnippet ∅) :
    ctx.snippets.lookup u.snippetName = some u.snippet := by
  rw [hctx]
  exact u.defined

/-- Outside an `error_config` block without a status code the two files do equally well. -/
theorem documentApproximates_expanded (hplace : u.place.inAnyErrorConfig = false) :
    DocumentApproximates env (· = ·) (· = ·) 4 u.document u.expanded := by
  apply DocumentApproximates.of_host .eq u.hostName_ne
  intro ctx hctx fuel
  have hsnippet := u.lookup_snippet hctx
  exact plug_approximates keptByPush_eq (nodesApproximate_snippet u.uses hsnippet keptByPush_eq)
    (conditionsApproximate_snippet u.uses hsnippet) u.place hplace fuel

theorem documentApproximates_document (hplace : u.place.inAnyErrorConfig = false) :
    DocumentApproximates env (· = ·) (· = ·) 4 u.expanded u.document := by
  apply DocumentApproximates.of_host .eq u.hostName_ne
  intro ctx hctx fuel
  have hsnippet := u.lookup_snippet hctx
  exact plug_approximates keptByPush_eq (nodesApproximate_useNode u.uses hsnippet keptByPush_eq)
    (conditionsApproximate_useNode u.uses hsnippet) u.place hplace fuel

variable (env) in
/-- In such a block the two files are both loaded or both rejected, and the loaded lists diverge. -/
theorem documentApproximates_diverge (hplace : u.place.inAnyErrorConfig = true) (k : Nat) :
    DocumentApproximates env (fun blocks blocks' => blocks = blocks' ∨ Diverge blocks blocks') Diverge
        k u.document u.expanded ∧
      DocumentApproximates env (fun blocks blocks' => blocks = blocks' ∨ Diverge blocks blocks') Diverge
        k u.expanded u.document := by
  have hrelations := Diverge.blockRelations
  constructor
  · apply DocumentApproximates.of_host hrelations u.hostName_ne
    intro ctx hctx fuel
    apply plug_diverge hrelations.same.keptByPush hrelations.keptByPush ?_ u.place hplace fuel
    intro before after enclosing blocks blocks' hblocks
    exact Diverge.of_ne (anyErrorBlock_ne u.uses u.not_uses_itself before after enclosing) hblocks
  · apply DocumentApproximates.of_host hrelations u.hostName_ne
    intro ctx hctx fuel
    apply plug_diverge hrelations.same.keptByPush hrelations.keptByPush ?_ u.place hplace fuel
    intro before after enclosing blocks blocks' hblocks
    exact Diverge.of_ne (anyErrorBlock_ne u.uses u.not_uses_itself before after enclosing).symm hblocks

end SnippetUse

/-- The list of configurations that is loaded from a file. -/
def LoadsTo (env : Environment) (path : PathBuf) (configurations : List ServerConfiguration) : Prop :=
  ∃ blocks, Loads env path blocks ∧ blocks.map Block.configuration = configurations

section Loads

variable {env : Environment} {E D : List Block → List Block → Prop} {k : Nat} {path : PathBuf}
  {contents contents' : Str} {document document' : KdlDocument} {blocks blocks' : List Block}

theorem loadConfiguration_approximates (hrelations : BlockRelations E D)
    (hdocument : env.parseKdl contents = .ok document)
    (hdocument' : env.parseKdl contents' = .ok document')
    (happroximates : DocumentApproximates env E D k document document') (path : PathBuf) (fuel : Nat) :
    Approximates D (loadConfiguration (env.withFile path contents) fuel path)
      (loadConfiguration (env.withFile path contents') (fuel + k) path) := by
  rw [loadConfiguration, loadConfiguration]
  apply Approximates.bind
    (loadConfigurationInner_approximates hrelations hdocument hdocument' happroximates fuel path [] 0)
  intro result result' h
  exact .ok (h.2.2 rfl)

/-- What is loaded from one file has its like in what is loaded from the other one. -/
theorem exists_loads (hrelations : BlockRelations E D) (hdocument : env.parseKdl contents = .ok document)
    (hdocument' : env.parseKdl contents' = .ok document')
    (happroximates : DocumentApproximates env E D k document document')
    (hloads : Loads (env.withFile path contents) path blocks) :
    ∃ blocks', Loads (env.withFile path contents') path blocks' ∧ D blocks blocks' := by
  obtain ⟨fuel, hfuel⟩ := hloads
  have hload := loadConfiguration_approximates hrelations hdocument hdocument' happroximates path fuel
  rw [hfuel] at hload
  obtain ⟨blocks', hblocks', hD⟩ := hload.of_pure
  exact ⟨blocks', ⟨fuel + k, hblocks'⟩, hD⟩

/-- No two lists are loaded from a file. -/
theorem loads_unique (hdocument : env.parseKdl contents = .ok document)
    (hblocks : Loads (env.withFile path contents) path blocks)
    (hblocks' : Loads (env.withFile path contents) path blocks') : blocks = blocks' := by
  obtain ⟨fuel, hfuel⟩ := hblocks
  obtain ⟨fuel', hfuel'⟩ := hblocks'
  have hmore : ∀ n k bs, loadConfiguration (env.withFile path contents) n path = pure bs →
      loadConfiguration (env.withFile path contents) (n + k) path = pure bs := by
    intro n k bs hload
    have hsame := loadConfiguration_approximates .eq hdocument hdocument
      (.same (k := k) .eq document) path n
    rw [hload] at hsame
    obtain ⟨_, hpure, rfl⟩ := hsame.of_pure
    exact hpure
  have h := hmore fuel fuel' blocks hfuel
  rw [Nat.add_comm, hmore fuel' fuel blocks' hfuel'] at h
  exact (Load.pure_inj h).symm

end Loads

/-- A file is loaded with the nodes of a snippet just when it is loaded with the `use`. The same
configurations are loaded from both exactly when the `use` is not right in an `error_config` block
without a status code. -/
theorem loadsTo_expanded_iff (u : SnippetUse) {env : Environment} {path : PathBuf}
    {contents expandedContents : Str} (hcontents : env.parseKdl contents = .ok u.document)
    (hexpanded : env.parseKdl expandedContents = .ok u.expanded) :
    ((∃ configurations, LoadsTo (env.withFile path contents) path configurations) ↔
        ∃ configurations, LoadsTo (env.withFile path expandedContents) path configurations) ∧
      ∀ configurations, LoadsTo (env.withFile path contents) path configurations →
        (LoadsTo (env.withFile path expandedContents) path configurations ↔
          u.place.inAnyErrorConfig = false) := by
  cases hplace : u.place.inAnyErrorConfig with
  | false =>
      have hforth : ∀ configurations, LoadsTo (env.withFile path contents) path configurations →
          LoadsTo (env.withFile path expandedContents) path configurations := by
        rintro _ ⟨blocks, hblocks, rfl⟩
        obtain ⟨_, hloads, rfl⟩ := exists_loads .eq hcontents hexpanded
          (u.documentApproximates_expanded hplace) hblocks
        exact ⟨blocks, hloads, rfl⟩
      have hback : ∀ configurations, LoadsTo (env.withFile path expandedContents) path configurations →
          LoadsTo (env.withFile path contents) path configurations := by
        rintro _ ⟨blocks, hblocks, rfl⟩
        obtain ⟨_, hloads, rfl⟩ := exists_loads .eq hexpanded hcontents
          (u.documentApproximates_document hplace) hblocks
        exact ⟨blocks, hloads, rfl⟩
      refine ⟨⟨fun ⟨c, h⟩ => ⟨c, hforth c h⟩, fun ⟨c, h⟩ => ⟨c, hback c h⟩⟩, ?_⟩
      exact fun configurations h => ⟨fun _ => rfl, fun _ => hforth configurations h⟩
  | true =>
      obtain ⟨hexpand, hcontract⟩ := u.documentApproximates_diverge env hplace 0
      constructor
      · constructor
        · rintro ⟨_, blocks, hblocks, rfl⟩
          obtain ⟨blocks', hloads, -⟩ := exists_loads Diverge.blockRelations hcontents hexpanded hexpand
            hblocks
          exact ⟨_, blocks', hloads, rfl⟩
        · rintro ⟨_, blocks, hblocks, rfl⟩
          obtain ⟨blocks', hloads, -⟩ := exists_loads Diverge.blockRelations hexpanded hcontents hcontract
            hblocks
          exact ⟨_, blocks', hloads, rfl⟩
      · rintro _ ⟨blocks, hblocks, rfl⟩
        obtain ⟨blocks', hloads, hdiverge⟩ := exists_loads Diverge.blockRelations hcontents hexpanded
          hexpand hblocks
        refine ⟨?_, fun h => absurd h Bool.noConfusion⟩
        rintro ⟨blocks'', hloads', hsame⟩
        rw [loads_unique hexpanded hloads' hloads] at hsame
        exact absurd hsame.symm hdiverge.map_configuration_ne

/-- A file whose snippet sets the root, with a `use` at a place in its host. -/
def rootUse (place : Place) : SnippetUse where
  front := [⟨"snippet".toList, [⟨none, .string "S".toList⟩], some [textDirective "root" "/r"]⟩]
  hostName := "host".toList
  hostEntries := []
  place := place
  back := []
  useNode := textDirective "use" "S"
  snippetName := "S".toList
  snippet := [textDirective "root" "/r"]
  hostName_ne := by decide
  uses := ⟨rfl, rfl⟩
  defined := rfl
  not_uses_itself := by
    rintro node hnode ⟨hname, -⟩
    rw [List.mem_singleton.1 hnode] at hname
    exact absurd hname (by decide)

/-- The place in an error configuration with these entries. -/
def errorConfigPlace (entries : List KdlEntry) : Place :=
  .inside [] [] .errorConfig entries (.here [] [])

/-- An environment where the text `use` is parsed to the file, and other ones to the expanded file. -/
def snippetEnvironment (u : SnippetUse) : Environment :=
  { documentEnvironment [] with
    parseKdl := fun text => if text = "use".toList then .ok u.document else .ok u.expanded }

/-- The configurations of a host with an error configuration that sets a directive. -/
def errorConfigurations (status : ErrorHandlerStatus) (name text : String) :
    List ServerConfiguration :=
  let host : HostFilter := ⟨some "host".toList, none, none, true⟩
  [⟨AList.insert name.toList (textEntries text.toList) ∅, host.filters none (some status)⟩,
    ⟨∅, host.filters none none⟩]

/-- With a status code the root is set, and it is so in the expanded file. -/
theorem loadsTo_expanded_iff_notFound :
    LoadsTo ((snippetEnvironment (rootUse (errorConfigPlace [⟨none, .integer 404⟩]))).withFile
        "ferron.kdl".toList []) "ferron.kdl".toList
      (errorConfigurations (.status 404) "root" "/r") := by
  have hloads : LoadsTo ((snippetEnvironment (rootUse (errorConfigPlace
        [⟨none, .integer 404⟩]))).withFile "ferron.kdl".toList "use".toList) "ferron.kdl".toList
      (errorConfigurations (.status 404) "root" "/r") :=
    ⟨_, ⟨5, rfl⟩, rfl⟩
  exact ((loadsTo_expanded_iff (rootUse (errorConfigPlace [⟨none, .integer 404⟩])) rfl rfl).2 _
    hloads).2 rfl

/-- Without one the directive `use` is set, where the expanded file sets the root. -/
theorem errorConfig_loadsTo_use :
    LoadsTo ((snippetEnvironment (rootUse (errorConfigPlace []))).withFile
        "ferron.kdl".toList "use".toList) "ferron.kdl".toList
      (errorConfigurations .any "use" "S") ∧
    LoadsTo ((snippetEnvironment (rootUse (errorConfigPlace []))).withFile
        "ferron.kdl".toList []) "ferron.kdl".toList
      (errorConfigurations .any "root" "/r") ∧
    ¬LoadsTo ((snippetEnvironment (rootUse (errorConfigPlace []))).withFile
        "ferron.kdl".toList []) "ferron.kdl".toList
      (errorConfigurations .any "use" "S") := by
  have hexpanded : LoadsTo ((snippetEnvironment (rootUse (errorConfigPlace []))).withFile
        "ferron.kdl".toList []) "ferron.kdl".toList
      (errorConfigurations .any "root" "/r") :=
    ⟨_, ⟨5, rfl⟩, rfl⟩
  refine ⟨⟨_, ⟨5, rfl⟩, rfl⟩, hexpanded, ?_⟩
  rintro ⟨blocks, hblocks, hsame⟩
  obtain ⟨blocks', hblocks', hsame'⟩ := hexpanded
  have hparsed : (snippetEnvironment (rootUse (errorConfigPlace []))).parseKdl [] =
      .ok (rootUse (errorConfigPlace [])).expanded := rfl
  rw [loads_unique hparsed hblocks hblocks', hsame'] at hsame
  have hset := congrArg (fun cs : List ServerConfiguration =>
    cs.head?.map fun c => (c.entries.lookup "use".toList).isSome) hsame
  exact absurd hset (by decide)

end Ferron.Config
