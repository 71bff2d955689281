import Ferron.Config.LoadSimulation
import Ferron.Lib.Expansion

/-!
# The uses of snippets

Whether the loader ends with the nodes of a host block depends on the snippets, on the places of the nodes
and on the names of the conditions that are defined. `snippetSystem` keeps these only, and goes through the
nodes of a condition like through those of a block, where the loader has a stack of lists.

`foldlM_kdlIterateFn_ne_none_iff` says that the loader ends with the nodes of a host block exactly when on its
way through them no snippet is used again within its own nodes, in the same place.
-/

set_option autoImplicit false

namespace Ferron.Config

open Ferron.Common Ferron.Lib Ferron.Lib.Expansion

/-! ## Places and names -/

/-- Where a node stands: in a block, which may be within a location or a conditional block and within an
error configuration, or in a condition. -/
inductive NodePlace where
  | block (inBlock isErrorConfig : Bool)
  | condition
  deriving DecidableEq

instance : Fintype NodePlace where
  elems := {.block false false, .block false true, .block true false, .block true true, .condition}
  complete
    | .block false false => by decide
    | .block false true => by decide
    | .block true false => by decide
    | .block true true => by decide
    | .condition => by decide

/-- The names of the conditions that are defined. -/
def definedConditions (state : Loading) : Finset Str := state.loadedConditions.keys.toFinset

theorem mem_definedConditions {state : Loading} {name : Str} :
    name ∈ definedConditions state ↔ (state.loadedConditions.lookup name).isSome = true := by
  rw [definedConditions, List.mem_toFinset, ← AList.mem_keys, AList.lookup_isSome]

/-- The nodes of a block that a node has, if it has such a header. -/
def headerVisit (ctx : LoadingContext) (node : KdlNode)
    (visit : KdlDocument → Str → Visit NodePlace (Finset Str) KdlNode Str) :
    Visit NodePlace (Finset Str) KdlNode Str :=
  match blockHeader ctx node with
  | .error _ => .fail
  | .ok (children, text) => visit children text

/-- What a node does in a block. -/
def visitInBlock (ctx : LoadingContext) (inBlock isErrorConfig : Bool) (names : Finset Str)
    (node : KdlNode) : Visit NodePlace (Finset Str) KdlNode Str :=
  if node.name = "location".toList then
    if isErrorConfig then .fail
    else if inBlock then .fail
    else headerVisit ctx node fun children _ => .block (.block true isErrorConfig) children names
  else if node.name = "condition".toList then
    if isErrorConfig then .fail
    else headerVisit ctx node fun children conditionName =>
      .block .condition children (insert conditionName names)
  else if node.name = "if".toList ∨ node.name = "if_not".toList then
    if isErrorConfig then .fail
    else headerVisit ctx node fun children conditionName =>
      if conditionName ∈ names then .block (.block true isErrorConfig) children names else .fail
  else if node.name = "error_config".toList then
    if isErrorConfig then .fail
    else
      match node.children with
      | none => .fail
      | some children =>
          match node.firstArgument with
          | none => .leaf names
          | some errorStatusCode =>
              match errorStatusCode.value.asInteger with
              | none => .fail
              | some _ => .block (.block inBlock true) children names
  else .leaf names

/-- What a node does in a condition. -/
def visitInCondition (ctx : LoadingContext) (names : Finset Str) (node : KdlNode) :
    Visit NodePlace (Finset Str) KdlNode Str :=
  match parseConditionalData ctx.libraries 0 node.name (kdlNodeToConfigurationEntry node) with
  | .ok _ => .leaf names
  | .error _ => .fail

/-- The name of the snippet that a node uses, if it is defined. -/
def visitUse (ctx : LoadingContext) (node : KdlNode) : Visit NodePlace (Finset Str) KdlNode Str :=
  match node.firstString with
  | none => .fail
  | some snippetName =>
      match ctx.snippets.lookup snippetName with
      | none => .fail
      | some _ => .use snippetName

/-- What the loader does with the nodes of a host block, without what it loads. -/
def snippetSystem (ctx : LoadingContext) : System NodePlace (Finset Str) KdlNode Str where
  visit place names node :=
    if node.name = "use".toList then visitUse ctx node
    else
      match place with
      | .block inBlock isErrorConfig => visitInBlock ctx inBlock isErrorConfig names node
      | .condition => visitInCondition ctx names node
  body snippetName := (ctx.snippets.lookup snippetName).getD []

section System

variable (ctx : LoadingContext)

/-- What a node can do: it fails, or it changes no names, or its nodes are those of a block or a condition,
which may define a name, or it uses a snippet. More names leave it at that. -/
inductive VisitSpec (place : NodePlace) (names : Finset Str) (node : KdlNode) : Prop where
  | fail (h : (snippetSystem ctx).visit place names node = .fail)
  | leaf (h : ∀ names', (snippetSystem ctx).visit place names' node = .leaf names')
  | block (inner : NodePlace) (children : KdlDocument) (added : Finset Str)
      (hchildren : node.children = some children)
      (h : ∀ names', names ⊆ names' →
        (snippetSystem ctx).visit place names' node = .block inner children (added ∪ names'))
  | use (snippetName : Str) (hname : node.name = "use".toList)
      (hstring : node.firstString = some snippetName)
      (hsnippet : (ctx.snippets.lookup snippetName).isSome = true)
      (h : ∀ place' names', (snippetSystem ctx).visit place' names' node = .use snippetName)

variable {ctx}

theorem children_of_blockHeader_ok {node : KdlNode} {children : KdlDocument} {text : Str}
    (h : blockHeader ctx node = .ok (children, text)) : node.children = some children := by
  unfold blockHeader at h
  cases hchildren : node.children with
  | none =>
      rw [hchildren] at h
      cases h
  | some nodes =>
      rw [hchildren] at h
      dsimp only at h
      split at h
      · cases h
      · split at h
        · cases h
        · rw [(Prod.mk.inj (Except.ok.inj h)).1]

theorem visitInBlock_spec {inBlock isErrorConfig : Bool} {names : Finset Str} {node : KdlNode}
    (huse : node.name ≠ "use".toList) :
    VisitSpec ctx (.block inBlock isErrorConfig) names node := by
  have hvisit : ∀ names', (snippetSystem ctx).visit (.block inBlock isErrorConfig) names' node =
      visitInBlock ctx inBlock isErrorConfig names' node := fun _ => if_neg huse
  by_cases hlocation : node.name = "location".toList
  · simp only [visitInBlock, if_pos hlocation, headerVisit] at hvisit
    cases isErrorConfig with
    | true => exact .fail (hvisit names)
    | false =>
        cases inBlock with
        | true => exact .fail (hvisit names)
        | false =>
            cases hheader : blockHeader ctx node with
            | error e => exact .fail (by rw [hvisit, hheader]; rfl)
            | ok header =>
                refine .block (.block true false) header.1 ∅ (children_of_blockHeader_ok hheader) ?_
                intro names' _
                rw [hvisit, hheader, Finset.empty_union]
                rfl
  · by_cases hcondition : node.name = "condition".toList
    · simp only [visitInBlock, if_neg hlocation, if_pos hcondition, headerVisit] at hvisit
      cases isErrorConfig with
      | true => exact .fail (hvisit names)
      | false =>
          cases hheader : blockHeader ctx node with
          | error e => exact .fail (by rw [hvisit, hheader]; rfl)
          | ok header =>
              refine .block .condition header.1 {header.2} (children_of_blockHeader_ok hheader) ?_
              intro names' _
              rw [hvisit, hheader, ← Finset.insert_eq]
              rfl
    · by_cases hif : node.name = "if".toList ∨ node.name = "if_not".toList
      · simp only [visitInBlock, if_neg hlocation, if_neg hcondition, if_pos hif, headerVisit] at hvisit
        cases isErrorConfig with
        | true => exact .fail (hvisit names)
        | false =>
            cases hheader : blockHeader ctx node with
            | error e => exact .fail (by rw [hvisit, hheader]; rfl)
            | ok header =>
                by_cases hdefined : header.2 ∈ names
                · refine .block (.block true false) header.1 ∅ (children_of_blockHeader_ok hheader) ?_
                  intro names' hsub
                  rw [hvisit, hheader, Finset.empty_union]
                  exact if_pos (hsub hdefined)
                · refine .fail ?_
                  rw [hvisit, hheader]
                  exact if_neg hdefined
      · by_cases herror : node.name = "error_config".toList
        · simp only [visitInBlock, if_neg hlocation, if_neg hcondition, if_neg hif, if_pos herror] at hvisit
          cases isErrorConfig with
          | true => exact .fail (hvisit names)
          | false =>
              cases hchildren : node.children with
              | none => exact .fail (by rw [hvisit, hchildren]; rfl)
              | some children =>
                  cases hargument : node.firstArgument with
                  | none =>
                      refine .leaf fun names' => ?_
                      rw [hvisit, hchildren, hargument]
                      rfl
                  | some errorStatusCode =>
                      cases hcode : errorStatusCode.value.asInteger with
                      | none =>
                          refine .fail ?_
                          rw [hvisit, hchildren, hargument]
                          dsimp only
                          rw [hcode]
                          rfl
                      | some code =>
                          refine .block (.block inBlock true) children ∅ hchildren ?_
                          intro names' _
                          rw [hvisit, hchildren, hargument, Finset.empty_union]
                          dsimp only
                          rw [hcode]
                          rfl
        · refine .leaf fun names' => ?_
          rw [hvisit, visitInBlock, if_neg hlocation, if_neg hcondition, if_neg hif, if_neg herror]

theorem visit_spec (place : NodePlace) (names : Finset Str) (node : KdlNode) :
    VisitSpec ctx place names node := by
  by_cases huse : node.name = "use".toList
  · have hvisit : ∀ place' names', (snippetSystem ctx).visit place' names' node = visitUse ctx node :=
      fun _ _ => if_pos huse
    cases hstring : node.firstString with
    | none => exact .fail (by rw [hvisit, visitUse, hstring])
    | some snippetName =>
        cases hsnippet : ctx.snippets.lookup snippetName with
        | none =>
            refine .fail ?_
            rw [hvisit, visitUse, hstring]
            dsimp only
            rw [hsnippet]
        | some snippet =>
            refine .use snippetName huse hstring (by rw [hsnippet]; rfl) fun place' names' => ?_
            rw [hvisit, visitUse, hstring]
            dsimp only
            rw [hsnippet]
  · cases place with
    | block inBlock isErrorConfig => exact visitInBlock_spec huse
    | condition =>
        have hvisit : ∀ names', (snippetSystem ctx).visit .condition names' node =
            visitInCondition ctx names' node := fun _ => if_neg huse
        cases hparse : parseConditionalData ctx.libraries 0 node.name
            (kdlNodeToConfigurationEntry node) with
        | ok d => exact .leaf fun names' => by rw [hvisit, visitInCondition, hparse]
        | error e => exact .fail (by rw [hvisit, visitInCondition, hparse])

/-- More names take away no success. -/
theorem grows_snippetSystem : (snippetSystem ctx).Grows where
  leaf_le {place names node after} h := by
    cases @visit_spec ctx place names node with
    | fail h' => rw [h'] at h; cases h
    | leaf h' => rw [h'] at h; cases h; exact le_rfl
    | block _ _ _ _ h' => rw [h' names subset_rfl] at h; cases h
    | use _ _ _ _ h' => rw [h'] at h; cases h
  block_le {place names node inner nodes after} h := by
    cases @visit_spec ctx place names node with
    | fail h' => rw [h'] at h; cases h
    | leaf h' => rw [h'] at h; cases h
    | block _ _ _ _ h' =>
        rw [h' names subset_rfl] at h
        cases h
        exact Finset.subset_union_right
    | use _ _ _ _ h' => rw [h'] at h; cases h
  leaf {place names node after names'} h hle := by
    cases @visit_spec ctx place names node with
    | fail h' => rw [h'] at h; cases h
    | leaf h' => rw [h'] at h; cases h; exact ⟨names', h' names', hle⟩
    | block _ _ _ _ h' => rw [h' names subset_rfl] at h; cases h
    | use _ _ _ _ h' => rw [h'] at h; cases h
  block {place names node inner nodes after names'} h hle := by
    cases @visit_spec ctx place names node with
    | fail h' => rw [h'] at h; cases h
    | leaf h' => rw [h'] at h; cases h
    | block _ _ added _ h' =>
        rw [h' names subset_rfl] at h
        cases h
        exact ⟨_, h' names' hle, Finset.union_subset_union_right hle⟩
    | use _ _ _ _ h' => rw [h'] at h; cases h
  use {place names node name names'} h _ := by
    cases @visit_spec ctx place names node with
    | fail h' => rw [h'] at h; cases h
    | leaf h' => rw [h'] at h; cases h
    | block _ _ _ _ h' => rw [h' names subset_rfl] at h; cases h
    | use _ _ _ _ h' => rw [h'] at h ⊢; exact h

variable (ctx)

/-- The nodes of a node are smaller, and only defined snippets are used. -/
noncomputable def boundedSnippetSystem : (snippetSystem ctx).Bounded where
  size := sizeOf
  size_lt {place names node inner nodes after} h n hn := by
    cases @visit_spec ctx place names node with
    | fail h' => rw [h'] at h; cases h
    | leaf h' => rw [h'] at h; cases h
    | block _ children _ hchildren h' =>
        rw [h' names subset_rfl] at h
        cases h
        obtain ⟨name, entries, nodeChildren⟩ := node
        cases hchildren
        have hmem := List.sizeOf_lt_of_mem hn
        simp only [KdlNode.mk.sizeOf_spec, Option.some.sizeOf_spec]
        omega
    | use _ _ _ _ h' => rw [h'] at h; cases h
  names := ctx.snippets.keys.toFinset
  mem_names {place names node name} h := by
    cases @visit_spec ctx place names node with
    | fail h' => rw [h'] at h; cases h
    | leaf h' => rw [h'] at h; cases h
    | block _ _ _ _ h' => rw [h' names subset_rfl] at h; cases h
    | use snippetName _ _ hsnippet h' =>
        rw [h'] at h
        cases h
        rw [List.mem_toFinset, ← AList.mem_keys]
        exact AList.lookup_isSome.1 hsnippet

end System

section Use

variable {ctx : LoadingContext} {node : KdlNode} (huse : node.name = "use".toList)

include huse

theorem visit_use_of_error {e : Str} (h : findSnippet ctx.snippets node = .error e) (place : NodePlace)
    (names : Finset Str) : (snippetSystem ctx).visit place names node = .fail := by
  rw [show (snippetSystem ctx).visit place names node = visitUse ctx node from if_pos huse, visitUse]
  rw [findSnippet] at h
  cases hstring : node.firstString with
  | none => rfl
  | some snippetName =>
      rw [hstring] at h
      dsimp only at h ⊢
      cases hsnippet : ctx.snippets.lookup snippetName with
      | none => rfl
      | some snippet =>
          rw [hsnippet] at h
          cases h

theorem visit_use_of_ok {snippet : KdlDocument} (h : findSnippet ctx.snippets node = .ok snippet)
    (place : NodePlace) (names : Finset Str) :
    ∃ snippetName, (snippetSystem ctx).visit place names node = .use snippetName ∧
      (snippetSystem ctx).body snippetName = snippet := by
  rw [show (snippetSystem ctx).visit place names node = visitUse ctx node from if_pos huse, visitUse]
  rw [findSnippet] at h
  cases hstring : node.firstString with
  | none =>
      rw [hstring] at h
      cases h
  | some snippetName =>
      rw [hstring] at h
      dsimp only at h ⊢
      cases hsnippet : ctx.snippets.lookup snippetName with
      | none =>
          rw [hsnippet] at h
          cases h
      | some found =>
          rw [hsnippet] at h
          cases h
          refine ⟨snippetName, rfl, ?_⟩
          change (ctx.snippets.lookup snippetName).getD [] = snippet
          rw [hsnippet, Option.getD_some]

theorem run_use_of_error {e : Str} (h : findSnippet ctx.snippets node = .error e) (fuel : Nat)
    (place : NodePlace) (names : Finset Str) :
    (snippetSystem ctx).run (fuel + 1) place names node = throw () := by
  rw [System.run, visit_use_of_error huse h]

theorem run_use_of_ok {snippet : KdlDocument} (h : findSnippet ctx.snippets node = .ok snippet)
    (fuel : Nat) (place : NodePlace) (names : Finset Str) :
    (snippetSystem ctx).run (fuel + 1) place names node =
      snippet.foldlM ((snippetSystem ctx).run fuel place) names := by
  obtain ⟨snippetName, hvisit, rfl⟩ := visit_use_of_ok huse h place names
  rw [System.run, hvisit]

end Use

/-! ## The nodes of a condition -/

/-- The address lists of a subcondition are not errors, so the number of its table does not matter. -/
theorem parseConditionalData_table (libraries : Libraries) (table table' : Nat) (name : Str)
    (value : ServerConfigurationEntry) :
    (∃ e, parseConditionalData libraries table name value = .error e ∧
      parseConditionalData libraries table' name value = .error e) ∨
    ∃ d d', parseConditionalData libraries table name value = .ok d ∧
      parseConditionalData libraries table' name value = .ok d' := by
  by_cases hremote : name = "is_remote_ip".toList
  · exact Or.inr ⟨_, _, if_pos hremote, if_pos hremote⟩
  · by_cases hforwarded : name = "is_forwarded_for".toList
    · exact Or.inr ⟨_, _, (if_neg hremote).trans (if_pos hforwarded),
        (if_neg hremote).trans (if_pos hforwarded)⟩
    · by_cases hnotRemote : name = "is_not_remote_ip".toList
      · exact Or.inr ⟨_, _, (if_neg hremote).trans ((if_neg hforwarded).trans (if_pos hnotRemote)),
          (if_neg hremote).trans ((if_neg hforwarded).trans (if_pos hnotRemote))⟩
      · by_cases hnotForwarded : name = "is_not_forwarded_for".toList
        · exact Or.inr ⟨_, _, (if_neg hremote).trans ((if_neg hforwarded).trans
            ((if_neg hnotRemote).trans (if_pos hnotForwarded))), (if_neg hremote).trans
            ((if_neg hforwarded).trans ((if_neg hnotRemote).trans (if_pos hnotForwarded)))⟩
        · have hsame : parseConditionalData libraries table name value =
              parseConditionalData libraries table' name value := by
            rw [parseConditionalData, if_neg hremote, if_neg hforwarded, if_neg hnotRemote,
              if_neg hnotForwarded, parseConditionalData, if_neg hremote, if_neg hforwarded,
              if_neg hnotRemote, if_neg hnotForwarded]
          rw [← hsame]
          cases parseConditionalData libraries table name value with
          | error e => exact Or.inl ⟨e, rfl, rfl⟩
          | ok d => exact Or.inr ⟨d, d, rfl, rfl⟩

section Condition

variable {ctx : LoadingContext}

/-- The loader goes through the nodes of a condition and on with the lists behind them in its stack. -/
def GoesOn (ctx : LoadingContext) (nodes : KdlDocument) (k : Nat) : Prop :=
  ∀ conditionName fuel stack tables data, ∃ tables' data',
    conditionData ctx conditionName (fuel + k) (nodes :: stack) tables data =
      conditionData ctx conditionName fuel stack tables' data'

/-- The loader fails with the nodes of a condition. -/
def Fails (ctx : LoadingContext) (nodes : KdlDocument) (k : Nat) : Prop :=
  ∀ conditionName fuel stack tables data, ∃ e,
    conditionData ctx conditionName (fuel + k) (nodes :: stack) tables data = throw e

theorem goesOn_nil : GoesOn ctx [] 1 :=
  fun _ _ _ tables data => ⟨tables, data, rfl⟩

section Step

variable {node : KdlNode} {nodes : KdlDocument} {conditionName : Str} {fuel : Nat}
  {stack : List KdlDocument} {tables : Nat} {data : List ConditionalData}

theorem conditionData_use {snippet : KdlDocument} (huse : node.name = "use".toList)
    (h : findSnippet ctx.snippets node = .ok snippet) :
    conditionData ctx conditionName (fuel + 1) ((node :: nodes) :: stack) tables data =
      conditionData ctx conditionName fuel (snippet :: nodes :: stack) tables data := by
  rw [conditionData, if_pos huse, h]
  rfl

theorem conditionData_use_error {e : Str} (huse : node.name = "use".toList)
    (h : findSnippet ctx.snippets node = .error e) :
    conditionData ctx conditionName (fuel + 1) ((node :: nodes) :: stack) tables data = throw e := by
  rw [conditionData, if_pos huse, h]
  rfl

theorem conditionData_ok {d : ConditionalData} (huse : node.name ≠ "use".toList)
    (h : parseConditionalData ctx.libraries tables node.name (kdlNodeToConfigurationEntry node) = .ok d) :
    conditionData ctx conditionName (fuel + 1) ((node :: nodes) :: stack) tables data =
      conditionData ctx conditionName fuel (nodes :: stack) (tables + 1) (data ++ [d]) := by
  rw [conditionData, if_neg huse, h]

theorem conditionData_error {e : Str} (huse : node.name ≠ "use".toList)
    (h : parseConditionalData ctx.libraries tables node.name (kdlNodeToConfigurationEntry node) =
      .error e) :
    ∃ e', conditionData ctx conditionName (fuel + 1) ((node :: nodes) :: stack) tables data =
      throw e' := by
  rw [conditionData, if_neg huse, h]
  exact ⟨_, rfl⟩

end Step

theorem run_condition_ok {node : KdlNode} (huse : node.name ≠ "use".toList) {d : ConditionalData}
    (h : parseConditionalData ctx.libraries 0 node.name (kdlNodeToConfigurationEntry node) = .ok d)
    (fuel : Nat) (names : Finset Str) :
    (snippetSystem ctx).run (fuel + 1) .condition names node = pure names := by
  have hvisit : (snippetSystem ctx).visit .condition names node = .leaf names := by
    rw [show (snippetSystem ctx).visit .condition names node = visitInCondition ctx names node from
      if_neg huse, visitInCondition, h]
  rw [System.run, hvisit]

theorem run_condition_error {node : KdlNode} (huse : node.name ≠ "use".toList) {e : Str}
    (h : parseConditionalData ctx.libraries 0 node.name (kdlNodeToConfigurationEntry node) = .error e)
    (fuel : Nat) (names : Finset Str) :
    (snippetSystem ctx).run (fuel + 1) .condition names node = throw () := by
  have hvisit : (snippetSystem ctx).visit .condition names node = .fail := by
    rw [show (snippetSystem ctx).visit .condition names node = visitInCondition ctx names node from
      if_neg huse, visitInCondition, h]
  rw [System.run, hvisit]

/-- The loader goes past the first node of a list to the next one. -/
def GoesPast (ctx : LoadingContext) (node : KdlNode) (k : Nat) : Prop :=
  ∀ conditionName fuel nodes stack tables data, ∃ tables' data',
    conditionData ctx conditionName (fuel + k) ((node :: nodes) :: stack) tables data =
      conditionData ctx conditionName fuel (nodes :: stack) tables' data'

section First

variable {node : KdlNode} {nodes snippet : KdlDocument} {k m : Nat}

theorem GoesPast.goesOn (h : GoesPast ctx node k) (hnodes : GoesOn ctx nodes m) :
    GoesOn ctx (node :: nodes) (m + k) := by
  intro conditionName fuel stack tables data
  obtain ⟨tables', data', hsame⟩ := h conditionName (fuel + m) nodes stack tables data
  rw [← Nat.add_assoc, hsame]
  exact hnodes conditionName fuel stack tables' data'

theorem GoesPast.fails (h : GoesPast ctx node k) (hnodes : Fails ctx nodes m) :
    Fails ctx (node :: nodes) (m + k) := by
  intro conditionName fuel stack tables data
  obtain ⟨tables', data', hsame⟩ := h conditionName (fuel + m) nodes stack tables data
  rw [← Nat.add_assoc, hsame]
  exact hnodes conditionName fuel stack tables' data'

theorem fails_use_error {e : Str} (huse : node.name = "use".toList)
    (h : findSnippet ctx.snippets node = .error e) : Fails ctx (node :: nodes) 1 :=
  fun _ _ _ _ _ => ⟨e, conditionData_use_error huse h⟩

theorem fails_use (huse : node.name = "use".toList) (h : findSnippet ctx.snippets node = .ok snippet)
    (hsnippet : Fails ctx snippet k) : Fails ctx (node :: nodes) (k + 1) := by
  intro conditionName fuel stack tables data
  rw [← Nat.add_assoc, conditionData_use huse h]
  exact hsnippet conditionName fuel (nodes :: stack) tables data

theorem goesPast_use (huse : node.name = "use".toList)
    (h : findSnippet ctx.snippets node = .ok snippet) (hsnippet : GoesOn ctx snippet k) :
    GoesPast ctx node (k + 1) := by
  intro conditionName fuel nodes stack tables data
  rw [← Nat.add_assoc, conditionData_use huse h]
  exact hsnippet conditionName fuel (nodes :: stack) tables data

theorem fails_condition {e : Str} (huse : node.name ≠ "use".toList)
    (h : parseConditionalData ctx.libraries 0 node.name (kdlNodeToConfigurationEntry node) =
      .error e) : Fails ctx (node :: nodes) 1 := by
  intro conditionName fuel stack tables data
  rcases parseConditionalData_table ctx.libraries 0 tables node.name
    (kdlNodeToConfigurationEntry node) with ⟨e', -, herror⟩ | ⟨d, d', hok, -⟩
  · exact conditionData_error huse herror
  · rw [h] at hok
    cases hok

theorem goesPast_condition {d : ConditionalData} (huse : node.name ≠ "use".toList)
    (h : parseConditionalData ctx.libraries 0 node.name (kdlNodeToConfigurationEntry node) = .ok d) :
    GoesPast ctx node 1 := by
  intro conditionName fuel nodes stack tables data
  rcases parseConditionalData_table ctx.libraries 0 tables node.name
    (kdlNodeToConfigurationEntry node) with ⟨e', herror, -⟩ | ⟨_, d', -, hok⟩
  · rw [h] at herror
    cases herror
  · exact ⟨_, _, conditionData_ok huse hok⟩

end First

/-- What the recursion does with the nodes of a condition, the loop with the stack does with enough fuel. -/
theorem goesOn_of_run (fuel : Nat) : ∀ (nodes : KdlDocument) (names : Finset Str),
    nodes.foldlM ((snippetSystem ctx).run fuel .condition) names = ExceptT.mk none ∨
      (nodes.foldlM ((snippetSystem ctx).run fuel .condition) names = throw () ∧
        ∃ k, Fails ctx nodes k) ∨
      (nodes.foldlM ((snippetSystem ctx).run fuel .condition) names = pure names ∧
        ∃ k, GoesOn ctx nodes k) := by
  induction fuel with
  | zero =>
      intro nodes names
      cases nodes with
      | nil => exact Or.inr (Or.inr ⟨rfl, 1, goesOn_nil⟩)
      | cons node nodes => exact Or.inl rfl
  | succ fuel ih =>
      intro nodes names
      induction nodes with
      | nil => exact Or.inr (Or.inr ⟨rfl, 1, goesOn_nil⟩)
      | cons node nodes ihNodes =>
          -- the nodes behind a first one that the loader goes past
          have hbehind : ∀ {k}, GoesPast ctx node k →
              nodes.foldlM ((snippetSystem ctx).run (fuel + 1) .condition) names = ExceptT.mk none ∨
                (nodes.foldlM ((snippetSystem ctx).run (fuel + 1) .condition) names = throw () ∧
                  ∃ m, Fails ctx (node :: nodes) m) ∨
                (nodes.foldlM ((snippetSystem ctx).run (fuel + 1) .condition) names = pure names ∧
                  ∃ m, GoesOn ctx (node :: nodes) m) := by
            intro k hpast
            rcases ihNodes with hnone | ⟨hthrow, m, hfails⟩ | ⟨hpure, m, hgoes⟩
            · exact Or.inl hnone
            · exact Or.inr (Or.inl ⟨hthrow, m + k, hpast.fails hfails⟩)
            · exact Or.inr (Or.inr ⟨hpure, m + k, hpast.goesOn hgoes⟩)
          rw [List.foldlM_cons]
          by_cases huse : node.name = "use".toList
          · cases hsnippet : findSnippet ctx.snippets node with
            | error e =>
                rw [run_use_of_error huse hsnippet]
                exact Or.inr (Or.inl ⟨rfl, 1, fails_use_error huse hsnippet⟩)
            | ok snippet =>
                rw [run_use_of_ok huse hsnippet]
                rcases ih snippet names with hnone | ⟨hthrow, k, hfails⟩ | ⟨hpure, k, hgoes⟩
                · rw [hnone]
                  exact Or.inl rfl
                · rw [hthrow]
                  exact Or.inr (Or.inl ⟨rfl, k + 1, fails_use huse hsnippet hfails⟩)
                · rw [hpure, pure_bind]
                  exact hbehind (goesPast_use huse hsnippet hgoes)
          · cases hparse : parseConditionalData ctx.libraries 0 node.name
                (kdlNodeToConfigurationEntry node) with
            | error e =>
                rw [run_condition_error huse hparse]
                exact Or.inr (Or.inl ⟨rfl, 1, fails_condition huse hparse⟩)
            | ok d =>
                rw [run_condition_ok huse hparse, pure_bind]
                exact hbehind (goesPast_condition huse hparse)

/-- What the loop with the stack does with the nodes of a condition, the recursion does with the same fuel. -/
theorem run_of_conditionData (conditionName : Str) (names : Finset Str) (fuel : Nat) :
    ∀ (nodes : KdlDocument) (stack : List KdlDocument) (tables : Nat) (data : List ConditionalData),
      conditionData ctx conditionName fuel (nodes :: stack) tables data ≠ ExceptT.mk none →
      (nodes.foldlM ((snippetSystem ctx).run fuel .condition) names = throw () ∧
        ∃ e, conditionData ctx conditionName fuel (nodes :: stack) tables data = throw e) ∨
      (nodes.foldlM ((snippetSystem ctx).run fuel .condition) names = pure names ∧
        ∃ fuel' < fuel, ∃ tables' data',
          conditionData ctx conditionName fuel (nodes :: stack) tables data =
            conditionData ctx conditionName fuel' stack tables' data') := by
  induction fuel using Nat.strong_induction_on with
  | _ fuel ih =>
      intro nodes stack tables data hne
      cases fuel with
      | zero => exact absurd rfl hne
      | succ fuel =>
          cases nodes with
          | nil => exact Or.inr ⟨rfl, fuel, Nat.lt_succ_self fuel, tables, data, rfl⟩
          | cons node nodes =>
              -- the nodes behind a first one that succeeds
              have hrest : ∀ fuel' ≤ fuel, ∀ tables' data',
                  conditionData ctx conditionName fuel' (nodes :: stack) tables' data' ≠
                    ExceptT.mk none →
                  (nodes.foldlM ((snippetSystem ctx).run (fuel + 1) .condition) names = throw () ∧
                    ∃ e, conditionData ctx conditionName fuel' (nodes :: stack) tables' data' =
                      throw e) ∨
                  (nodes.foldlM ((snippetSystem ctx).run (fuel + 1) .condition) names = pure names ∧
                    ∃ fuel'' < fuel + 1, ∃ tables'' data'',
                      conditionData ctx conditionName fuel' (nodes :: stack) tables' data' =
                        conditionData ctx conditionName fuel'' stack tables'' data'') := by
                intro fuel' hle tables' data' hne'
                have hmore := (System.fueled_run (S := snippetSystem ctx) .condition).foldlM_eq_of_le
                  (Nat.le_succ_of_le hle) (s := names) (l := nodes)
                rcases ih fuel' (Nat.lt_succ_of_le hle) nodes stack tables' data' hne' with
                  ⟨hthrow, herror⟩ | ⟨hpure, fuel'', hlt, hgoes⟩
                · rw [hmore (by rw [hthrow]; exact throw_ne_none ())]
                  exact Or.inl ⟨hthrow, herror⟩
                · rw [hmore (by rw [hpure]; exact pure_ne_none names)]
                  exact Or.inr ⟨hpure, fuel'', hlt.trans (Nat.lt_succ_of_le hle), hgoes⟩
              rw [List.foldlM_cons]
              by_cases huse : node.name = "use".toList
              · cases hsnippet : findSnippet ctx.snippets node with
                | error e =>
                    rw [run_use_of_error huse hsnippet]
                    exact Or.inl ⟨rfl, e, conditionData_use_error huse hsnippet⟩
                | ok snippet =>
                    rw [run_use_of_ok huse hsnippet]
                    rw [conditionData_use huse hsnippet] at hne ⊢
                    rcases ih fuel (Nat.lt_succ_self fuel) snippet (nodes :: stack) tables data hne with
                      ⟨hthrow, herror⟩ | ⟨hpure, fuel', hlt, tables', data', hgoes⟩
                    · rw [hthrow]
                      exact Or.inl ⟨rfl, herror⟩
                    · rw [hpure, pure_bind]
                      rw [hgoes] at hne ⊢
                      exact hrest fuel' hlt.le tables' data' hne
              · rcases parseConditionalData_table ctx.libraries 0 tables node.name
                  (kdlNodeToConfigurationEntry node) with ⟨e, herror, herror'⟩ | ⟨d, d', hok, hok'⟩
                · rw [run_condition_error huse herror]
                  exact Or.inl ⟨rfl, conditionData_error huse herror'⟩
                · rw [run_condition_ok huse hok, pure_bind]
                  rw [conditionData_ok huse hok'] at hne ⊢
                  exact hrest fuel le_rfl _ _ hne

/-- With enough fuel the loop does what the recursion does. -/
theorem corresponds_conditionData_left (fuel : Nat) (children : KdlDocument) (names : Finset Str) :
    ∃ least, ∀ f ≥ least, ∀ conditionName tables,
      Corresponds True False (fun names' _ => names' = names)
        (children.foldlM ((snippetSystem ctx).run fuel .condition) names)
        (conditionData ctx conditionName f [children] tables []) := by
  rcases @goesOn_of_run ctx fuel children names with hnone | ⟨hthrow, k, hfails⟩ | ⟨hpure, k, hgoes⟩
  · refine ⟨0, fun f _ conditionName tables => ?_⟩
    rw [hnone]
    exact .left trivial _
  · refine ⟨k, fun f hf conditionName tables => ?_⟩
    obtain ⟨e, herror⟩ := hfails conditionName (f - k) [] tables []
    rw [Nat.sub_add_cancel hf] at herror
    rw [hthrow, herror]
    exact .error () e
  · refine ⟨k + 1, fun f hf conditionName tables => ?_⟩
    obtain ⟨m, rfl⟩ := Nat.exists_eq_add_of_le hf
    obtain ⟨tables', data', hsame⟩ := hgoes conditionName (m + 1) [] tables []
    rw [show k + 1 + m = m + 1 + k by omega, hpure, hsame]
    exact .ok rfl

/-- When the loop has a result, the recursion has it with the same fuel. -/
theorem corresponds_conditionData_right (fuel : Nat) (children : KdlDocument) (names : Finset Str)
    (conditionName : Str) (tables : Nat) :
    Corresponds False True (fun names' _ => names' = names)
      (children.foldlM ((snippetSystem ctx).run fuel .condition) names)
      (conditionData ctx conditionName fuel [children] tables []) := by
  by_cases hne : conditionData ctx conditionName fuel [children] tables [] = ExceptT.mk none
  · rw [hne]
    exact .right trivial _
  · rcases run_of_conditionData conditionName names fuel children [] tables [] hne with
      ⟨hthrow, e, herror⟩ | ⟨hpure, fuel', -, tables', data', hgoes⟩
    · rw [hthrow, herror]
      exact .error () e
    · rw [hgoes] at hne ⊢
      rw [hpure]
      cases fuel' with
      | zero => exact absurd rfl hne
      | succ fuel' => exact .ok rfl

end Condition

/-! ## The nodes of a block -/

section Node

variable {ctx : LoadingContext}

/-- The place of the nodes of a block. -/
def placeOf (enclosing : List Conditions) (isErrorConfig : Bool) : NodePlace :=
  .block enclosing.head?.isSome isErrorConfig

/-- The names are those of the conditions that are defined. -/
def Defines (names : Finset Str) (state : Loading) : Prop := definedConditions state = names

section Step

variable {l r : Prop} {fuel f : Nat} {enclosing : List Conditions} {isErrorConfig : Bool}
  {state : Loading} {node : KdlNode}
  (hnodes : ∀ enclosing' isErrorConfig' state' nodes,
    (snippetSystem ctx).expansion ⟨placeOf enclosing isErrorConfig, definedConditions state, node⟩ =
      some (placeOf enclosing' isErrorConfig', nodes) →
    definedConditions state' = definedConditions state →
    Corresponds l r Defines
      (nodes.foldlM ((snippetSystem ctx).run fuel (placeOf enclosing' isErrorConfig'))
        (definedConditions state))
      (nodes.foldlM (kdlIterateFn ctx f enclosing' isErrorConfig') state'))
  (hcondition : ∀ children,
    (snippetSystem ctx).expansion ⟨placeOf enclosing isErrorConfig, definedConditions state, node⟩ =
      some (.condition, children) →
    ∀ conditionName tables, Corresponds l r (fun names _ => names = definedConditions state)
      (children.foldlM ((snippetSystem ctx).run fuel .condition) (definedConditions state))
      (conditionData ctx conditionName f [children] tables []))

include hnodes in
theorem corresponds_use (huse : node.name = "use".toList) :
    Corresponds l r Defines
      ((snippetSystem ctx).run (fuel + 1) (placeOf enclosing isErrorConfig) (definedConditions state) node)
      (iterateUse ctx (kdlIterateFn ctx f) enclosing isErrorConfig state node) := by
  rw [iterateUse]
  cases hsnippet : findSnippet ctx.snippets node with
  | error e =>
      rw [run_use_of_error huse hsnippet]
      exact .error () e
  | ok snippet =>
      rw [run_use_of_ok huse hsnippet]
      refine hnodes enclosing isErrorConfig state snippet ?_ rfl
      obtain ⟨snippetName, hvisit, hbody⟩ := visit_use_of_ok huse hsnippet
        (placeOf enclosing isErrorConfig) (definedConditions state)
      rw [System.expansion, hvisit]
      dsimp only
      rw [hbody]

/-- The header of a block is the same on both sides. -/
theorem corresponds_header {visit : KdlDocument → Str → Visit NodePlace (Finset Str) KdlNode Str}
    {load : KdlDocument × Str → Load Loading}
    (hvisit : (snippetSystem ctx).visit (placeOf enclosing isErrorConfig) (definedConditions state) node =
      headerVisit ctx node visit)
    (hblock : ∀ children text,
      (snippetSystem ctx).visit (placeOf enclosing isErrorConfig) (definedConditions state) node =
        visit children text →
      Corresponds l r Defines
        ((snippetSystem ctx).run (fuel + 1) (placeOf enclosing isErrorConfig) (definedConditions state)
          node) (load (children, text))) :
    Corresponds l r Defines
      ((snippetSystem ctx).run (fuel + 1) (placeOf enclosing isErrorConfig) (definedConditions state) node)
      (Load.ofExcept (blockHeader ctx node) >>= load) := by
  cases hheader : blockHeader ctx node with
  | error e =>
      rw [System.run, hvisit, headerVisit, hheader]
      exact .error () e
  | ok header =>
      rw [headerVisit, hheader] at hvisit
      exact hblock header.1 header.2 hvisit

include hnodes in
/-- The nodes of a block, which leaves the conditions as they were. -/
theorem corresponds_block {enclosing' : List Conditions} {isErrorConfig' : Bool} {children : KdlDocument}
    {block : Loading → Block}
    (hvisit : (snippetSystem ctx).visit (placeOf enclosing isErrorConfig) (definedConditions state) node =
      .block (placeOf enclosing' isErrorConfig') children (definedConditions state)) :
    Corresponds l r Defines
      ((snippetSystem ctx).run (fuel + 1) (placeOf enclosing isErrorConfig) (definedConditions state) node)
      (children.foldlM (kdlIterateFn ctx f enclosing' isErrorConfig') state.enter >>= fun inner =>
        pure (state.leave inner (block inner))) := by
  rw [System.run, hvisit]
  refine (hnodes enclosing' isErrorConfig' state.enter children ?_ rfl).bind fun _ _ _ _ => .ok rfl
  rw [System.expansion, hvisit]

include hnodes in
theorem corresponds_location (huse : node.name ≠ "use".toList)
    (hlocation : node.name = "location".toList) :
    Corresponds l r Defines
      ((snippetSystem ctx).run (fuel + 1) (placeOf enclosing isErrorConfig) (definedConditions state) node)
      (iterateLocation ctx (kdlIterateFn ctx f) enclosing isErrorConfig state node) := by
  have hvisit : (snippetSystem ctx).visit (placeOf enclosing isErrorConfig) (definedConditions state)
      node = if isErrorConfig then .fail else if enclosing.head?.isSome then .fail
        else headerVisit ctx node fun children _ =>
          .block (.block true isErrorConfig) children (definedConditions state) :=
    (if_neg huse).trans (if_pos hlocation)
  unfold iterateLocation
  cases isErrorConfig with
  | true =>
      rw [System.run, hvisit]
      exact .error () _
  | false =>
      cases hhost : enclosing.head?.isSome with
      | true =>
          rw [hhost] at hvisit
          rw [System.run, hvisit]
          exact .error () _
      | false =>
          rw [hhost] at hvisit
          refine corresponds_header hvisit fun children location hblock => ?_
          exact @corresponds_block ctx l r fuel f enclosing false state node hnodes
            (⟨location, []⟩ :: enclosing) false children _ hblock

include hcondition in
theorem corresponds_condition (huse : node.name ≠ "use".toList)
    (hlocation : node.name ≠ "location".toList) (hname : node.name = "condition".toList) :
    Corresponds l r Defines
      ((snippetSystem ctx).run (fuel + 1) (placeOf enclosing isErrorConfig) (definedConditions state) node)
      (iterateCondition ctx f isErrorConfig state node) := by
  have hvisit : (snippetSystem ctx).visit (placeOf enclosing isErrorConfig) (definedConditions state)
      node = if isErrorConfig then .fail
        else headerVisit ctx node fun children conditionName =>
          .block .condition children (insert conditionName (definedConditions state)) :=
    (if_neg huse).trans ((if_neg hlocation).trans (if_pos hname))
  unfold iterateCondition
  cases isErrorConfig with
  | true =>
      rw [System.run, hvisit]
      exact .error () _
  | false =>
      refine corresponds_header hvisit fun children conditionName hblock => ?_
      rw [System.run, hblock]
      refine (hcondition children ?_ conditionName state.tables).bind fun _ data _ _ => .ok ?_
      · rw [System.expansion, hblock]
      · ext name
        rw [mem_definedConditions, Finset.mem_insert, mem_definedConditions, AList.lookup_isSome,
          AList.lookup_isSome, AList.mem_insert]

include hnodes in
theorem corresponds_conditional {wrap : List ConditionalData → Conditional}
    (huse : node.name ≠ "use".toList) (hlocation : node.name ≠ "location".toList)
    (hcondition : node.name ≠ "condition".toList)
    (hif : node.name = "if".toList ∨ node.name = "if_not".toList) :
    Corresponds l r Defines
      ((snippetSystem ctx).run (fuel + 1) (placeOf enclosing isErrorConfig) (definedConditions state) node)
      (iterateConditional ctx (kdlIterateFn ctx f) wrap enclosing isErrorConfig state node) := by
  have hvisit : (snippetSystem ctx).visit (placeOf enclosing isErrorConfig) (definedConditions state)
      node = if isErrorConfig then .fail
        else headerVisit ctx node fun children conditionName =>
          if conditionName ∈ definedConditions state then
            .block (.block true isErrorConfig) children (definedConditions state)
          else .fail :=
    (if_neg huse).trans ((if_neg hlocation).trans ((if_neg hcondition).trans (if_pos hif)))
  unfold iterateConditional
  cases isErrorConfig with
  | true =>
      rw [System.run, hvisit]
      exact .error () _
  | false =>
      refine corresponds_header hvisit fun children conditionName hblock => ?_
      dsimp only
      cases hlookup : state.loadedConditions.lookup conditionName with
      | none =>
          have hundefined : conditionName ∉ definedConditions state := by
            rw [mem_definedConditions, hlookup]
            exact Bool.false_ne_true
          rw [if_neg hundefined] at hblock
          rw [System.run, hblock, findCondition, hlookup]
          exact .error () _
      | some conditionals =>
          have hdefined : conditionName ∈ definedConditions state := by
            rw [mem_definedConditions, hlookup]
            rfl
          rw [if_pos hdefined] at hblock
          rw [findCondition, hlookup]
          exact @corresponds_block ctx l r fuel f enclosing false state node hnodes
            (newConditions enclosing (wrap conditionals) :: enclosing) false children _ hblock

include hnodes in
theorem corresponds_errorConfig (huse : node.name ≠ "use".toList)
    (hlocation : node.name ≠ "location".toList) (hcondition : node.name ≠ "condition".toList)
    (hif : ¬ (node.name = "if".toList ∨ node.name = "if_not".toList))
    (herror : node.name = "error_config".toList) :
    Corresponds l r Defines
      ((snippetSystem ctx).run (fuel + 1) (placeOf enclosing isErrorConfig) (definedConditions state) node)
      (iterateErrorConfig ctx (kdlIterateFn ctx f) enclosing isErrorConfig state node) := by
  have hvisit : (snippetSystem ctx).visit (placeOf enclosing isErrorConfig) (definedConditions state)
      node = if isErrorConfig then .fail
        else
          match node.children with
          | none => .fail
          | some children =>
              match node.firstArgument with
              | none => .leaf (definedConditions state)
              | some errorStatusCode =>
                  match errorStatusCode.value.asInteger with
                  | none => .fail
                  | some _ =>
                      .block (.block enclosing.head?.isSome true) children (definedConditions state) :=
    (if_neg huse).trans ((if_neg hlocation).trans ((if_neg hcondition).trans
      ((if_neg hif).trans (if_pos herror))))
  -- both fail inside an error configuration, without children and with a code that is no number
  unfold iterateErrorConfig
  cases isErrorConfig with
  | true =>
      rw [System.run, hvisit]
      exact .error () _
  | false =>
      cases hchildren : node.children with
      | none =>
          rw [hchildren] at hvisit
          rw [System.run, hvisit]
          exact .error () _
      | some children =>
          rw [hchildren] at hvisit
          cases hargument : node.firstArgument with
          | none =>
              rw [hargument] at hvisit
              rw [System.run, hvisit]
              exact .ok rfl
          | some errorStatusCode =>
              rw [hargument] at hvisit
              cases hcode : errorStatusCode.value.asInteger with
              | none =>
                  dsimp only at hvisit ⊢
                  rw [hcode] at hvisit ⊢
                  rw [System.run, hvisit]
                  exact .error () _
              | some code =>
                  dsimp only at hvisit ⊢
                  rw [hcode] at hvisit ⊢
                  exact @corresponds_block ctx l r fuel f enclosing false state node hnodes enclosing true
                    children _ hvisit

include hnodes hcondition in
/-- The loader does with a node what the system does with it, if it does so with the nodes that are visited
for it. -/
theorem corresponds_kdlIterateFn :
    Corresponds l r Defines
      ((snippetSystem ctx).run (fuel + 1) (placeOf enclosing isErrorConfig) (definedConditions state) node)
      (kdlIterateFn ctx (f + 1) enclosing isErrorConfig state node) := by
  unfold kdlIterateFn
  dsimp only
  by_cases huse : node.name = "use".toList
  · rw [if_pos huse]
    exact corresponds_use hnodes huse
  rw [if_neg huse]
  by_cases hlocation : node.name = "location".toList
  · rw [if_pos hlocation]
    exact corresponds_location hnodes huse hlocation
  rw [if_neg hlocation]
  by_cases hname : node.name = "condition".toList
  · rw [if_pos hname]
    exact corresponds_condition hcondition huse hlocation hname
  rw [if_neg hname]
  by_cases hif : node.name = "if".toList
  · rw [if_pos hif]
    exact corresponds_conditional hnodes huse hlocation hname (Or.inl hif)
  rw [if_neg hif]
  by_cases hifNot : node.name = "if_not".toList
  · rw [if_pos hifNot]
    exact corresponds_conditional hnodes huse hlocation hname (Or.inr hifNot)
  rw [if_neg hifNot]
  by_cases herror : node.name = "error_config".toList
  · rw [if_pos herror]
    exact corresponds_errorConfig hnodes huse hlocation hname (not_or.2 ⟨hif, hifNot⟩) herror
  · rw [if_neg herror]
    have hvisit : (snippetSystem ctx).visit (placeOf enclosing isErrorConfig) (definedConditions state)
        node = .leaf (definedConditions state) :=
      (if_neg huse).trans ((if_neg hlocation).trans ((if_neg hname).trans
        ((if_neg (not_or.2 ⟨hif, hifNot⟩)).trans (if_neg herror))))
    rw [System.run, hvisit]
    exact .ok rfl

end Step

/-- What the loader does with some fuel, the system does. -/
theorem corresponds_right (fuel : Nat) : ∀ enclosing isErrorConfig state node,
    Corresponds False True Defines
      ((snippetSystem ctx).run fuel (placeOf enclosing isErrorConfig) (definedConditions state) node)
      (kdlIterateFn ctx fuel enclosing isErrorConfig state node) := by
  induction fuel with
  | zero => exact fun _ _ _ _ => .right trivial _
  | succ fuel ih =>
      intro enclosing isErrorConfig state node
      apply corresponds_kdlIterateFn
      · intro enclosing' isErrorConfig' state' nodes _ hdefined
        refine Corresponds.foldlM ?_ nodes hdefined
        rintro _ t a rfl
        exact ih enclosing' isErrorConfig' t a
      · intro children _ conditionName tables
        exact corresponds_conditionData_right fuel children (definedConditions state) conditionName tables

/-- With enough fuel the loader does what the system does. -/
def FollowedBy (ctx : LoadingContext) (fuel : Nat) (place : NodePlace) (names : Finset Str)
    (nodes : KdlDocument) : Prop :=
  ∃ least, ∀ f ≥ least, ∀ enclosing isErrorConfig state,
    placeOf enclosing isErrorConfig = place → definedConditions state = names →
    Corresponds True False Defines (nodes.foldlM ((snippetSystem ctx).run fuel place) names)
      (nodes.foldlM (kdlIterateFn ctx f enclosing isErrorConfig) state)

theorem followedBy_of_nodes {fuel : Nat} {place : NodePlace}
    (hnode : ∀ names node, ∃ least, ∀ f ≥ least, ∀ enclosing isErrorConfig state,
      placeOf enclosing isErrorConfig = place → definedConditions state = names →
      Corresponds True False Defines ((snippetSystem ctx).run fuel place names node)
        (kdlIterateFn ctx f enclosing isErrorConfig state node))
    (nodes : KdlDocument) (names : Finset Str) : FollowedBy ctx fuel place names nodes := by
  induction nodes generalizing names with
  | nil => exact ⟨0, fun _ _ _ _ _ _ hdefined => .ok hdefined⟩
  | cons node nodes ih =>
      obtain ⟨least, hfirst⟩ := hnode names node
      -- the nodes behind are visited with the names that the first one gives
      obtain ⟨least', hrest⟩ : ∃ least', ∀ names',
          (snippetSystem ctx).run fuel place names node = pure names' → ∀ f ≥ least',
            ∀ enclosing isErrorConfig state, placeOf enclosing isErrorConfig = place →
              definedConditions state = names' →
              Corresponds True False Defines
                (nodes.foldlM ((snippetSystem ctx).run fuel place) names')
                (nodes.foldlM (kdlIterateFn ctx f enclosing isErrorConfig) state) := by
        rcases Approximates.cases_of ((snippetSystem ctx).run fuel place names node) with
          hnone | ⟨e, hthrow⟩ | ⟨names', hpure⟩
        · exact ⟨0, fun names' h => absurd (h.symm.trans hnone) (pure_ne_none names')⟩
        · refine ⟨0, fun names' h => ?_⟩
          rw [hthrow] at h
          cases h
        · obtain ⟨least', hrest⟩ := ih names'
          refine ⟨least', fun names'' h => ?_⟩
          rw [hpure] at h
          rw [← pure_inj h]
          exact hrest
      refine ⟨max least least', fun f hf enclosing isErrorConfig state hplace hdefined => ?_⟩
      rw [List.foldlM_cons, List.foldlM_cons]
      refine (hfirst f (le_of_max_le_left hf) enclosing isErrorConfig state hplace hdefined).bind ?_
      intro names' state' hpure hdefined'
      exact hrest names' hpure f (le_of_max_le_right hf) enclosing isErrorConfig state' hplace hdefined'

/-- What the system does with some fuel, the loader does with enough fuel. -/
theorem corresponds_left (fuel : Nat) : ∀ place names node, ∃ least, ∀ f ≥ least,
    ∀ enclosing isErrorConfig state,
      placeOf enclosing isErrorConfig = place → definedConditions state = names →
      Corresponds True False Defines ((snippetSystem ctx).run fuel place names node)
        (kdlIterateFn ctx f enclosing isErrorConfig state node) := by
  induction fuel with
  | zero => exact fun _ _ _ => ⟨0, fun _ _ _ _ _ _ _ => .left trivial _⟩
  | succ fuel ih =>
      intro place names node
      cases hexpansion : (snippetSystem ctx).expansion ⟨place, names, node⟩ with
      | none =>
          refine ⟨1, fun f hf enclosing isErrorConfig state hplace hdefined => ?_⟩
          obtain ⟨m, rfl⟩ := Nat.exists_eq_add_of_le' hf
          subst hplace hdefined
          apply corresponds_kdlIterateFn
          · intro _ _ _ _ h
            rw [hexpansion] at h
            cases h
          · intro _ h
            rw [hexpansion] at h
            cases h
      | some expansion =>
          obtain ⟨least, hnodes⟩ := followedBy_of_nodes (ih expansion.1) expansion.2 names
          obtain ⟨least', hcondition⟩ :=
            @corresponds_conditionData_left ctx fuel expansion.2 names
          refine ⟨max least least' + 1, fun f hf enclosing isErrorConfig state hplace hdefined => ?_⟩
          obtain ⟨m, rfl⟩ := Nat.exists_eq_add_of_le' (Nat.le_of_add_left_le hf)
          have hm : max least least' ≤ m := Nat.le_of_succ_le_succ hf
          subst hplace hdefined
          apply corresponds_kdlIterateFn
          · intro enclosing' isErrorConfig' state' nodes h hdefined
            rw [hexpansion, Option.some.injEq] at h
            subst h
            exact hnodes m (le_of_max_le_left hm) enclosing' isErrorConfig' state' rfl hdefined
          · intro children h conditionName tables
            rw [hexpansion, Option.some.injEq] at h
            subst h
            exact hcondition m (le_of_max_le_right hm) conditionName tables

/-- The loader ends with the nodes of a block exactly when on its way no snippet is used again within its
own nodes, in the same place. -/
theorem foldlM_kdlIterateFn_ne_none_iff (ctx : LoadingContext) (enclosing : List Conditions)
    (isErrorConfig : Bool) (state : Loading) (nodes : KdlDocument) :
    (∃ fuel, nodes.foldlM (kdlIterateFn ctx fuel enclosing isErrorConfig) state ≠ ExceptT.mk none) ↔
      ¬ (snippetSystem ctx).ListReturns (placeOf enclosing isErrorConfig) (definedConditions state)
        nodes := by
  rw [← System.foldlM_terminates_iff grows_snippetSystem (boundedSnippetSystem ctx)]
  constructor
  · rintro ⟨fuel, hfuel⟩
    have hnodes : Corresponds False True Defines
        (nodes.foldlM ((snippetSystem ctx).run fuel (placeOf enclosing isErrorConfig))
          (definedConditions state))
        (nodes.foldlM (kdlIterateFn ctx fuel enclosing isErrorConfig) state) := by
      refine Corresponds.foldlM ?_ nodes rfl
      rintro _ t a rfl
      exact corresponds_right fuel enclosing isErrorConfig t a
    exact ⟨fuel, hnodes.left_ne_none hfuel⟩
  · rintro ⟨fuel, hfuel⟩
    obtain ⟨least, hleast⟩ := followedBy_of_nodes
      (@corresponds_left ctx fuel (placeOf enclosing isErrorConfig)) nodes
      (definedConditions state)
    exact ⟨least, (hleast least le_rfl enclosing isErrorConfig state rfl rfl).right_ne_none hfuel⟩

end Node

end Ferron.Config
