import Ferron.Config.Kdl
import Ferron.Lib.Fuel

/-!
# Two runs of the KDL loader

The loader goes through the blocks of a file with a recursion, and through the nodes of a condition with
a stack of lists. Two runs are compared from states that may differ in the configurations loaded so far:
the loader adds to these and never reads them (`Loading.Related`).

More fuel gives the same configurations (`kdlIterateFn_mono`), and for conditions the lists of the stack
may as well be one list (`conditionData_concat`, `conditionData_split`). When two lists of nodes are
related, so are the files with them and the files that include these
(`loadConfigurationInner_approximates`).
-/

set_option autoImplicit false

namespace Ferron.Config

open Ferron.Common Ferron.Lib

/-! ## Conditions -/

section Conditions

variable {ctx : LoadingContext} {conditionName : Str}

/-- One node, whose children are not looked at. -/
theorem conditionData_cons_approximates {fuel fuel' : Nat} {name : Str} {entries : List KdlEntry}
    {children children' : Option KdlDocument} {nodes nodes' : KdlDocument}
    {stack stack' : List KdlDocument}
    (huse : ∀ snippet tables data, Approximates (· = ·)
      (conditionData ctx conditionName fuel (snippet :: nodes :: stack) tables data)
      (conditionData ctx conditionName fuel' (snippet :: nodes' :: stack') tables data))
    (hnext : ∀ tables data, Approximates (· = ·)
      (conditionData ctx conditionName fuel (nodes :: stack) tables data)
      (conditionData ctx conditionName fuel' (nodes' :: stack') tables data))
    (tables : Nat) (data : List ConditionalData) :
    Approximates (· = ·)
      (conditionData ctx conditionName (fuel + 1) ((⟨name, entries, children⟩ :: nodes) :: stack)
        tables data)
      (conditionData ctx conditionName (fuel' + 1) ((⟨name, entries, children'⟩ :: nodes') :: stack')
        tables data) := by
  rw [conditionData, conditionData]
  split
  · exact Approximates.bind_left fun snippet => huse snippet tables data
  · have hentry : kdlNodeToConfigurationEntry ⟨name, entries, children'⟩ =
        kdlNodeToConfigurationEntry ⟨name, entries, children⟩ := rfl
    dsimp only
    rw [hentry]
    cases parseConditionalData ctx.libraries tables name
        (kdlNodeToConfigurationEntry ⟨name, entries, children⟩) with
    | ok d => exact hnext _ _
    | error err => exact .error _

/-- Lists behind the first ones of a stack may be exchanged. -/
theorem conditionData_append_approximates {k : Nat} {tail tail' : List KdlDocument} (fuel : Nat)
    (htail : ∀ n ≤ fuel, ∀ tables data, Approximates (· = ·)
      (conditionData ctx conditionName n tail tables data)
      (conditionData ctx conditionName (n + k) tail' tables data))
    (stack : List KdlDocument) (tables : Nat) (data : List ConditionalData) :
    Approximates (· = ·)
      (conditionData ctx conditionName fuel (stack ++ tail) tables data)
      (conditionData ctx conditionName (fuel + k) (stack ++ tail') tables data) := by
  induction fuel generalizing stack tables data with
  | zero => exact .outOfFuel _
  | succ fuel ih =>
      have hprevious := ih fun n hn => htail n (Nat.le_succ_of_le hn)
      cases stack with
      | nil => exact htail (fuel + 1) le_rfl tables data
      | cons nodes stack =>
          rw [Nat.add_right_comm fuel 1 k]
          cases nodes with
          | nil => exact hprevious stack tables data
          | cons node nodes =>
              obtain ⟨name, entries, children⟩ := node
              apply conditionData_cons_approximates
              · exact fun snippet => hprevious (snippet :: nodes :: stack)
              · exact hprevious (nodes :: stack)

/-- More fuel gives the same conditions. -/
theorem conditionData_mono (fuel k : Nat) (stack : List KdlDocument) (tables : Nat)
    (data : List ConditionalData) :
    Approximates (· = ·)
      (conditionData ctx conditionName fuel stack tables data)
      (conditionData ctx conditionName (fuel + k) stack tables data) := by
  have hend : ∀ n ≤ fuel, ∀ tables data, Approximates (· = ·)
      (conditionData ctx conditionName n [] tables data)
      (conditionData ctx conditionName (n + k) [] tables data) := by
    intro n _ tables data
    cases n with
    | zero => exact .outOfFuel _
    | succ n =>
        rw [Nat.add_right_comm n 1 k]
        exact .ok rfl
  have happend := conditionData_append_approximates fuel hend stack tables data
  rwa [List.append_nil] at happend

/-- Two lists of the stack may as well be one. -/
theorem conditionData_concat (fuel : Nat) (front back : KdlDocument) (stack : List KdlDocument)
    (tables : Nat) (data : List ConditionalData) :
    Approximates (· = ·)
      (conditionData ctx conditionName fuel (front :: back :: stack) tables data)
      (conditionData ctx conditionName fuel ((front ++ back) :: stack) tables data) := by
  induction fuel using Nat.strong_induction_on generalizing front tables data with
  | _ fuel ih =>
      cases fuel with
      | zero => exact .outOfFuel _
      | succ fuel =>
          cases front with
          | nil => exact conditionData_mono fuel 1 (back :: stack) tables data
          | cons node front =>
              obtain ⟨name, entries, children⟩ := node
              apply conditionData_cons_approximates
              · intro snippet tables data
                exact conditionData_append_approximates (k := 0) fuel
                  (fun n hn => ih n (Nat.lt_succ_of_le hn) front) [snippet] tables data
              · exact ih fuel (Nat.lt_succ_self fuel) front

/-- And one list may as well be two, which takes a step more. -/
theorem conditionData_split (fuel : Nat) (front back : KdlDocument) (stack : List KdlDocument)
    (tables : Nat) (data : List ConditionalData) :
    Approximates (· = ·)
      (conditionData ctx conditionName fuel ((front ++ back) :: stack) tables data)
      (conditionData ctx conditionName (fuel + 1) (front :: back :: stack) tables data) := by
  induction fuel using Nat.strong_induction_on generalizing front tables data with
  | _ fuel ih =>
      cases fuel with
      | zero => exact .outOfFuel _
      | succ fuel =>
          cases front with
          | nil => exact Approximates.of_eq rfl
          | cons node front =>
              obtain ⟨name, entries, children⟩ := node
              apply conditionData_cons_approximates
              · intro snippet tables data
                exact conditionData_append_approximates fuel
                  (fun n hn => ih n (Nat.lt_succ_of_le hn) front) [snippet] tables data
              · exact ih fuel (Nat.lt_succ_self fuel) front

variable (ctx) in
/-- One list of a condition does as well as another one, with a little more fuel. -/
def ConditionsApproximate (k : Nat) (nodes nodes' : KdlDocument) : Prop :=
  ∀ conditionName fuel stack tables data, Approximates (· = ·)
    (conditionData ctx conditionName fuel (nodes :: stack) tables data)
    (conditionData ctx conditionName (fuel + k) (nodes' :: stack) tables data)

namespace ConditionsApproximate

theorem refl (k : Nat) (nodes : KdlDocument) : ConditionsApproximate ctx k nodes nodes :=
  fun _ fuel stack tables data => conditionData_mono fuel k (nodes :: stack) tables data

theorem add {k : Nat} {nodes nodes' : KdlDocument} (h : ConditionsApproximate ctx k nodes nodes')
    (more : Nat) : ConditionsApproximate ctx (k + more) nodes nodes' := by
  intro conditionName fuel stack tables data
  rw [← Nat.add_assoc]
  exact (h conditionName fuel stack tables data).trans_eq
    (conditionData_mono (fuel + k) more (nodes' :: stack) tables data)

/-- The children of a node are not looked at. -/
theorem of_children (name : Str) (entries : List KdlEntry) (children children' : Option KdlDocument) :
    ConditionsApproximate ctx 0 [⟨name, entries, children⟩] [⟨name, entries, children'⟩] := by
  intro conditionName fuel stack tables data
  cases fuel with
  | zero => exact .outOfFuel _
  | succ fuel =>
      apply conditionData_cons_approximates
      · exact fun snippet tables data => Approximates.of_eq rfl
      · exact fun tables data => Approximates.of_eq rfl

/-- Nodes in the middle of a list. -/
theorem around {k : Nat} {nodes nodes' : KdlDocument} (h : ConditionsApproximate ctx k nodes nodes')
    (before after : KdlDocument) :
    ConditionsApproximate ctx (k + 2) (before ++ (nodes ++ after)) (before ++ (nodes' ++ after)) := by
  intro conditionName fuel stack tables data
  have hmiddle : ∀ n tables data, Approximates (· = ·)
      (conditionData ctx conditionName n ((nodes ++ after) :: stack) tables data)
      (conditionData ctx conditionName (n + (k + 1)) ((nodes' ++ after) :: stack) tables data) := by
    intro n tables data
    have hsame := h conditionName (n + 1) (after :: stack) tables data
    rw [Nat.add_assoc, Nat.add_comm 1 k] at hsame
    exact ((conditionData_split n nodes after stack tables data).trans_eq hsame).trans_eq
      (conditionData_concat _ nodes' after stack tables data)
  have hbehind := conditionData_append_approximates (fuel + 1) (fun n _ => hmiddle n) [before]
    tables data
  rw [Nat.add_assoc, show 1 + (k + 1) = k + 2 by omega] at hbehind
  exact ((conditionData_split fuel before _ stack tables data).trans_eq hbehind).trans_eq
    (conditionData_concat _ before _ stack tables data)

end ConditionsApproximate

end Conditions

/-! ## Nodes -/

/-- Two states of a host that may differ in the configurations loaded so far. -/
structure Loading.Related (C : List Block → List Block → Prop) (s t : Loading) : Prop where
  configurations : C s.configurations t.configurations
  configurationEntries : s.configurationEntries = t.configurationEntries
  loadedConditions : s.loadedConditions = t.loadedConditions
  tables : s.tables = t.tables

/-- The relation is kept when one more block is loaded on both sides. -/
def KeptByPush (C : List Block → List Block → Prop) : Prop :=
  ∀ blocks blocks' b, C blocks blocks' → C (blocks ++ [b]) (blocks' ++ [b])

theorem keptByPush_eq : KeptByPush (· = ·) := by
  rintro blocks _ b rfl
  rfl

namespace Loading.Related

variable {C D : List Block → List Block → Prop} {s t inner inner' : Loading}

theorem imp (himp : ∀ blocks blocks', C blocks blocks' → D blocks blocks') (h : Related C s t) :
    Related D s t :=
  ⟨himp _ _ h.configurations, h.configurationEntries, h.loadedConditions, h.tables⟩

theorem enter (h : Related C s t) : Related C s.enter t.enter :=
  ⟨h.configurations, rfl, h.loadedConditions, h.tables⟩

/-- Leaving a block with the same configuration on both sides. -/
theorem leave (hpush : KeptByPush D) (h : Related C s t) (hinner : Related D inner inner') (b : Block) :
    Related D (s.leave inner b) (t.leave inner' b) :=
  ⟨hpush _ _ b hinner.configurations, h.configurationEntries, h.loadedConditions, hinner.tables⟩

/-- A directive, whose children are not looked at. -/
theorem addDirective (h : Related C s t) (name : Str) (entries : List KdlEntry)
    (children children' : Option KdlDocument) :
    Related C
      { s with configurationEntries :=
          addDirective s.configurationEntries ⟨name, entries, children⟩ }
      { t with configurationEntries :=
          addDirective t.configurationEntries ⟨name, entries, children'⟩ } := by
  refine ⟨h.configurations, ?_, h.loadedConditions, h.tables⟩
  rw [h.configurationEntries]
  rfl

end Loading.Related

/-- The nodes of one list do as well as those of another one. -/
def NodesApproximate (C D : List Block → List Block → Prop)
    (iterate iterate' : List Conditions → Bool → Loading → KdlNode → Load Loading)
    (nodes nodes' : KdlDocument) : Prop :=
  ∀ enclosing isErrorConfig s t, Loading.Related C s t →
    Approximates (Loading.Related D) (nodes.foldlM (iterate enclosing isErrorConfig) s)
      (nodes'.foldlM (iterate' enclosing isErrorConfig) t)

/-- The block of error handling for any status code, whose nodes are all directives. -/
def anyErrorBlock (ctx : LoadingContext) (enclosing : List Conditions) (children : KdlDocument) :
    Block :=
  ⟨⟨children.foldl addDirective ∅, ctx.hostFilter.filters none (some .any)⟩, enclosing⟩

section Node

variable {ctx : LoadingContext}
  {iterate iterate' : List Conditions → Bool → Loading → KdlNode → Load Loading}
  {C D : List Block → List Block → Prop} {enclosing : List Conditions} {isErrorConfig : Bool}
  {s t : Loading} {name : Str} {entries : List KdlEntry} {children children' : Option KdlDocument}

theorem optionRel_self {P : KdlDocument → KdlDocument → Prop} (hself : ∀ nodes, P nodes nodes)
    (children : Option KdlDocument) : Option.Rel P children children := by
  cases children with
  | none => exact .none
  | some nodes => exact .some (hself nodes)

theorem blockHeader_approximates {P : KdlDocument → KdlDocument → Prop}
    (hchildren : Option.Rel P children children') :
    Approximates (fun header header' => P header.1 header'.1 ∧ header.2 = header'.2)
      (Load.ofExcept (blockHeader ctx ⟨name, entries, children⟩))
      (Load.ofExcept (blockHeader ctx ⟨name, entries, children'⟩)) := by
  cases hchildren with
  | none => exact .error _
  | @some nodes nodes' h =>
      have hargument : KdlNode.firstArgument ⟨name, entries, some nodes'⟩ =
          KdlNode.firstArgument ⟨name, entries, some nodes⟩ := rfl
      rw [blockHeader, blockHeader, hargument]
      cases KdlNode.firstArgument ⟨name, entries, some nodes⟩ with
      | none => exact .error _
      | some argument =>
          dsimp only
          cases argument.value.asString with
          | none => exact .error _
          | some text => exact .ok ⟨h, rfl⟩

theorem iterateUse_approximates
    (hnodes : ∀ nodes, NodesApproximate C D iterate iterate' nodes nodes)
    (hst : Loading.Related C s t) :
    Approximates (Loading.Related D)
      (iterateUse ctx iterate enclosing isErrorConfig s ⟨name, entries, children⟩)
      (iterateUse ctx iterate' enclosing isErrorConfig t ⟨name, entries, children'⟩) := by
  rw [iterateUse, iterateUse]
  exact Approximates.bind_left fun snippet => hnodes snippet _ _ s t hst

theorem iterateLocation_approximates (hpush : KeptByPush D)
    (hchildren : Option.Rel (NodesApproximate C D iterate iterate') children children')
    (hst : Loading.Related C s t) :
    Approximates (Loading.Related D)
      (iterateLocation ctx iterate enclosing isErrorConfig s ⟨name, entries, children⟩)
      (iterateLocation ctx iterate' enclosing isErrorConfig t ⟨name, entries, children'⟩) := by
  rw [iterateLocation, iterateLocation]
  split
  · exact .error _
  · split
    · exact .error _
    · apply Approximates.bind (blockHeader_approximates hchildren)
      rintro ⟨nodes, location⟩ ⟨nodes', location'⟩ ⟨hnodes, hlocation⟩
      obtain rfl : location = location' := hlocation
      apply Approximates.bind (hnodes _ _ _ _ hst.enter)
      intro inner inner' hinner
      have hentries : locationEntries ⟨name, entries, children'⟩ location inner'.configurationEntries =
          locationEntries ⟨name, entries, children⟩ location inner.configurationEntries := by
        rw [hinner.configurationEntries]
        rfl
      rw [hentries]
      exact .ok (hst.leave hpush hinner _)

theorem iterateCondition_approximates {fuel k : Nat}
    (hchildren : Option.Rel (ConditionsApproximate ctx k) children children')
    (hst : Loading.Related C s t) :
    Approximates (Loading.Related C)
      (iterateCondition ctx fuel isErrorConfig s ⟨name, entries, children⟩)
      (iterateCondition ctx (fuel + k) isErrorConfig t ⟨name, entries, children'⟩) := by
  rw [iterateCondition, iterateCondition]
  split
  · exact .error _
  · apply Approximates.bind (blockHeader_approximates hchildren)
    rintro ⟨nodes, conditionName⟩ ⟨nodes', conditionName'⟩ ⟨hnodes, hname⟩
    obtain rfl : conditionName = conditionName' := hname
    dsimp only
    have hdata := hnodes conditionName fuel [] s.tables []
    rw [← hst.tables]
    apply Approximates.bind hdata
    rintro ⟨tables, conditionsData⟩ _ rfl
    refine .ok ⟨hst.configurations, hst.configurationEntries, ?_, rfl⟩
    exact congrArg (AList.insert conditionName conditionsData) hst.loadedConditions

theorem iterateConditional_approximates {wrap : List ConditionalData → Conditional}
    (hpush : KeptByPush D)
    (hchildren : Option.Rel (NodesApproximate C D iterate iterate') children children')
    (hst : Loading.Related C s t) :
    Approximates (Loading.Related D)
      (iterateConditional ctx iterate wrap enclosing isErrorConfig s ⟨name, entries, children⟩)
      (iterateConditional ctx iterate' wrap enclosing isErrorConfig t ⟨name, entries, children'⟩) := by
  rw [iterateConditional, iterateConditional]
  split
  · exact .error _
  · apply Approximates.bind (blockHeader_approximates hchildren)
    rintro ⟨nodes, conditionName⟩ ⟨nodes', conditionName'⟩ ⟨hnodes, hname⟩
    obtain rfl : conditionName = conditionName' := hname
    dsimp only
    have hfound : findCondition t conditionName = findCondition s conditionName := by
      rw [findCondition, findCondition, hst.loadedConditions]
    rw [hfound]
    apply Approximates.bind_left
    intro conditionals
    apply Approximates.bind (hnodes _ _ _ _ hst.enter)
    intro inner inner' hinner
    rw [← hinner.configurationEntries]
    exact .ok (hst.leave hpush hinner _)

/-- An error configuration with a status code. -/
theorem iterateErrorConfig_status_approximates (hpush : KeptByPush D)
    (hstatus : KdlNode.firstArgument ⟨name, entries, children⟩ ≠ none)
    (hchildren : Option.Rel (NodesApproximate C D iterate iterate') children children')
    (hst : Loading.Related C s t) :
    Approximates (Loading.Related D)
      (iterateErrorConfig ctx iterate enclosing isErrorConfig s ⟨name, entries, children⟩)
      (iterateErrorConfig ctx iterate' enclosing isErrorConfig t ⟨name, entries, children'⟩) := by
  have hargument : KdlNode.firstArgument ⟨name, entries, children'⟩ =
      KdlNode.firstArgument ⟨name, entries, children⟩ := rfl
  rw [iterateErrorConfig, iterateErrorConfig, hargument]
  split
  · exact .error _
  · cases hchildren with
    | none => exact .error _
    | some hnodes =>
        obtain ⟨argument, hsome⟩ := Option.ne_none_iff_exists'.1 hstatus
        rw [hsome]
        dsimp only
        cases argument.value.asInteger with
        | none => exact .error _
        | some code =>
            apply Approximates.bind (hnodes _ _ _ _ hst.enter)
            intro inner inner' hinner
            rw [← hinner.configurationEntries]
            exact .ok (hst.leave hpush hinner _)

/-- An error configuration without a status code. -/
theorem iterateErrorConfig_any_approximates
    (hany : KdlNode.firstArgument ⟨name, entries, children⟩ = none)
    (hchildren : Option.Rel (fun nodes nodes' => ∀ blocks blocks', C blocks blocks' →
      D (blocks ++ [anyErrorBlock ctx enclosing nodes])
        (blocks' ++ [anyErrorBlock ctx enclosing nodes'])) children children')
    (hst : Loading.Related C s t) :
    Approximates (Loading.Related D)
      (iterateErrorConfig ctx iterate enclosing isErrorConfig s ⟨name, entries, children⟩)
      (iterateErrorConfig ctx iterate' enclosing isErrorConfig t ⟨name, entries, children'⟩) := by
  have hargument : KdlNode.firstArgument ⟨name, entries, children'⟩ =
      KdlNode.firstArgument ⟨name, entries, children⟩ := rfl
  rw [iterateErrorConfig, iterateErrorConfig, hargument, hany]
  split
  · exact .error _
  · cases hchildren with
    | none => exact .error _
    | some hblocks =>
        exact .ok ⟨hblocks _ _ hst.configurations, hst.configurationEntries, hst.loadedConditions,
          hst.tables⟩

/-- More fuel gives the same configurations. -/
theorem kdlIterateFn_mono (hpush : KeptByPush C) (fuel k : Nat) (nodes : KdlDocument) :
    NodesApproximate C C (kdlIterateFn ctx fuel) (kdlIterateFn ctx (fuel + k)) nodes nodes := by
  induction fuel generalizing nodes with
  | zero => exact fun _ _ _ _ => Approximates.foldlM (fun _ _ _ _ => .outOfFuel _) nodes
  | succ fuel ih =>
      intro enclosing isErrorConfig s t hst
      apply Approximates.foldlM ?_ nodes hst
      rintro s t ⟨name, entries, children⟩ hst
      have hinner := optionRel_self ih children
      rw [Nat.add_right_comm fuel 1 k, kdlIterateFn, kdlIterateFn]
      dsimp only
      split
      · exact iterateUse_approximates ih hst
      · split
        · exact iterateLocation_approximates hpush hinner hst
        · split
          · exact iterateCondition_approximates (optionRel_self (ConditionsApproximate.refl k) children)
              hst
          · split
            · exact iterateConditional_approximates hpush hinner hst
            · split
              · exact iterateConditional_approximates hpush hinner hst
              · split
                · by_cases hargument : KdlNode.firstArgument ⟨name, entries, children⟩ = none
                  · apply iterateErrorConfig_any_approximates hargument ?_ hst
                    exact optionRel_self (fun nodes _ _ hblocks => hpush _ _ _ hblocks) children
                  · exact iterateErrorConfig_status_approximates hpush hargument hinner hst
                · exact .ok (hst.addDirective name entries children children)

end Node

/-! ## Files -/

/-- Two states of a file that may differ in the configurations loaded so far. -/
structure FileLoading.Related (C : List Block → List Block → Prop) (s t : FileLoading) : Prop where
  configurations : C s.configurations t.configurations
  loadedConditions : s.loadedConditions = t.loadedConditions
  snippets : s.snippets = t.snippets
  tables : s.tables = t.tables
  loadedPaths : s.loadedPaths = t.loadedPaths

/-- Relations between the blocks loaded in two runs. The included files keep to the weaker one. -/
structure BlockRelations (E D : List Block → List Block → Prop) : Prop where
  refl : ∀ blocks, E blocks blocks
  weaker : ∀ blocks blocks', D blocks blocks' → E blocks blocks'
  append : ∀ front front' back back', E front front' → E back back' → E (front ++ back) (front' ++ back')
  append_left : ∀ front front' back back', D front front' → E back back' →
    D (front ++ back) (front' ++ back')

namespace BlockRelations

variable {E D : List Block → List Block → Prop}

theorem eq : BlockRelations (· = ·) (· = ·) where
  refl _ := rfl
  weaker _ _ h := h
  append := by
    rintro front _ back _ rfl rfl
    rfl
  append_left := by
    rintro front _ back _ rfl rfl
    rfl

/-- The weaker relation with itself. -/
theorem same (h : BlockRelations E D) : BlockRelations E E :=
  ⟨h.refl, fun _ _ h => h, h.append, h.append⟩

theorem keptByPush (h : BlockRelations E D) : KeptByPush D :=
  fun _ _ b hblocks => h.append_left _ _ [b] [b] hblocks (h.refl [b])

end BlockRelations

/-- What loads an included file. -/
abbrev Loader := PathBuf → List PathBuf → Nat → Load (List Block × List PathBuf × Nat)

/-- Two loaders of included files. -/
def Loader.Approximates (E : List Block → List Block → Prop) (load load' : Loader) : Prop :=
  ∀ path loadedPaths tables, Lib.Approximates (fun result result' =>
    E result.1 result'.1 ∧ result.2 = result'.2)
      (load path loadedPaths tables) (load' path loadedPaths tables)

/-- The snippets behind a top-level node. -/
def defineSnippet (snippets : HashMap Str KdlDocument) (node : KdlNode) : HashMap Str KdlDocument :=
  if node.name = "snippet".toList then
    match node.firstString, node.children with
    | some snippetName, some children => snippets.insert snippetName children
    | _, _ => snippets
  else snippets

section File

variable {env : Environment} {canonicalPath : PathBuf} {E D : List Block → List Block → Prop}
  {fuel k : Nat} {s t s' : FileLoading}

theorem loadHost_approximates {children children' : KdlDocument} (hpush : KeptByPush D)
    (hnodes : ∀ ctx : LoadingContext, ctx.snippets = s.snippets →
      NodesApproximate E D (kdlIterateFn ctx fuel) (kdlIterateFn ctx (fuel + k)) children children')
    (hst : FileLoading.Related E s t) (globalName : Str) :
    Approximates (FileLoading.Related D) (loadHost env canonicalPath fuel children s globalName)
      (loadHost env canonicalPath (fuel + k) children' t globalName) := by
  rw [loadHost, loadHost]
  apply Approximates.bind_left
  intro hostFilter
  dsimp only
  rw [← hst.snippets, ← hst.loadedConditions, ← hst.tables]
  have hrun := hnodes ⟨env.toLibraries, canonicalPath, hostFilter, s.snippets⟩ rfl [] false
    ⟨s.configurations, ∅, s.loadedConditions, s.tables⟩
    ⟨t.configurations, ∅, s.loadedConditions, s.tables⟩ ⟨hst.configurations, rfl, rfl, rfl⟩
  apply Approximates.bind hrun
  intro inner inner' hinner
  rw [← hinner.configurationEntries]
  exact .ok ⟨hpush _ _ _ hinner.configurations, hinner.loadedConditions, rfl, hinner.tables,
    hst.loadedPaths⟩

theorem snippets_of_loadHost {children : KdlDocument} {globalName : Str}
    (h : loadHost env canonicalPath fuel children s globalName = pure s') :
    s'.snippets = s.snippets := by
  rw [loadHost] at h
  obtain ⟨hostFilter, -, h⟩ := Load.of_bind h
  obtain ⟨inner, -, h⟩ := Load.of_bind h
  rw [← Load.pure_inj h]

/-- What a top-level node does to the snippets. -/
theorem snippets_of_loadNode {node : KdlNode} {load : Loader}
    (h : loadNode env canonicalPath fuel load s node = pure s') :
    s'.snippets = defineSnippet s.snippets node := by
  have hsame : ∀ s t u : FileLoading, t.snippets = s.snippets → u.snippets = t.snippets →
      u.snippets = s.snippets := fun _ _ _ hst htu => htu.trans hst
  unfold loadNode at h
  rw [defineSnippet]
  split at h
  · rename_i hname
    rw [if_pos hname]
    split at h
    · rename_i snippetName hstring
      split at h
      · rename_i children hchildren
        rw [← Load.pure_inj h, hstring, hchildren]
      · exact (Load.of_throw h).elim
    · exact (Load.of_throw h).elim
  · rename_i hname
    rw [if_neg hname]
    split at h
    · exact Load.of_foldlM (R := fun s t => t.snippets = s.snippets) (fun _ => rfl) hsame
        (fun _ _ _ => snippets_of_loadHost) _ h
    · split at h
      · obtain ⟨files, -, h⟩ := Load.of_bind h
        apply Load.of_foldlM (R := fun s t => t.snippets = s.snippets) (fun _ => rfl) hsame ?_ _ h
        intro s file t hfile
        obtain ⟨⟨configurations, loadedPaths, tables⟩, -, hfile⟩ := Load.of_bind hfile
        rw [← Load.pure_inj hfile]
      · exact (Load.of_throw h).elim

theorem snippets_of_nodes {load : Loader} (nodes : KdlDocument)
    (h : nodes.foldlM (loadNode env canonicalPath fuel load) s = pure s') :
    s'.snippets = nodes.foldl defineSnippet s.snippets := by
  induction nodes generalizing s with
  | nil =>
      rw [List.foldlM_nil] at h
      rw [← Load.pure_inj h, List.foldl_nil]
  | cons node nodes ih =>
      rw [List.foldlM_cons] at h
      obtain ⟨u, hu, hrest⟩ := Load.of_bind h
      rw [ih hrest, snippets_of_loadNode hu, List.foldl_cons]

/-- A block at the top under each of its names. The nodes in it lead from one relation to the other. -/
theorem loadNode_host_approximates (hrelations : BlockRelations E D) {name : Str}
    {entries : List KdlEntry} {children children' : KdlDocument} {load load' : Loader}
    (hname : name ≠ "snippet".toList)
    (hnodes : ∀ ctx : LoadingContext, ctx.snippets = s.snippets →
      NodesApproximate E D (kdlIterateFn ctx fuel) (kdlIterateFn ctx (fuel + k)) children children')
    (hst : FileLoading.Related E s t) :
    Approximates (FileLoading.Related D)
      (loadNode env canonicalPath fuel load s ⟨name, entries, some children⟩)
      (loadNode env canonicalPath (fuel + k) load' t ⟨name, entries, some children'⟩) := by
  rw [loadNode, loadNode, if_neg hname, if_neg hname]
  dsimp only
  have hrun : Approximates (fun u u' => FileLoading.Related D u u' ∧ u.snippets = s.snippets)
      ((name.splitOn ',').foldlM (loadHost env canonicalPath fuel children) s)
      ((name.splitOn ',').foldlM (loadHost env canonicalPath (fuel + k) children') t) := by
    apply Approximates.foldlM_of_ne_nil
      (R := fun u u' => FileLoading.Related E u u' ∧ u.snippets = s.snippets)
    · rintro u u' ⟨h, hsnippets⟩
      exact ⟨⟨hrelations.weaker _ _ h.configurations, h.loadedConditions, h.snippets, h.tables,
        h.loadedPaths⟩, hsnippets⟩
    · rintro u u' globalName ⟨h, hsnippets⟩
      have hhost := fun ctx (hctx : ctx.snippets = u.snippets) => hnodes ctx (hctx.trans hsnippets)
      exact (loadHost_approximates hrelations.keptByPush hhost h globalName).and_left
        fun a ha => (snippets_of_loadHost ha).trans hsnippets
    · exact List.splitOn_ne_nil _ _
    · exact ⟨hst, rfl⟩
  exact hrun.imp fun _ _ h => h.1

/-- The same top-level node on both sides. -/
theorem loadNode_approximates (hrelations : BlockRelations E D) {load load' : Loader}
    (hload : Loader.Approximates E load load') (node : KdlNode) (hst : FileLoading.Related D s t) :
    Approximates (FileLoading.Related D) (loadNode env canonicalPath fuel load s node)
      (loadNode env canonicalPath (fuel + k) load' t node) := by
  rw [loadNode, loadNode]
  split
  · cases node.firstString with
    | none => exact .error _
    | some snippetName =>
        cases node.children with
        | none => exact .error _
        | some children =>
            refine .ok ⟨hst.configurations, hst.loadedConditions, ?_, hst.tables, hst.loadedPaths⟩
            exact congrArg (AList.insert snippetName children) hst.snippets
  · split
    · rename_i children _
      apply Approximates.foldlM ?_ _ hst
      exact fun u u' globalName h => loadHost_approximates hrelations.keptByPush
        (fun ctx _ => kdlIterateFn_mono hrelations.keptByPush fuel k children) h globalName
    · split
      · apply Approximates.bind_left
        intro files
        apply Approximates.foldlM ?_ files hst
        intro u u' file h
        rw [← h.loadedPaths, ← h.tables]
        apply Approximates.bind (hload file u.loadedPaths u.tables)
        rintro ⟨configurations, loadedPaths, tables⟩ ⟨configurations', rest⟩ ⟨hblocks, hrest⟩
        obtain rfl : (loadedPaths, tables) = rest := hrest
        exact .ok ⟨hrelations.append_left _ _ _ _ h.configurations hblocks, h.loadedConditions,
          h.snippets, rfl, rfl⟩
      · exact .error _

variable (env E D k) in
/-- The nodes of one file do as well as those of another one. -/
def DocumentApproximates (document document' : KdlDocument) : Prop :=
  ∀ canonicalPath fuel load load' s t, Loader.Approximates E load load' →
    FileLoading.Related E s t → s.snippets = ∅ →
      Approximates (FileLoading.Related D)
        (document.foldlM (loadNode env canonicalPath fuel load) s)
        (document'.foldlM (loadNode env canonicalPath (fuel + k) load') t)

theorem DocumentApproximates.same (hrelations : BlockRelations E D) (document : KdlDocument) :
    DocumentApproximates env E E k document document :=
  fun _ _ _ _ _ _ hload hst _ => Approximates.foldlM
    (fun _ _ node h => loadNode_approximates hrelations.same hload node h) document hst

/-- Files that differ in a block at the top. -/
theorem DocumentApproximates.of_host (hrelations : BlockRelations E D) {front back : KdlDocument}
    {name : Str} {entries : List KdlEntry} {children children' : KdlDocument}
    (hname : name ≠ "snippet".toList)
    (hnodes : ∀ ctx : LoadingContext, ctx.snippets = front.foldl defineSnippet ∅ →
      ∀ fuel, NodesApproximate E D (kdlIterateFn ctx fuel) (kdlIterateFn ctx (fuel + k))
        children children') :
    DocumentApproximates env E D k (front ++ ⟨name, entries, some children⟩ :: back)
      (front ++ ⟨name, entries, some children'⟩ :: back) := by
  intro canonicalPath fuel load load' s t hload hst hempty
  rw [List.foldlM_append, List.foldlM_append]
  have hsame : DocumentApproximates env E E k front front := .same hrelations front
  have hfront := hsame canonicalPath fuel load load' s t hload hst hempty
  apply Approximates.bind (hfront.and_left fun a ha => snippets_of_nodes front ha)
  rintro u u' ⟨h, hsnippets⟩
  rw [hempty] at hsnippets
  rw [List.foldlM_cons, List.foldlM_cons]
  apply Approximates.bind (loadNode_host_approximates hrelations hname
    (fun ctx hctx => hnodes ctx (hctx.trans hsnippets) fuel) h)
  intro v v' h
  exact Approximates.foldlM
    (fun _ _ node h => loadNode_approximates hrelations hload node h) back h

end File

/-- The environment with other contents of a file. -/
def Environment.withFile (env : Environment) (path : PathBuf) (contents : Str) : Environment :=
  { env with readToString := fun p => if p = path then .ok contents else env.readToString p }

namespace Environment

variable (env : Environment) {path p : PathBuf} (contents : Str)

theorem withFile_readToString_self : (env.withFile path contents).readToString path = .ok contents :=
  if_pos rfl

theorem withFile_readToString_of_ne (h : p ≠ path) :
    (env.withFile path contents).readToString p = env.readToString p :=
  if_neg h

theorem withFile_canonicalize : (env.withFile path contents).canonicalize = env.canonicalize := rfl

theorem withFile_parseKdl : (env.withFile path contents).parseKdl = env.parseKdl := rfl

/-- The contents are read when a file is loaded, and nowhere else. -/
theorem loadNode_withFile : loadNode (env.withFile path contents) = loadNode env := rfl

end Environment

theorem Load.ofExcept_mapError_ok {α : Type} (a : α) (f : Str → Str) :
    Load.ofExcept ((Except.ok a).mapError f) = pure a := rfl

/-- Two runs that find different contents in a file. -/
theorem loadConfigurationInner_approximates {env : Environment} {E D : List Block → List Block → Prop}
    {k : Nat} (hrelations : BlockRelations E D) {path : PathBuf} {contents contents' : Str}
    {document document' : KdlDocument} (hdocument : env.parseKdl contents = .ok document)
    (hdocument' : env.parseKdl contents' = .ok document')
    (happroximates : DocumentApproximates env E D k document document') (fuel : Nat) :
    ∀ p loadedPaths tables, Approximates (fun result result' =>
        E result.1 result'.1 ∧ result.2 = result'.2 ∧ (p = path → D result.1 result'.1))
      (loadConfigurationInner (env.withFile path contents) fuel p loadedPaths tables)
      (loadConfigurationInner (env.withFile path contents') (fuel + k) p loadedPaths tables) := by
  induction fuel with
  | zero => exact fun _ _ _ => .outOfFuel _
  | succ fuel ih =>
      intro p loadedPaths tables
      have hload : Loader.Approximates E (loadConfigurationInner (env.withFile path contents) fuel)
          (loadConfigurationInner (env.withFile path contents') (fuel + k)) :=
        fun p loadedPaths tables => (ih p loadedPaths tables).imp fun _ _ h => ⟨h.1, h.2.1⟩
      rw [Nat.add_right_comm fuel 1 k, loadConfigurationInner, loadConfigurationInner]
      simp only [Environment.loadNode_withFile, Environment.withFile_canonicalize,
        Environment.withFile_parseKdl]
      by_cases hloop : loadedPaths.contains ((env.canonicalize p).getD p) = true
      · simp only [hloop, if_true]
        exact .error _
      · simp only [hloop]
        have hstart : ∀ canonicalPath, FileLoading.Related E
            ⟨[], ∅, ∅, tables, canonicalPath :: loadedPaths⟩
            ⟨[], ∅, ∅, tables, canonicalPath :: loadedPaths⟩ :=
          fun _ => ⟨hrelations.refl [], rfl, rfl, rfl, rfl⟩
        by_cases hp : p = path
        · subst hp
          rw [Environment.withFile_readToString_self, Environment.withFile_readToString_self]
          rw [Load.ofExcept_mapError_ok, Load.ofExcept_mapError_ok, pure_bind, pure_bind, hdocument,
            hdocument', Load.ofExcept_mapError_ok, Load.ofExcept_mapError_ok, pure_bind, pure_bind]
          apply Approximates.bind (happroximates _ fuel _ _ _ _ hload (hstart _) rfl)
          intro s t hst
          exact .ok ⟨hrelations.weaker _ _ hst.configurations, by rw [hst.loadedPaths, hst.tables],
            fun _ => hst.configurations⟩
        -- another file has the same contents for both, and differs only in the files it includes
        · rw [Environment.withFile_readToString_of_ne env contents hp,
            Environment.withFile_readToString_of_ne env contents' hp]
          apply Approximates.bind_left
          intro fileContents
          apply Approximates.bind_left
          intro parsed
          have hsame : DocumentApproximates env E E k parsed parsed := .same hrelations parsed
          apply Approximates.bind (hsame _ fuel _ _ _ _ hload (hstart _) rfl)
          intro s t hst
          exact .ok ⟨hst.configurations, by rw [hst.loadedPaths, hst.tables], fun h => absurd h hp⟩

end Ferron.Config
