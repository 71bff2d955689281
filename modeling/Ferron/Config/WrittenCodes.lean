import Ferron.Config.Kdl
import Mathlib.Data.List.Forall2

/-!
# Status codes as they are written

The loader cuts the status code of an `error_config` block to 16 bits and gives the block no conditions.
`fileCodes` goes through a file like the loader and collects the codes as they are written, one entry for
each block that is loaded (`loadConfiguration_writtenWith`).
-/

set_option autoImplicit false

namespace Ferron.Config

open Ferron.Common

/-! ## The codes of a file -/

/-- The nodes of the snippet that a node uses. -/
def usedNodes (snippets : HashMap Str KdlDocument) (node : KdlNode) : KdlDocument :=
  (findSnippet snippets node).toOption.getD []

/-- The status codes of the blocks that are loaded for a node of a host, in the order of the loading. A
block without a code has none. -/
def nodeCodes (snippets : HashMap Str KdlDocument) : Nat → KdlNode → List (Option Int)
  | 0, _ => []
  | fuel + 1, node =>
      let children := (node.children.getD []).flatMap (nodeCodes snippets fuel)
      if node.name = "use".toList then (usedNodes snippets node).flatMap (nodeCodes snippets fuel)
      else if node.name = "location".toList then children ++ [none]
      else if node.name = "condition".toList then []
      else if node.name = "if".toList then children ++ [none]
      else if node.name = "if_not".toList then children ++ [none]
      else if node.name = "error_config".toList then
        match node.firstArgument with
        | none => [none]
        | some errorStatusCode => children ++ [errorStatusCode.value.asInteger]
      else []

/-- The codes of a file so far, and its snippets. -/
structure FileCodes where
  codes : List (Option Int)
  snippets : HashMap Str KdlDocument

/-- The codes with those of a top-level node. -/
def topLevelCodes (env : Environment) (canonicalPath : PathBuf) (fuel : Nat)
    (load : PathBuf → List (Option Int)) (state : FileCodes) (node : KdlNode) : FileCodes :=
  if node.name = "snippet".toList then
    { state with snippets :=
        state.snippets.insert (node.firstString.getD []) (node.children.getD []) }
  else
    match node.children with
    | some children =>
        { state with codes := state.codes ++ (node.name.splitOn ',').flatMap fun _ =>
            children.flatMap (nodeCodes state.snippets fuel) ++ [none] }
    | none =>
        { state with codes :=
            state.codes ++ ((includeFiles env canonicalPath node).toOption.getD []).flatMap load }

/-- The codes of the blocks that are loaded from a file. -/
def fileCodes (env : Environment) : Nat → PathBuf → List (Option Int)
  | 0, _ => []
  | fuel + 1, path =>
      let canonicalPath := (env.canonicalize path).getD path
      let document := (env.readToString path).toOption.bind fun fileContents =>
        (env.parseKdl fileContents).toOption
      ((document.getD []).foldl (topLevelCodes env canonicalPath fuel (fileCodes env fuel))
        ⟨[], ∅⟩).codes

/-! ## The blocks and their codes -/

/-- The status of a block is its code, cut to 16 bits. An error configuration has no conditions. -/
structure WrittenWith (b : Block) (code : Option Int) : Prop where
  status_iff : ∀ s, b.filters.errorHandlerStatus = some (.status s) ↔ ∃ n, code = some n ∧ s = asU16 n
  condition_eq : b.filters.errorHandlerStatus.isSome = true → b.filters.condition = none

namespace WrittenWith

variable {b : Block}

/-- A location or a conditional block has no status. -/
theorem of_noStatus (h : b.filters.errorHandlerStatus = none) : WrittenWith b none := by
  constructor
  · intro s
    refine iff_of_false ?_ ?_
    · rw [h]
      exact (Option.some_ne_none _).symm
    · rintro ⟨n, hnone, -⟩
      exact Option.some_ne_none n hnone.symm
  · intro hsome
    rw [h] at hsome
    exact absurd hsome Bool.false_ne_true

/-- A catch-all block has no code. -/
theorem of_any (h : b.filters.errorHandlerStatus = some .any) (hnone : b.filters.condition = none) :
    WrittenWith b none := by
  constructor
  · intro s
    refine iff_of_false ?_ ?_
    · rw [h, Option.some.injEq]
      exact fun hstatus => nomatch hstatus
    · rintro ⟨n, hnone, -⟩
      exact Option.some_ne_none n hnone.symm
  · exact fun _ => hnone

/-- A block with a code has it as its status. -/
theorem of_status {n : Int} (h : b.filters.errorHandlerStatus = some (.status (asU16 n)))
    (hnone : b.filters.condition = none) : WrittenWith b (some n) := by
  constructor
  · intro s
    rw [h, Option.some.injEq, ErrorHandlerStatus.status.injEq]
    constructor
    · rintro rfl
      exact ⟨n, rfl, rfl⟩
    · rintro ⟨m, hcode, rfl⟩
      rw [Option.some.inj hcode]
  · exact fun _ => hnone

end WrittenWith

/-- Error configurations have no conditions. -/
theorem condition_eq_of_mem {blocks : List Block} {codes : List (Option Int)}
    (h : List.Forall₂ WrittenWith blocks codes) {b : Block} (hb : b ∈ blocks)
    (hsome : b.filters.errorHandlerStatus.isSome = true) : b.filters.condition = none := by
  induction h with
  | nil => exact absurd hb List.not_mem_nil
  | cons hcode _ ih =>
      rcases List.mem_cons.1 hb with rfl | hb
      · exact hcode.condition_eq hsome
      · exact ih hb

/-- A run and a fold beside it keep what each step of both keeps. -/
theorem Load.of_foldlM_foldl {α σ τ : Type} {Agrees : σ → τ → Prop} {f : σ → α → Load σ}
    {g : τ → α → τ} (hstep : ∀ s a s' t, f s a = pure s' → Agrees s t → Agrees s' (g t a))
    (l : List α) {s s' : σ} {t : τ} (h : l.foldlM f s = pure s') (hst : Agrees s t) :
    Agrees s' (l.foldl g t) := by
  induction l generalizing s t with
  | nil =>
      rw [List.foldlM_nil] at h
      rw [← Load.pure_inj h]
      exact hst
  | cons a l ih =>
      rw [List.foldlM_cons] at h
      obtain ⟨u, hu, hrest⟩ := Load.of_bind h
      exact ih hrest (hstep s a u t hu hst)

/-- The same where each step adds to a list. -/
theorem Load.of_foldlM_flatMap {α σ γ : Type} {Agrees : σ → List γ → Prop} {f : σ → α → Load σ}
    {g : α → List γ} (hstep : ∀ s a s' t, f s a = pure s' → Agrees s t → Agrees s' (t ++ g a))
    (l : List α) {s s' : σ} {t : List γ} (h : l.foldlM f s = pure s') (hst : Agrees s t) :
    Agrees s' (t ++ l.flatMap g) := by
  rw [List.flatMap_def, ← List.foldl_append_eq_append]
  exact Load.of_foldlM_foldl hstep l h hst

section Node

/-- The blocks of a state with their codes. -/
def HasCodes (state : Loading) (codes : List (Option Int)) : Prop :=
  List.Forall₂ WrittenWith state.configurations codes

variable {ctx : LoadingContext} {iterate : List Conditions → Bool → Loading → KdlNode → Load Loading}
  {enclosing : List Conditions} {isErrorConfig : Bool} {state state' : Loading} {node : KdlNode}
  {codes : List (Option Int)}

/-- A block comes behind those in it, and its code as well. -/
theorem hasCodes_leave {inner : Loading} {b : Block} {innerCodes : List (Option Int)}
    {code : Option Int} (hinner : HasCodes inner (codes ++ innerCodes)) (hb : WrittenWith b code) :
    HasCodes (state.leave inner b) (codes ++ (innerCodes ++ [code])) := by
  rw [← List.append_assoc]
  exact List.rel_append hinner (.cons hb .nil)

variable {codesOf : KdlNode → List (Option Int)}
  (hiterate : ∀ enclosing isErrorConfig state node state' codes,
    iterate enclosing isErrorConfig state node = pure state' → HasCodes state codes →
      HasCodes state' (codes ++ codesOf node))

include hiterate

theorem hasCodes_of_nodes {nodes : KdlDocument}
    (h : nodes.foldlM (iterate enclosing isErrorConfig) state = pure state')
    (hcodes : HasCodes state codes) : HasCodes state' (codes ++ nodes.flatMap codesOf) :=
  Load.of_foldlM_flatMap (hiterate enclosing isErrorConfig) nodes h hcodes

theorem hasCodes_of_iterateUse
    (h : iterateUse ctx iterate enclosing isErrorConfig state node = pure state')
    (hcodes : HasCodes state codes) :
    HasCodes state' (codes ++ (usedNodes ctx.snippets node).flatMap codesOf) := by
  rw [iterateUse] at h
  obtain ⟨snippet, hsnippet, hnodes⟩ := Load.of_bind h
  have hused : usedNodes ctx.snippets node = snippet := by
    rw [usedNodes, show findSnippet ctx.snippets node = .ok snippet from Option.some.inj hsnippet]
    rfl
  rw [hused]
  exact hasCodes_of_nodes hiterate hnodes hcodes

omit hiterate in
/-- The nodes of a block are its children. -/
theorem children_of_blockHeader {children : KdlDocument} {text : Str}
    (h : Load.ofExcept (blockHeader ctx node) = pure (children, text)) :
    node.children.getD [] = children := by
  have hheader : blockHeader ctx node = .ok (children, text) := Option.some.inj h
  unfold blockHeader at hheader
  split at hheader
  · nomatch hheader
  · rename_i nodes hnodes
    split at hheader
    · nomatch hheader
    · split at hheader
      · nomatch hheader
      · rw [hnodes, (Prod.mk.inj (Except.ok.inj hheader)).1]
        rfl

theorem hasCodes_of_iterateLocation
    (h : iterateLocation ctx iterate enclosing isErrorConfig state node = pure state')
    (hcodes : HasCodes state codes) :
    HasCodes state' (codes ++ ((node.children.getD []).flatMap codesOf ++ [none])) := by
  unfold iterateLocation at h
  split at h
  · exact (Load.of_throw h).elim
  · split at h
    · exact (Load.of_throw h).elim
    · obtain ⟨⟨children, location⟩, hheader, h⟩ := Load.of_bind h
      obtain ⟨inner, hinner, h⟩ := Load.of_bind h
      rw [← Load.pure_inj h, children_of_blockHeader hheader]
      exact hasCodes_leave (hasCodes_of_nodes hiterate hinner hcodes) (.of_noStatus rfl)

theorem hasCodes_of_iterateConditional {wrap : List ConditionalData → Conditional}
    (h : iterateConditional ctx iterate wrap enclosing isErrorConfig state node = pure state')
    (hcodes : HasCodes state codes) :
    HasCodes state' (codes ++ ((node.children.getD []).flatMap codesOf ++ [none])) := by
  unfold iterateConditional at h
  split at h
  · exact (Load.of_throw h).elim
  · obtain ⟨⟨children, conditionName⟩, hheader, h⟩ := Load.of_bind h
    obtain ⟨conditionals, -, h⟩ := Load.of_bind h
    obtain ⟨inner, hinner, h⟩ := Load.of_bind h
    rw [← Load.pure_inj h, children_of_blockHeader hheader]
    exact hasCodes_leave (hasCodes_of_nodes hiterate hinner hcodes) (.of_noStatus rfl)

theorem hasCodes_of_iterateErrorConfig
    (h : iterateErrorConfig ctx iterate enclosing isErrorConfig state node = pure state')
    (hcodes : HasCodes state codes) :
    HasCodes state' (codes ++ match node.firstArgument with
      | none => [none]
      | some errorStatusCode =>
          (node.children.getD []).flatMap codesOf ++ [errorStatusCode.value.asInteger]) := by
  unfold iterateErrorConfig at h
  split at h
  · exact (Load.of_throw h).elim
  · cases hchildren : node.children with
    | none =>
        rw [hchildren] at h
        exact (Load.of_throw h).elim
    | some children =>
        rw [hchildren] at h
        dsimp only at h
        cases hargument : node.firstArgument with
        | none =>
            rw [hargument] at h
            rw [← Load.pure_inj h]
            exact List.rel_append hcodes (.cons (.of_any rfl rfl) .nil)
        | some errorStatusCode =>
            rw [hargument] at h
            dsimp only [Option.getD_some] at h ⊢
            cases hcode : errorStatusCode.value.asInteger with
            | none =>
                rw [hcode] at h
                exact (Load.of_throw h).elim
            | some code =>
                rw [hcode] at h
                obtain ⟨inner, hinner, h⟩ := Load.of_bind h
                rw [← Load.pure_inj h]
                exact hasCodes_leave (hasCodes_of_nodes hiterate hinner hcodes) (.of_status rfl rfl)

omit hiterate

theorem hasCodes_of_iterateCondition {fuel : Nat}
    (h : iterateCondition ctx fuel isErrorConfig state node = pure state')
    (hcodes : HasCodes state codes) : HasCodes state' codes := by
  unfold iterateCondition at h
  split at h
  · exact (Load.of_throw h).elim
  · obtain ⟨⟨children, conditionName⟩, -, h⟩ := Load.of_bind h
    obtain ⟨⟨tables, conditionsData⟩, -, h⟩ := Load.of_bind h
    rw [← Load.pure_inj h]
    exact hcodes

end Node

/-- What a node of a host adds has the codes of the node. -/
theorem hasCodes_of_kdlIterateFn (ctx : LoadingContext) (fuel : Nat) :
    ∀ enclosing isErrorConfig state node state' codes,
      kdlIterateFn ctx fuel enclosing isErrorConfig state node = pure state' →
        HasCodes state codes → HasCodes state' (codes ++ nodeCodes ctx.snippets fuel node) := by
  induction fuel with
  | zero =>
      intro enclosing isErrorConfig state node state' codes h
      exact (Load.of_none h).elim
  | succ fuel ih =>
      intro enclosing isErrorConfig state node state' codes h hcodes
      -- the loader and the codes go through the kinds of nodes in the same order
      rw [kdlIterateFn] at h
      rw [nodeCodes]
      split at h
      · rename_i huse
        rw [if_pos huse]
        exact hasCodes_of_iterateUse ih h hcodes
      · rename_i huse
        rw [if_neg huse]
        split at h
        · rename_i hlocation
          rw [if_pos hlocation]
          exact hasCodes_of_iterateLocation ih h hcodes
        · rename_i hlocation
          rw [if_neg hlocation]
          split at h
          · rename_i hcondition
            rw [if_pos hcondition, List.append_nil]
            exact hasCodes_of_iterateCondition h hcodes
          · rename_i hcondition
            rw [if_neg hcondition]
            split at h
            · rename_i hif
              rw [if_pos hif]
              exact hasCodes_of_iterateConditional ih h hcodes
            · rename_i hif
              rw [if_neg hif]
              split at h
              · rename_i hifNot
                rw [if_pos hifNot]
                exact hasCodes_of_iterateConditional ih h hcodes
              · rename_i hifNot
                rw [if_neg hifNot]
                split at h
                · rename_i herror
                  rw [if_pos herror]
                  exact hasCodes_of_iterateErrorConfig ih h hcodes
                · rename_i herror
                  rw [if_neg herror, List.append_nil, ← Load.pure_inj h]
                  exact hcodes

section File

/-- The blocks that were loaded from a file with their codes, and its snippets. -/
structure HasFileCodes (state : FileLoading) (codes : FileCodes) : Prop where
  written : List.Forall₂ WrittenWith state.configurations codes.codes
  snippets : state.snippets = codes.snippets

variable {env : Environment} {canonicalPath : PathBuf} {fuel : Nat} {state state' : FileLoading}
  {codes : FileCodes}

theorem hasFileCodes_of_loadHost {children : KdlDocument} {globalName : Str}
    (h : loadHost env canonicalPath fuel children state globalName = pure state')
    (hcodes : HasFileCodes state codes) :
    HasFileCodes state' { codes with codes := codes.codes ++
      (children.flatMap (nodeCodes codes.snippets fuel) ++ [none]) } := by
  rw [loadHost] at h
  obtain ⟨hostFilter, -, h⟩ := Load.of_bind h
  obtain ⟨inner, hinner, h⟩ := Load.of_bind h
  rw [← Load.pure_inj h]
  have hwritten := hasCodes_of_nodes (hasCodes_of_kdlIterateFn _ fuel) hinner hcodes.written
  dsimp only at hwritten
  rw [hcodes.snippets] at hwritten
  refine ⟨?_, hcodes.snippets⟩
  dsimp only
  rw [← List.append_assoc]
  exact List.rel_append hwritten (.cons (.of_noStatus rfl) .nil)

theorem hasFileCodes_of_loadNode {node : KdlNode}
    {load : PathBuf → List PathBuf → Nat → Load (List Block × List PathBuf × Nat)}
    {loadCodes : PathBuf → List (Option Int)}
    (hload : ∀ path loadedPaths tables result, load path loadedPaths tables = pure result →
      List.Forall₂ WrittenWith result.1 (loadCodes path))
    (h : loadNode env canonicalPath fuel load state node = pure state')
    (hcodes : HasFileCodes state codes) :
    HasFileCodes state' (topLevelCodes env canonicalPath fuel loadCodes codes node) := by
  unfold loadNode at h
  rw [topLevelCodes]
  split at h
  · rename_i hsnippet
    rw [if_pos hsnippet]
    split at h
    · rename_i snippetName hname
      split at h
      · rename_i children hchildren
        rw [← Load.pure_inj h, hname, hchildren, ← hcodes.snippets]
        exact ⟨hcodes.written, rfl⟩
      · exact (Load.of_throw h).elim
    · exact (Load.of_throw h).elim
  · rename_i hsnippet
    rw [if_neg hsnippet]
    cases hchildren : node.children with
    | some children =>
        rw [hchildren] at h
        exact @Load.of_foldlM_flatMap _ _ _
          (fun state codes' => HasFileCodes state { codes with codes := codes' }) _ _
          (fun s name s' codes' hhost hs => hasFileCodes_of_loadHost hhost hs) _ _ _ _ h hcodes
    | none =>
        rw [hchildren] at h
        dsimp only at h ⊢
        split at h
        · obtain ⟨files, hfiles, h⟩ := Load.of_bind h
          have hincluded : includeFiles env canonicalPath node = .ok files := Option.some.inj hfiles
          rw [hincluded]
          refine @Load.of_foldlM_flatMap _ _ _
            (fun state codes' => HasFileCodes state { codes with codes := codes' }) _ _ ?_ _ _ _ _ h hcodes
          intro s file s' codes' hfile hs
          obtain ⟨⟨configurations, loadedPaths, tables⟩, hresult, hfile⟩ := Load.of_bind hfile
          rw [← Load.pure_inj hfile]
          exact ⟨List.rel_append hs.written (hload _ _ _ _ hresult), hs.snippets⟩
        · exact (Load.of_throw h).elim

end File

theorem writtenWith_of_loadConfigurationInner (env : Environment) (fuel : Nat) :
    ∀ path loadedPaths tables result,
      loadConfigurationInner env fuel path loadedPaths tables = pure result →
        List.Forall₂ WrittenWith result.1 (fileCodes env fuel path) := by
  induction fuel with
  | zero =>
      intro path loadedPaths tables result h
      exact (Load.of_none h).elim
  | succ fuel ih =>
      intro path loadedPaths tables result h
      rw [loadConfigurationInner] at h
      split at h
      · exact (Load.of_throw h).elim
      · obtain ⟨fileContents, hcontents, h⟩ := Load.of_bind h
        obtain ⟨document, hdocument, h⟩ := Load.of_bind h
        obtain ⟨state, hstate, h⟩ := Load.of_bind h
        have hread : (env.readToString path).toOption = some fileContents := by
          cases hresult : env.readToString path with
          | error err =>
              rw [hresult] at hcontents
              cases hcontents
          | ok contents =>
              rw [hresult] at hcontents
              rw [show contents = fileContents from Load.pure_inj hcontents]
              rfl
        have hparsed : (env.parseKdl fileContents).toOption = some document := by
          cases hresult : env.parseKdl fileContents with
          | error err =>
              rw [hresult] at hdocument
              cases hdocument
          | ok nodes =>
              rw [hresult] at hdocument
              rw [show nodes = document from Load.pure_inj hdocument]
              rfl
        have hstart : HasFileCodes ⟨[], ∅, ∅, tables, (env.canonicalize path).getD path :: loadedPaths⟩
            ⟨[], ∅⟩ := ⟨.nil, rfl⟩
        have hcodes : HasFileCodes state (document.foldl (topLevelCodes env
            ((env.canonicalize path).getD path) fuel (fileCodes env fuel)) ⟨[], ∅⟩) :=
          Load.of_foldlM_foldl (fun _ _ _ _ => hasFileCodes_of_loadNode ih) document hstate hstart
        rw [← Load.pure_inj h, fileCodes]
        dsimp only
        rw [hread, Option.bind_some, hparsed, Option.getD_some]
        exact hcodes.written

/-- Each loaded block has the code that is written for it. -/
theorem loadConfiguration_writtenWith {env : Environment} {fuel : Nat} {path : PathBuf}
    {blocks : List Block} (h : loadConfiguration env fuel path = pure blocks) :
    List.Forall₂ WrittenWith blocks (fileCodes env fuel path) := by
  rw [loadConfiguration] at h
  obtain ⟨result, hresult, h⟩ := Load.of_bind h
  rw [← Load.pure_inj h]
  exact writtenWith_of_loadConfigurationInner env fuel _ _ _ _ hresult

end Ferron.Config
