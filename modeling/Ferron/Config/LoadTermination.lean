import Ferron.Config.SnippetUses
import Ferron.Config.NestedBlocks
import Mathlib.Data.Set.Finite.Basic

/-!
# When the loading of a configuration ends

The loader of a file goes into the files that the file includes, and into the nodes of its host blocks. No
file is loaded again, so with finitely many files only the nodes of a host block can keep the loader from
ending. `Reaches` says with which nodes and in which state the loader comes to a host block.

`loadConfiguration_ends_iff` says that the loader ends exactly when on its way no snippet is used again
within its own nodes, in the same place. A snippet that uses itself keeps it from ending
(`selfUse_endless`).
-/

set_option autoImplicit false

namespace Ferron.Config

open Ferron.Common Ferron.Lib Ferron.Lib.Expansion

/-! ## More fuel -/

theorem FileLoading.Related.eq {s t : FileLoading} (h : Related (· = ·) s t) : s = t := by
  obtain ⟨configurations, loadedConditions, snippets, tables, loadedPaths⟩ := h
  cases s
  cases t
  cases configurations
  cases loadedConditions
  cases snippets
  cases tables
  cases loadedPaths
  rfl

theorem FileLoading.Related.refl (s : FileLoading) : Related (· = ·) s s :=
  ⟨rfl, rfl, rfl, rfl, rfl⟩

/-- What an included file adds. -/
def includeFile (load : Loader) (state : FileLoading) (file : PathBuf) : Load FileLoading := do
  let (configurations, loadedPaths, tables) ← load file state.loadedPaths state.tables
  pure { state with
    configurations := state.configurations ++ configurations
    loadedPaths := loadedPaths
    tables := tables }

section File

variable (env : Environment) (path : PathBuf)

/-- The path by which a file is known. -/
def Environment.canonicalPath : PathBuf := (env.canonicalize path).getD path

/-- What the loader does with a top-level node of a file. -/
def fileNode (fuel : Nat) : FileLoading → KdlNode → Load FileLoading :=
  loadNode env (env.canonicalPath path) fuel (loadConfigurationInner env fuel)

/-- The state in which a file is begun. -/
def fileStart (loadedPaths : List PathBuf) (tables : Nat) : FileLoading :=
  ⟨[], ∅, ∅, tables, env.canonicalPath path :: loadedPaths⟩

/-- A file is not loaded yet, and its document is read. -/
structure Opens (loadedPaths : List PathBuf) (document : KdlDocument) : Prop where
  notLoaded : env.canonicalPath path ∉ loadedPaths
  read : ∃ contents, env.readToString path = .ok contents ∧ env.parseKdl contents = .ok document

variable {env path} {loadedPaths : List PathBuf}

theorem loadConfigurationInner_of_opens {document : KdlDocument}
    (h : Opens env path loadedPaths document) (fuel tables : Nat) :
    loadConfigurationInner env (fuel + 1) path loadedPaths tables = (do
      let state ← document.foldlM (fileNode env path fuel) (fileStart env path loadedPaths tables)
      pure (state.configurations, state.loadedPaths, state.tables)) := by
  obtain ⟨contents, hread, hparse⟩ := h.read
  have hnot : ¬ loadedPaths.contains ((env.canonicalize path).getD path) = true := by
    rw [List.contains_iff_mem]
    exact h.notLoaded
  rw [loadConfigurationInner, if_neg hnot, hread, Load.ofExcept_mapError_ok, pure_bind, hparse,
    Load.ofExcept_mapError_ok, pure_bind]
  rfl

/-- A file that is not opened gives an error. -/
theorem opens_or_error (env : Environment) (path : PathBuf) (loadedPaths : List PathBuf) :
    (∃ document, Opens env path loadedPaths document) ∨
      ∃ e, ∀ fuel tables, loadConfigurationInner env (fuel + 1) path loadedPaths tables = throw e := by
  by_cases hloaded : loadedPaths.contains ((env.canonicalize path).getD path) = true
  · refine Or.inr ⟨"Detected the server configuration file include loop while attempting to load \"".toList
      ++ env.canonicalPath path ++ "\"".toList, fun fuel tables => ?_⟩
    rw [loadConfigurationInner]
    exact if_pos hloaded
  · cases hread : env.readToString path with
    | error err =>
        refine Or.inr ⟨messageAt "Failed to read from the server configuration file"
          (env.canonicalPath path) ++ ": ".toList ++ err, fun fuel tables => ?_⟩
        rw [loadConfigurationInner, if_neg hloaded, hread]
        rfl
    | ok contents =>
        cases hparse : env.parseKdl contents with
        | error err =>
            refine Or.inr ⟨"Failed to parse the server configuration file: ".toList ++ err,
              fun fuel tables => ?_⟩
            rw [loadConfigurationInner, if_neg hloaded, hread, Load.ofExcept_mapError_ok, pure_bind,
              hparse]
            rfl
        | ok document =>
            refine Or.inl ⟨document, fun hmem => hloaded ?_, contents, hread, hparse⟩
            rw [List.contains_iff_mem]
            exact hmem

theorem approximates_loadConfigurationInner (env : Environment) (fuel k : Nat) :
    ∀ path loadedPaths tables, Approximates (· = ·)
      (loadConfigurationInner env fuel path loadedPaths tables)
      (loadConfigurationInner env (fuel + k) path loadedPaths tables) := by
  induction fuel with
  | zero => exact fun _ _ _ => .outOfFuel _
  | succ fuel ih =>
      intro path loadedPaths tables
      rw [Nat.add_right_comm fuel 1 k]
      rcases opens_or_error env path loadedPaths with ⟨document, hopens⟩ | ⟨e, he⟩
      · rw [loadConfigurationInner_of_opens hopens, loadConfigurationInner_of_opens hopens]
        have hload : Loader.Approximates (· = ·) (loadConfigurationInner env fuel)
            (loadConfigurationInner env (fuel + k)) := by
          intro path loadedPaths tables
          refine (ih path loadedPaths tables).imp ?_
          rintro result _ rfl
          exact ⟨rfl, rfl⟩
        have hnodes : DocumentApproximates env (· = ·) (· = ·) k document document :=
          .same .eq document
        refine (hnodes _ fuel _ _ _ _ hload (.refl _) rfl).bind ?_
        intro s t hst
        rw [hst.eq]
        exact .ok rfl
      · rw [he, he]
        exact .error e

theorem fueled_fileNode (env : Environment) (path : PathBuf) : Fueled (fileNode env path) := by
  intro fuel k state node
  have hload : Loader.Approximates (· = ·) (loadConfigurationInner env fuel)
      (loadConfigurationInner env (fuel + k)) := by
    intro path loadedPaths tables
    refine (approximates_loadConfigurationInner env fuel k path loadedPaths tables).imp ?_
    rintro result _ rfl
    exact ⟨rfl, rfl⟩
  exact (loadNode_approximates .eq hload node (.refl state)).imp fun _ _ h => h.eq

theorem fueled_loadHost (env : Environment) (canonicalPath : PathBuf) (children : KdlDocument) :
    Fueled fun fuel => loadHost env canonicalPath fuel children := by
  intro fuel k state globalName
  have hnodes : ∀ ctx : LoadingContext, ctx.snippets = state.snippets →
      NodesApproximate (· = ·) (· = ·) (kdlIterateFn ctx fuel) (kdlIterateFn ctx (fuel + k)) children
        children := fun ctx _ => kdlIterateFn_mono keptByPush_eq fuel k children
  exact (loadHost_approximates keptByPush_eq hnodes (.refl state) globalName).imp fun _ _ h => h.eq

theorem fueled_includeFile (env : Environment) :
    Fueled fun fuel => includeFile (loadConfigurationInner env fuel) := by
  intro fuel k state file
  apply (approximates_loadConfigurationInner env fuel k file state.loadedPaths state.tables).bind
  rintro result _ rfl
  exact .ok rfl

/-! ## When a part ends -/

/-- A host block and its nodes. -/
structure HostNode (node : KdlNode) (children : KdlDocument) : Prop where
  name_ne : node.name ≠ "snippet".toList
  children_eq : node.children = some children

/-- An `include` directive and the files that it names. -/
structure IncludeNode (env : Environment) (path : PathBuf) (node : KdlNode) (files : List PathBuf) :
    Prop where
  name_eq : node.name = "include".toList
  children_eq : node.children = none
  files_eq : includeFiles env (env.canonicalPath path) node = .ok files

theorem fileNode_of_hostNode {node : KdlNode} {children : KdlDocument} (h : HostNode node children)
    (fuel : Nat) (state : FileLoading) :
    fileNode env path fuel state node =
      (node.name.splitOn ',').foldlM (loadHost env (env.canonicalPath path) fuel children) state := by
  rw [fileNode, loadNode, if_neg h.name_ne, h.children_eq]

theorem fileNode_of_includeNode {node : KdlNode} {files : List PathBuf}
    (h : IncludeNode env path node files) (fuel : Nat) (state : FileLoading) :
    fileNode env path fuel state node =
      files.foldlM (includeFile (loadConfigurationInner env fuel)) state := by
  have hname : node.name ≠ "snippet".toList := by
    rw [h.name_eq]
    decide
  rw [fileNode, loadNode, if_neg hname, h.children_eq]
  dsimp only
  rw [if_pos h.name_eq, h.files_eq]
  rfl

/-- Another node takes no fuel: it gives an error, or it defines a snippet. -/
theorem node_cases (env : Environment) (path : PathBuf) (node : KdlNode) :
    (∃ children, HostNode node children) ∨ (∃ files, IncludeNode env path node files) ∨
      ∀ fuel state, (∃ e, fileNode env path fuel state node = throw e) ∨
        ∃ snippets, fileNode env path fuel state node = pure { state with snippets := snippets } := by
  by_cases hsnippet : node.name = "snippet".toList
  · refine Or.inr (Or.inr fun fuel state => ?_)
    rw [fileNode, loadNode, if_pos hsnippet]
    cases node.firstString with
    | none => exact Or.inl ⟨_, rfl⟩
    | some snippetName =>
        cases node.children with
        | none => exact Or.inl ⟨_, rfl⟩
        | some children => exact Or.inr ⟨_, rfl⟩
  · cases hchildren : node.children with
    | some children => exact Or.inl ⟨children, hsnippet, hchildren⟩
    | none =>
        by_cases hname : node.name = "include".toList
        · cases hfiles : includeFiles env (env.canonicalPath path) node with
          | ok files => exact Or.inr (Or.inl ⟨files, hname, hchildren, hfiles⟩)
          | error e =>
              refine Or.inr (Or.inr fun fuel state => Or.inl ⟨e, ?_⟩)
              rw [fileNode, loadNode, if_neg hsnippet, hchildren]
              dsimp only
              rw [if_pos hname, hfiles]
              rfl
        · refine Or.inr (Or.inr fun fuel state =>
            Or.inl ⟨messageAt "Invalid top-level directive" (env.canonicalPath path), ?_⟩)
          rw [fileNode, loadNode, if_neg hsnippet, hchildren]
          exact if_neg hname

/-- The loader ends with a host block under one of its names exactly when no snippet is used again within
its own nodes. -/
theorem loadHost_ends_iff (env : Environment) (canonicalPath : PathBuf) (children : KdlDocument)
    (state : FileLoading) (globalName : Str) :
    (∃ fuel, loadHost env canonicalPath fuel children state globalName ≠ ExceptT.mk none) ↔
      ∀ hostFilter, parseHostFilter env canonicalPath globalName = .ok hostFilter →
        ¬ (snippetSystem ⟨env.toLibraries, canonicalPath, hostFilter, state.snippets⟩).ListReturns
          (.block false false) state.loadedConditions.keys.toFinset children := by
  cases hfilter : parseHostFilter env canonicalPath globalName with
  | error e =>
      refine iff_of_true ⟨0, ?_⟩ fun _ h => by cases h
      rw [loadHost, hfilter]
      exact throw_ne_none e
  | ok hostFilter =>
      have hnodes := foldlM_kdlIterateFn_ne_none_iff
        ⟨env.toLibraries, canonicalPath, hostFilter, state.snippets⟩ [] false
        ⟨state.configurations, ∅, state.loadedConditions, state.tables⟩ children
      have hhost : ∀ fuel, loadHost env canonicalPath fuel children state globalName ≠ ExceptT.mk none ↔
          children.foldlM (kdlIterateFn
            ⟨env.toLibraries, canonicalPath, hostFilter, state.snippets⟩ fuel [] false)
            ⟨state.configurations, ∅, state.loadedConditions, state.tables⟩ ≠ ExceptT.mk none := by
        intro fuel
        rw [loadHost, hfilter]
        rw [show Load.ofExcept (Except.ok hostFilter) = pure hostFilter from rfl, pure_bind]
        exact ⟨ne_none_of_bind, fun h => bind_ne_none h fun _ _ => pure_ne_none _⟩
      rw [exists_congr hhost, hnodes]
      constructor
      · intro h hostFilter' hsame
        cases hsame
        exact h
      · exact fun h => h hostFilter rfl

/-- The loader ends with a file exactly when it ends with each of its nodes that it comes to. -/
theorem loadConfigurationInner_ends_iff (env : Environment) (path : PathBuf)
    (loadedPaths : List PathBuf) (tables : Nat) :
    (∃ fuel, loadConfigurationInner env fuel path loadedPaths tables ≠ ExceptT.mk none) ↔
      ∀ document, Opens env path loadedPaths document →
        ∀ node state, ComesTo (fileNode env path) (fileStart env path loadedPaths tables) document node
          state → ∃ fuel, fileNode env path fuel state node ≠ ExceptT.mk none := by
  constructor
  · rintro ⟨fuel, hfuel⟩ document hopens
    apply (fueled_fileNode env path).foldlM_ne_none_iff.1
    cases fuel with
    | zero => exact absurd rfl hfuel
    | succ fuel =>
        rw [loadConfigurationInner_of_opens hopens] at hfuel
        exact ⟨fuel, ne_none_of_bind hfuel⟩
  · intro hends
    rcases opens_or_error env path loadedPaths with ⟨document, hopens⟩ | ⟨e, he⟩
    · obtain ⟨fuel, hfuel⟩ :=
        (fueled_fileNode env path).foldlM_ne_none_iff.2 (hends document hopens)
      refine ⟨fuel + 1, ?_⟩
      rw [loadConfigurationInner_of_opens hopens]
      exact bind_ne_none hfuel fun _ _ => pure_ne_none _
    · refine ⟨1, ?_⟩
      rw [he]
      exact throw_ne_none e

/-! ## Loaded files -/

theorem loadedPaths_of_loadHost {canonicalPath : PathBuf} {fuel : Nat} {children : KdlDocument}
    {state state' : FileLoading} {globalName : Str}
    (h : loadHost env canonicalPath fuel children state globalName = pure state') :
    state'.loadedPaths = state.loadedPaths := by
  rw [loadHost] at h
  obtain ⟨hostFilter, -, h⟩ := Load.of_bind h
  obtain ⟨inner, -, h⟩ := Load.of_bind h
  rw [← Load.pure_inj h]

theorem loadedPaths_of_includeFile {load : Loader}
    (hload : ∀ path loadedPaths tables result, load path loadedPaths tables = pure result →
      loadedPaths ⊆ result.2.1) {state state' : FileLoading} {file : PathBuf}
    (h : includeFile load state file = pure state') : state.loadedPaths ⊆ state'.loadedPaths := by
  rw [includeFile] at h
  obtain ⟨result, hresult, h⟩ := Load.of_bind h
  rw [← Load.pure_inj h]
  exact hload _ _ _ _ hresult

/-- What is loaded stays known as loaded. -/
theorem loadedPaths_of_fileNode {fuel : Nat}
    (hload : ∀ path loadedPaths tables result,
      loadConfigurationInner env fuel path loadedPaths tables = pure result → loadedPaths ⊆ result.2.1)
    {state state' : FileLoading} {node : KdlNode} (h : fileNode env path fuel state node = pure state') :
    state.loadedPaths ⊆ state'.loadedPaths := by
  have hrefl : ∀ s : FileLoading, s.loadedPaths ⊆ s.loadedPaths := fun _ => List.Subset.refl _
  have htrans : ∀ s t u : FileLoading, s.loadedPaths ⊆ t.loadedPaths →
      t.loadedPaths ⊆ u.loadedPaths → s.loadedPaths ⊆ u.loadedPaths := fun _ _ _ => List.Subset.trans
  rcases node_cases env path node with ⟨children, hhost⟩ | ⟨files, hinclude⟩ | hother
  · rw [fileNode_of_hostNode hhost] at h
    exact Load.of_foldlM hrefl htrans
      (fun _ _ _ hname => loadedPaths_of_loadHost hname ▸ List.Subset.refl _) _ h
  · rw [fileNode_of_includeNode hinclude] at h
    exact Load.of_foldlM hrefl htrans (fun _ _ _ => loadedPaths_of_includeFile hload) _ h
  · rcases hother fuel state with ⟨e, herror⟩ | ⟨snippets, hsnippets⟩
    · rw [herror] at h
      exact (Load.of_throw h).elim
    · rw [hsnippets] at h
      rw [← Load.pure_inj h]
      exact List.Subset.refl _

theorem loadedPaths_of_loadConfigurationInner (env : Environment) (fuel : Nat) :
    ∀ path loadedPaths tables result,
      loadConfigurationInner env fuel path loadedPaths tables = pure result →
        loadedPaths ⊆ result.2.1 := by
  induction fuel with
  | zero =>
      intro path loadedPaths tables result h
      exact (Load.of_none h).elim
  | succ fuel ih =>
      intro path loadedPaths tables result h
      rcases opens_or_error env path loadedPaths with ⟨document, hopens⟩ | ⟨e, he⟩
      · rw [loadConfigurationInner_of_opens hopens] at h
        obtain ⟨state, hstate, h⟩ := Load.of_bind h
        rw [← Load.pure_inj h]
        have hstart : loadedPaths ⊆ (fileStart env path loadedPaths tables).loadedPaths :=
          List.subset_cons_self _ _
        exact List.Subset.trans hstart (Load.of_foldlM (R := fun s t => s.loadedPaths ⊆ t.loadedPaths)
          (fun _ => List.Subset.refl _) (fun _ _ _ => List.Subset.trans)
          (fun _ _ _ => loadedPaths_of_fileNode ih) _ hstate)
      · rw [he] at h
        exact (Load.of_throw h).elim

end File

/-! ## The host blocks that the loader comes to -/

/-- The files that can be read are finitely many. -/
def Environment.FinitelyManyFiles (env : Environment) : Prop :=
  {canonicalPath | ∃ path contents, env.readToString path = .ok contents ∧
    env.canonicalPath path = canonicalPath}.Finite

/-- On the way through a file the loader comes to the nodes of a host block, in this file or in one that it
includes. What stands before them is loaded without an error. -/
inductive Reaches (env : Environment) (ctx : LoadingContext) (children : KdlDocument)
    (names : Finset Str) : PathBuf → List PathBuf → Nat → Prop
  | host {path : PathBuf} {loadedPaths : List PathBuf} {tables : Nat} {document : KdlDocument}
      {node : KdlNode} {state state' : FileLoading} {globalName : Str} {hostFilter : HostFilter}
      (hopens : Opens env path loadedPaths document)
      (hnode : ComesTo (fileNode env path) (fileStart env path loadedPaths tables) document node state)
      (hhost : HostNode node children)
      (hname : ComesTo (fun fuel => loadHost env (env.canonicalPath path) fuel children) state
        (node.name.splitOn ',') globalName state')
      (hfilter : parseHostFilter env (env.canonicalPath path) globalName = .ok hostFilter)
      (hctx : ctx = ⟨env.toLibraries, env.canonicalPath path, hostFilter, state'.snippets⟩)
      (hnames : names = state'.loadedConditions.keys.toFinset) :
      Reaches env ctx children names path loadedPaths tables
  | included {path : PathBuf} {loadedPaths : List PathBuf} {tables : Nat} {document : KdlDocument}
      {node : KdlNode} {state state' : FileLoading} {files : List PathBuf} {file : PathBuf}
      (hopens : Opens env path loadedPaths document)
      (hnode : ComesTo (fileNode env path) (fileStart env path loadedPaths tables) document node state)
      (hinclude : IncludeNode env path node files)
      (hfile : ComesTo (fun fuel => includeFile (loadConfigurationInner env fuel)) state files file
        state')
      (hreaches : Reaches env ctx children names file state'.loadedPaths state'.tables) :
      Reaches env ctx children names path loadedPaths tables

section Ends

variable {env : Environment} {path : PathBuf} {loadedPaths : List PathBuf} {tables : Nat}

/-- An included file is loaded with the file that includes it among the loaded ones. -/
theorem loadedPaths_of_included {document : KdlDocument} {node : KdlNode} {state state' : FileLoading}
    {files : List PathBuf} {file : PathBuf}
    (hnode : ComesTo (fileNode env path) (fileStart env path loadedPaths tables) document node state)
    (hfile : ComesTo (fun fuel => includeFile (loadConfigurationInner env fuel)) state files file
      state') : env.canonicalPath path :: loadedPaths ⊆ state'.loadedPaths := by
  have hrefl : ∀ s : FileLoading, s.loadedPaths ⊆ s.loadedPaths := fun _ => List.Subset.refl _
  have htrans : ∀ s t u : FileLoading, s.loadedPaths ⊆ t.loadedPaths →
      t.loadedPaths ⊆ u.loadedPaths → s.loadedPaths ⊆ u.loadedPaths := fun _ _ _ => List.Subset.trans
  obtain ⟨front, _, -, fuel, hfront⟩ := hnode
  obtain ⟨front', _, -, fuel', hfront'⟩ := hfile
  have hstate := Load.of_foldlM hrefl htrans (fun _ _ _ =>
    loadedPaths_of_fileNode (loadedPaths_of_loadConfigurationInner env fuel)) _ hfront
  have hstate' := Load.of_foldlM hrefl htrans (fun _ _ _ =>
    loadedPaths_of_includeFile (loadedPaths_of_loadConfigurationInner env fuel')) _ hfront'
  exact List.Subset.trans hstate hstate'

/-- Where the loader ends, no snippet is used again in the host blocks that it comes to. -/
theorem not_listReturns_of_ends {ctx : LoadingContext} {children : KdlDocument} {names : Finset Str}
    (hreaches : Reaches env ctx children names path loadedPaths tables)
    (hends : ∃ fuel, loadConfigurationInner env fuel path loadedPaths tables ≠ ExceptT.mk none) :
    ¬ (snippetSystem ctx).ListReturns (.block false false) names children := by
  induction hreaches with
  | host hopens hnode hhost hname hfilter hctx hnames =>
      obtain ⟨fuel, hfuel⟩ := (loadConfigurationInner_ends_iff env _ _ _).1 hends _ hopens _ _ hnode
      rw [fileNode_of_hostNode hhost] at hfuel
      have hone := (fueled_loadHost env _ _).ne_none_of_foldlM hfuel hname
      rw [hctx, hnames]
      exact (loadHost_ends_iff env _ _ _ _).1 ⟨fuel, hone⟩ _ hfilter
  | included hopens hnode hinclude hfile _ ih =>
      obtain ⟨fuel, hfuel⟩ := (loadConfigurationInner_ends_iff env _ _ _).1 hends _ hopens _ _ hnode
      rw [fileNode_of_includeNode hinclude] at hfuel
      have hone := (fueled_includeFile env).ne_none_of_foldlM hfuel hfile
      rw [includeFile] at hone
      exact ih ⟨fuel, ne_none_of_bind hone⟩

/-- The loader ends when no snippet is used again in the host blocks that it comes to: a file is opened once,
and there are finitely many. -/
theorem ends_of_not_listReturns (hfiles : env.FinitelyManyFiles)
    (hreturns : ∀ ctx children names, Reaches env ctx children names path loadedPaths tables →
      ¬ (snippetSystem ctx).ListReturns (.block false false) names children) :
    ∃ fuel, loadConfigurationInner env fuel path loadedPaths tables ≠ ExceptT.mk none := by
  classical
  obtain ⟨readable, hreadable⟩ : ∃ readable : Finset PathBuf, ∀ path contents,
      env.readToString path = .ok contents → env.canonicalPath path ∈ readable :=
    ⟨Set.Finite.toFinset hfiles, fun path contents hread =>
      (Set.Finite.mem_toFinset hfiles).2 ⟨path, contents, hread, rfl⟩⟩
  induction hleft : (readable \ loadedPaths.toFinset).card using Nat.strong_induction_on
    generalizing path loadedPaths tables with
  | _ left ih =>
      apply (loadConfigurationInner_ends_iff env path loadedPaths tables).2
      intro document hopens node state hnode
      rcases node_cases env path node with ⟨children, hhost⟩ | ⟨files, hinclude⟩ | hother
      · simp only [fileNode_of_hostNode hhost]
        apply (fueled_loadHost env _ children).foldlM_ne_none_iff.2
        intro globalName state' hname
        apply (loadHost_ends_iff env _ children state' globalName).2
        intro hostFilter hfilter
        exact hreturns _ children _ (.host hopens hnode hhost hname hfilter rfl rfl)
      · simp only [fileNode_of_includeNode hinclude]
        apply (fueled_includeFile env).foldlM_ne_none_iff.2
        intro file state' hfile
        -- the file that is being loaded is known now, so one file less can still be read
        have hknown := loadedPaths_of_included hnode hfile
        have hlt : (readable \ state'.loadedPaths.toFinset).card < left := by
          rw [← hleft]
          apply Finset.card_lt_card
          refine (Finset.ssubset_iff_of_subset ?_).2 ⟨env.canonicalPath path, ?_, ?_⟩
          · apply Finset.sdiff_subset_sdiff subset_rfl
            intro p hp
            rw [List.mem_toFinset] at hp ⊢
            exact hknown (List.mem_cons_of_mem _ hp)
          · obtain ⟨contents, hread, -⟩ := hopens.read
            rw [Finset.mem_sdiff, List.mem_toFinset]
            exact ⟨hreadable path contents hread, hopens.notLoaded⟩
          · rw [Finset.mem_sdiff, List.mem_toFinset]
            exact fun h => h.2 (hknown List.mem_cons_self)
        have hbelow : ∀ ctx children names,
            Reaches env ctx children names file state'.loadedPaths state'.tables →
              ¬ (snippetSystem ctx).ListReturns (.block false false) names children :=
          fun ctx children names hreaches =>
            hreturns ctx children names (.included hopens hnode hinclude hfile hreaches)
        obtain ⟨fuel, hfuel⟩ := ih _ hlt hbelow rfl
        exact ⟨fuel, bind_ne_none hfuel fun _ _ => pure_ne_none _⟩
      · refine ⟨0, ?_⟩
        rcases hother 0 state with ⟨e, herror⟩ | ⟨snippets, hsnippets⟩
        · rw [herror]
          exact throw_ne_none e
        · rw [hsnippets]
          exact pure_ne_none _

end Ends

/-- The loading of a configuration ends exactly when on its way no snippet is used again within its own
nodes, in the same place. -/
theorem loadConfiguration_ends_iff (env : Environment) (hfiles : env.FinitelyManyFiles)
    (path : PathBuf) :
    (∃ fuel, loadConfiguration env fuel path ≠ ExceptT.mk none) ↔
      ∀ ctx children names, Reaches env ctx children names path [] 0 →
        ¬ (snippetSystem ctx).ListReturns (.block false false) names children := by
  have hsame : ∀ fuel, loadConfiguration env fuel path ≠ ExceptT.mk none ↔
      loadConfigurationInner env fuel path [] 0 ≠ ExceptT.mk none := by
    intro fuel
    rw [loadConfiguration]
    exact ⟨ne_none_of_bind, fun h => bind_ne_none h fun _ _ => pure_ne_none _⟩
  rw [exists_congr hsame]
  constructor
  · intro hends ctx children names hreaches
    exact not_listReturns_of_ends hreaches hends
  · exact ends_of_not_listReturns hfiles

/-! ## Examples -/

/-- An environment with one file. -/
def singleFile (document : KdlDocument) : Environment :=
  { documentEnvironment document with
    readToString := fun path =>
      if path = "ferron.kdl".toList then .ok [] else .error "No such file".toList }

theorem singleFile_finitelyManyFiles (document : KdlDocument) :
    (singleFile document).FinitelyManyFiles := by
  apply (Set.finite_singleton "ferron.kdl".toList).subset
  rintro _ ⟨path, contents, hread, rfl⟩
  by_cases hpath : path = "ferron.kdl".toList
  · rw [hpath]
    rfl
  · rw [show (singleFile document).readToString path = .error _ from if_neg hpath] at hread
    cases hread

/-- `use`. -/
def useNode (snippetName : Str) : KdlNode := ⟨"use".toList, [⟨none, .string snippetName⟩], none⟩

/-- `snippet`. -/
def snippetNode (snippetName : Str) (children : KdlDocument) : KdlNode :=
  ⟨"snippet".toList, [⟨none, .string snippetName⟩], some children⟩

/-- A host that uses a snippet, whose nodes use another one. -/
def usesDocument : KdlDocument :=
  [snippetNode "b".toList [⟨"root".toList, [⟨none, .string "/r".toList⟩], none⟩],
    snippetNode "a".toList [useNode "b".toList],
    ⟨"host".toList, [], some [useNode "a".toList]⟩]

theorem usesDocument_ends :
    (∃ fuel, loadConfiguration (singleFile usesDocument) fuel "ferron.kdl".toList ≠ ExceptT.mk none) ∧
      ∀ ctx children names, Reaches (singleFile usesDocument) ctx children names "ferron.kdl".toList [] 0 →
        ¬ (snippetSystem ctx).ListReturns (.block false false) names children := by
  have hends : ∃ fuel, loadConfiguration (singleFile usesDocument) fuel "ferron.kdl".toList ≠
      ExceptT.mk none := by
    refine ⟨5, ?_⟩
    rw [show loadConfiguration (singleFile usesDocument) 5 "ferron.kdl".toList = pure _ from rfl]
    exact pure_ne_none _
  exact ⟨hends, (loadConfiguration_ends_iff (singleFile usesDocument)
    (singleFile_finitelyManyFiles usesDocument) "ferron.kdl".toList).1 hends⟩

/-- A snippet that uses itself, and a host. -/
def selfUseDocument (children : KdlDocument) : KdlDocument :=
  [snippetNode "s".toList [useNode "s".toList], ⟨"host".toList, [], some children⟩]

/-- A condition. -/
def conditionNode (conditionName : Str) (children : KdlDocument) : KdlNode :=
  ⟨"condition".toList, [⟨none, .string conditionName⟩], some children⟩

section SelfUse

variable {ctx : LoadingContext} (hsnippet : ctx.snippets.lookup "s".toList = some [useNode "s".toList])

include hsnippet

theorem findSnippet_selfUse : findSnippet ctx.snippets (useNode "s".toList) = .ok [useNode "s".toList] := by
  rw [findSnippet, show (useNode "s".toList).firstString = some "s".toList from rfl]
  dsimp only
  rw [hsnippet]

theorem kdlIterateFn_selfUse (fuel : Nat) (enclosing : List Conditions) (isErrorConfig : Bool)
    (state : Loading) :
    kdlIterateFn ctx fuel enclosing isErrorConfig state (useNode "s".toList) = ExceptT.mk none := by
  induction fuel with
  | zero => rfl
  | succ fuel ih =>
      rw [kdlIterateFn]
      rw [if_pos (show (useNode "s".toList).name = "use".toList from rfl), iterateUse,
        findSnippet_selfUse hsnippet, show Load.ofExcept (Except.ok [useNode "s".toList]) =
          pure [useNode "s".toList] from rfl, pure_bind, List.foldlM_cons, ih]
      rfl

theorem conditionData_selfUse (conditionName : Str) (fuel : Nat) (nodesStack : List KdlDocument)
    (tables : Nat) (conditionsData : List ConditionalData) :
    conditionData ctx conditionName fuel ([useNode "s".toList] :: nodesStack) tables conditionsData =
      ExceptT.mk none := by
  induction fuel generalizing nodesStack with
  | zero => rfl
  | succ fuel ih =>
      rw [conditionData, if_pos (show (useNode "s".toList).name = "use".toList from rfl),
        findSnippet_selfUse hsnippet, show Load.ofExcept (Except.ok [useNode "s".toList]) =
          pure [useNode "s".toList] from rfl, pure_bind]
      exact ih ([] :: nodesStack)

end SelfUse

/-- When the nodes of the host take any fuel, so does the file. -/
theorem endless_of_nodes {children : KdlDocument}
    (hendless : ∀ (ctx : LoadingContext) fuel state,
      ctx.snippets.lookup "s".toList = some [useNode "s".toList] →
        children.foldlM (kdlIterateFn ctx fuel [] false) state = ExceptT.mk none) (fuel : Nat) :
    loadConfiguration (singleFile (selfUseDocument children)) fuel "ferron.kdl".toList =
      ExceptT.mk none := by
  by_contra hends
  rw [loadConfiguration] at hends
  cases fuel with
  | zero => exact hends rfl
  | succ fuel =>
      have hopens : Opens (singleFile (selfUseDocument children)) "ferron.kdl".toList []
          (selfUseDocument children) := ⟨List.not_mem_nil, [], rfl, rfl⟩
      rw [loadConfigurationInner_of_opens hopens] at hends
      -- behind the snippet comes the host, under its only name
      have hnode := (fueled_fileNode _ _).ne_none_of_foldlM (ne_none_of_bind (ne_none_of_bind hends))
        ⟨[snippetNode "s".toList [useNode "s".toList]], [], rfl, 0, rfl⟩
      have hne : "host".toList ≠ "snippet".toList := by decide
      have hhost : HostNode ⟨"host".toList, [], some children⟩ children := ⟨hne, rfl⟩
      rw [fileNode_of_hostNode hhost] at hnode
      have hname := (fueled_loadHost _ _ children).ne_none_of_foldlM hnode
        (a := "host".toList) ⟨[], [], rfl, 0, rfl⟩
      rw [loadHost, show parseHostFilter (singleFile (selfUseDocument children)) _ "host".toList =
        .ok ⟨some "host".toList, none, none, true⟩ from rfl, show Load.ofExcept (Except.ok _) =
          pure (⟨some "host".toList, none, none, true⟩ : HostFilter) from rfl, pure_bind] at hname
      exact ne_none_of_bind hname (hendless _ fuel _ rfl)

theorem selfUse_endless :
    (∀ fuel, loadConfiguration (singleFile (selfUseDocument [useNode "s".toList])) fuel
      "ferron.kdl".toList = ExceptT.mk none) ∧
    ∀ fuel, loadConfiguration (singleFile (selfUseDocument
      [conditionNode "c".toList [useNode "s".toList]])) fuel "ferron.kdl".toList = ExceptT.mk none := by
  constructor
  · apply endless_of_nodes
    intro ctx fuel state hsnippet
    rw [List.foldlM_cons, kdlIterateFn_selfUse hsnippet]
    rfl
  · apply endless_of_nodes
    intro ctx fuel state hsnippet
    rw [List.foldlM_cons]
    have hcondition : kdlIterateFn ctx fuel [] false state
        (conditionNode "c".toList [useNode "s".toList]) = ExceptT.mk none := by
      cases fuel with
      | zero => rfl
      | succ fuel =>
          rw [show kdlIterateFn ctx (fuel + 1) [] false state
            (conditionNode "c".toList [useNode "s".toList]) =
              iterateCondition ctx fuel false state (conditionNode "c".toList [useNode "s".toList])
            from rfl, iterateCondition, if_neg Bool.false_ne_true,
            show blockHeader ctx (conditionNode "c".toList [useNode "s".toList]) =
              .ok ([useNode "s".toList], "c".toList) from rfl, show Load.ofExcept (Except.ok _) =
                pure ([useNode "s".toList], "c".toList) from rfl, pure_bind]
          dsimp only
          rw [conditionData_selfUse hsnippet]
          rfl
    rw [hcondition]
    rfl

end Ferron.Config
