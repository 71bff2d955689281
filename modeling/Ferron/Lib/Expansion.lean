import Ferron.Lib.Fuel
import Mathlib.Data.Finset.Prod
import Mathlib.Data.Fintype.Basic
import Mathlib.Logic.Relation
import Mathlib.Order.Basic

/-!
# Expansion of named lists

An interpreter goes through lists of nodes with a state and may fail. A node may have nodes of its own,
which stand in another place, and it may use a name, which stands for a list of nodes. When the names and
the places are finitely many, the interpreter does not end exactly when it comes, on its way through the
list of a name, to a node that uses the same name in the same place (`terminates_iff`,
`foldlM_terminates_iff`).

For the one direction a larger state must not take away a success: then what happened between the two uses
happens again. For the other one each chain of uses without such a return is short.
-/

set_option autoImplicit false

namespace Ferron.Lib.Expansion

open Relation

variable {π σ α ν : Type}

/-- What a node does. -/
inductive Visit (π σ α ν : Type) where
  /-- It fails. -/
  | fail
  /-- It changes the state. -/
  | leaf (after : σ)
  /-- Its nodes are visited in a place. The state behind them is given. -/
  | block (inner : π) (nodes : List α) (after : σ)
  /-- The nodes of a name are visited in its place. -/
  | use (name : ν)

/-- What the nodes do in a place and a state, and the lists of the names. -/
structure System (π σ α ν : Type) where
  visit : π → σ → α → Visit π σ α ν
  body : ν → List α

/-- A node with its place and the state before it. -/
structure Call (π σ α : Type) where
  place : π
  state : σ
  node : α

namespace System

variable (S : System π σ α ν)

/-- The interpreter. -/
def run : Nat → π → σ → α → ExceptT Unit Option σ
  | 0, _, _, _ => ExceptT.mk none
  | fuel + 1, place, state, node =>
      match S.visit place state node with
      | .fail => throw ()
      | .leaf after => pure after
      | .block inner nodes after => do
          let _ ← nodes.foldlM (run fuel inner) state
          pure after
      | .use name => (S.body name).foldlM (run fuel place) state

/-- The interpreter ends with a node. -/
def Terminates (c : Call π σ α) : Prop := ∃ fuel, S.run fuel c.place c.state c.node ≠ ExceptT.mk none

/-- A node uses a name. -/
def Uses (c : Call π σ α) (name : ν) : Prop := S.visit c.place c.state c.node = .use name

/-- The nodes that are visited for a node, and their place. -/
def expansion (c : Call π σ α) : Option (π × List α) :=
  match S.visit c.place c.state c.node with
  | .fail => none
  | .leaf _ => none
  | .block inner nodes _ => some (inner, nodes)
  | .use name => some (c.place, S.body name)

/-- On the way through a node the interpreter comes to another one: it succeeds with the nodes before. -/
structure Enters (c d : Call π σ α) : Prop where
  entered : ∃ nodes, S.expansion c = some (d.place, nodes) ∧
    ComesTo (fun fuel => S.run fuel d.place) c.state nodes d.node d.state

/-- On the way through a node a name is used again in its own list, in the same place. -/
def Returns (c : Call π σ α) : Prop :=
  ∃ d e name, ReflTransGen S.Enters c d ∧ TransGen S.Enters d e ∧ S.Uses d name ∧ S.Uses e name ∧
    d.place = e.place

/-- The same on the way through a list in a place. -/
def ListReturns (place : π) (state : σ) (nodes : List α) : Prop :=
  ∃ node t, ComesTo (fun fuel => S.run fuel place) state nodes node t ∧ S.Returns ⟨place, t, node⟩

/-- The nodes of a node are smaller, and the names are finitely many. -/
structure Bounded where
  size : α → Nat
  size_lt : ∀ {place state node inner nodes after}, S.visit place state node = .block inner nodes after →
    ∀ n ∈ nodes, size n < size node
  names : Finset ν
  mem_names : ∀ {place state node name}, S.visit place state node = .use name → name ∈ names

/-- A larger state does not take away a success, and the state only grows. -/
structure Grows [Preorder σ] : Prop where
  leaf_le : ∀ {place state node after}, S.visit place state node = .leaf after → state ≤ after
  block_le : ∀ {place state node inner nodes after},
    S.visit place state node = .block inner nodes after → state ≤ after
  leaf : ∀ {place state node after state'}, S.visit place state node = .leaf after → state ≤ state' →
    ∃ after', S.visit place state' node = .leaf after' ∧ after ≤ after'
  block : ∀ {place state node inner nodes after state'},
    S.visit place state node = .block inner nodes after → state ≤ state' →
      ∃ after', S.visit place state' node = .block inner nodes after' ∧ after ≤ after'
  use : ∀ {place state node name state'}, S.visit place state node = .use name → state ≤ state' →
    S.visit place state' node = .use name

/-! ## Fuel -/

variable {S}

theorem fueled_run (place : π) : Fueled fun fuel => S.run fuel place := by
  intro fuel
  induction fuel generalizing place with
  | zero => exact fun _ _ _ => .outOfFuel _
  | succ fuel ih =>
      intro k state node
      have hnodes : ∀ inner (nodes : List α), Approximates (· = ·)
          (nodes.foldlM (S.run fuel inner) state) (nodes.foldlM (S.run (fuel + k) inner) state) := by
        intro inner nodes
        refine Approximates.foldlM ?_ nodes rfl
        rintro s _ a rfl
        exact ih inner k s a
      dsimp only
      rw [Nat.add_right_comm, run, run]
      cases S.visit place state node with
      | fail => exact .error ()
      | leaf after => exact .ok rfl
      | block inner nodes after => exact (hnodes inner nodes).bind fun _ _ _ => .ok rfl
      | use name => exact hnodes place (S.body name)

/-! ## One step into a node -/

/-- A node takes the nodes in it: with a result, there is one for them. -/
theorem foldlM_ne_none_of_expansion {c : Call π σ α} {place : π} {nodes : List α}
    (hexpansion : S.expansion c = some (place, nodes)) {fuel : Nat}
    (h : S.run (fuel + 1) c.place c.state c.node ≠ ExceptT.mk none) :
    nodes.foldlM (S.run fuel place) c.state ≠ ExceptT.mk none := by
  rw [run] at h
  rw [expansion] at hexpansion
  intro hnone
  apply h
  cases hvisit : S.visit c.place c.state c.node with
  | fail =>
      rw [hvisit] at hexpansion
      cases hexpansion
  | leaf after =>
      rw [hvisit] at hexpansion
      cases hexpansion
  | block inner nodes' after =>
      rw [hvisit, Option.some.injEq, Prod.mk.injEq] at hexpansion
      obtain ⟨rfl, rfl⟩ := hexpansion
      dsimp only
      rw [hnone]
      rfl
  | use name =>
      rw [hvisit, Option.some.injEq, Prod.mk.injEq] at hexpansion
      obtain ⟨rfl, rfl⟩ := hexpansion
      exact hnone

/-- The interpreter ends with what it enters, and with less fuel. -/
theorem Enters.run_ne_none {c d : Call π σ α} (h : S.Enters c d) {fuel : Nat}
    (hrun : S.run (fuel + 1) c.place c.state c.node ≠ ExceptT.mk none) :
    S.run fuel d.place d.state d.node ≠ ExceptT.mk none := by
  obtain ⟨nodes, hexpansion, hcomes⟩ := h.entered
  exact (fueled_run d.place).ne_none_of_foldlM (foldlM_ne_none_of_expansion hexpansion hrun) hcomes

/-- The interpreter ends with a node when it ends with each node that it enters. -/
theorem terminates_of_enters {c : Call π σ α} (h : ∀ d, S.Enters c d → S.Terminates d) :
    S.Terminates c := by
  have hnodes : ∀ place nodes, S.expansion c = some (place, nodes) →
      ∃ fuel, nodes.foldlM (S.run fuel place) c.state ≠ ExceptT.mk none := by
    intro place nodes hexpansion
    apply (fueled_run place).foldlM_ne_none
    intro node t hcomes
    exact h ⟨place, t, node⟩ ⟨nodes, hexpansion, hcomes⟩
  cases hvisit : S.visit c.place c.state c.node with
  | fail =>
      refine ⟨1, ?_⟩
      rw [run, hvisit]
      exact throw_ne_none ()
  | leaf after =>
      refine ⟨1, ?_⟩
      rw [run, hvisit]
      exact pure_ne_none after
  | block inner nodes after =>
      obtain ⟨fuel, hfuel⟩ := hnodes inner nodes (by rw [expansion, hvisit])
      refine ⟨fuel + 1, ?_⟩
      rw [run, hvisit]
      exact bind_ne_none hfuel fun _ _ => pure_ne_none after
  | use name =>
      obtain ⟨fuel, hfuel⟩ := hnodes c.place (S.body name) (by rw [expansion, hvisit])
      refine ⟨fuel + 1, ?_⟩
      rw [run, hvisit]
      exact hfuel

theorem Returns.head {c d : Call π σ α} (hcd : S.Enters c d) (h : S.Returns d) : S.Returns c := by
  obtain ⟨e, f, name, hde, hef, huses, huses', hplace⟩ := h
  exact ⟨e, f, name, hde.head hcd, hef, huses, huses', hplace⟩

/-! ## Without a return -/

/-- Without a return the interpreter ends: each use takes a name in a place that was not taken on the way
to it, and the nodes within a node are smaller. -/
theorem terminates_of_not_returns [Fintype π] (hbounded : S.Bounded) {c : Call π σ α}
    (h : ¬ S.Returns c) : S.Terminates c := by
  classical
  have hall : ∀ (left size : Nat) (taken : Finset (ν × π)) (c : Call π σ α),
      ((hbounded.names ×ˢ Finset.univ) \ taken).card = left → hbounded.size c.node = size →
      ¬ S.Returns c →
      (∀ d name, ReflTransGen S.Enters c d → S.Uses d name → (name, d.place) ∉ taken) →
      S.Terminates c := by
    intro left
    induction left using Nat.strong_induction_on with
    | _ left ihLeft =>
        intro size
        induction size using Nat.strong_induction_on with
        | _ size ihSize =>
            intro taken c hleft hsize hreturns htaken
            apply terminates_of_enters
            intro d hcd
            have hreturnsD : ¬ S.Returns d := fun hd => hreturns (hd.head hcd)
            obtain ⟨_, hexpansion, front, back, rfl, -⟩ := hcd.entered
            rw [expansion] at hexpansion
            cases hvisit : S.visit c.place c.state c.node with
            | fail =>
                rw [hvisit] at hexpansion
                cases hexpansion
            | leaf after =>
                rw [hvisit] at hexpansion
                cases hexpansion
            | block inner nodes after =>
                -- the same names are left, and the node is smaller
                rw [hvisit, Option.some.injEq, Prod.mk.injEq] at hexpansion
                have hlt := hbounded.size_lt hvisit d.node
                  (by rw [hexpansion.2]; exact List.mem_append_right _ List.mem_cons_self)
                rw [hsize] at hlt
                exact ihSize _ hlt taken d hleft rfl hreturnsD
                  fun e name hde huses => htaken e name (hde.head hcd) huses
            | use name =>
                -- the name is taken in this place
                have hfree : (name, c.place) ∈ (hbounded.names ×ˢ Finset.univ) \ taken :=
                  Finset.mem_sdiff.2 ⟨Finset.mk_mem_product (hbounded.mem_names hvisit)
                    (Finset.mem_univ _), htaken c name .refl hvisit⟩
                have hlt : ((hbounded.names ×ˢ Finset.univ) \ insert (name, c.place) taken).card <
                    left := by
                  rw [← hleft, Finset.sdiff_insert]
                  exact Finset.card_erase_lt_of_mem hfree
                refine ihLeft _ hlt _ (insert (name, c.place) taken) d rfl rfl hreturnsD ?_
                intro e name' hde huses hmem
                rcases Finset.mem_insert.1 hmem with hsame | hmem
                · rw [Prod.mk.injEq] at hsame
                  exact hreturns ⟨c, e, name, .refl, TransGen.head' hcd hde, hvisit, hsame.1 ▸ huses,
                    hsame.2.symm⟩
                · exact htaken e name' (hde.head hcd) huses hmem
  exact hall _ _ ∅ c rfl rfl h fun _ _ _ _ hmem => absurd hmem (Finset.notMem_empty _)

/-! ## With a return -/

section Return

theorem foldlM_le [Preorder σ] {f : σ → α → ExceptT Unit Option σ}
    (hle : ∀ state node t, f state node = pure t → state ≤ t) (nodes : List α) {state t : σ}
    (h : nodes.foldlM f state = pure t) : state ≤ t := by
  induction nodes generalizing state with
  | nil =>
      rw [List.foldlM_nil] at h
      rw [pure_inj h]
  | cons node nodes ih =>
      rw [List.foldlM_cons] at h
      obtain ⟨u, hu, hrest⟩ := of_bind h
      exact (hle state node u hu).trans (ih hrest)

theorem foldlM_grows [Preorder σ] {f : σ → α → ExceptT Unit Option σ}
    (hgrows : ∀ state state' node t, state ≤ state' → f state node = pure t →
      ∃ t', f state' node = pure t' ∧ t ≤ t') (nodes : List α) {state state' t : σ}
    (hle : state ≤ state') (h : nodes.foldlM f state = pure t) :
    ∃ t', nodes.foldlM f state' = pure t' ∧ t ≤ t' := by
  induction nodes generalizing state state' with
  | nil =>
      rw [List.foldlM_nil] at h
      rw [← pure_inj h]
      exact ⟨state', rfl, hle⟩
  | cons node nodes ih =>
      rw [List.foldlM_cons] at h
      obtain ⟨u, hu, hrest⟩ := of_bind h
      obtain ⟨u', hu', hle'⟩ := hgrows state state' node u hle hu
      obtain ⟨t', ht', hle''⟩ := ih hle' hrest
      refine ⟨t', ?_, hle''⟩
      rw [List.foldlM_cons, hu', pure_bind]
      exact ht'

variable [Preorder σ] (hgrows : S.Grows)

include hgrows

theorem run_le (fuel : Nat) : ∀ place state node t, S.run fuel place state node = pure t →
    state ≤ t := by
  induction fuel with
  | zero =>
      intro place state node t h
      cases h
  | succ fuel ih =>
      intro place state node t h
      rw [run] at h
      cases hvisit : S.visit place state node with
      | fail =>
          rw [hvisit] at h
          cases h
      | leaf after =>
          rw [hvisit] at h
          rw [← pure_inj h]
          exact hgrows.leaf_le hvisit
      | block inner nodes after =>
          rw [hvisit] at h
          obtain ⟨u, -, h⟩ := of_bind h
          rw [← pure_inj h]
          exact hgrows.block_le hvisit
      | use name =>
          rw [hvisit] at h
          exact foldlM_le (ih place) _ h

/-- What succeeds with a state succeeds with a larger one. -/
theorem run_grows (fuel : Nat) : ∀ place state state' node t, state ≤ state' →
    S.run fuel place state node = pure t →
      ∃ t', S.run fuel place state' node = pure t' ∧ t ≤ t' := by
  induction fuel with
  | zero =>
      intro place state state' node t _ h
      cases h
  | succ fuel ih =>
      intro place state state' node t hle h
      rw [run] at h ⊢
      cases hvisit : S.visit place state node with
      | fail =>
          rw [hvisit] at h
          cases h
      | leaf after =>
          rw [hvisit] at h
          obtain ⟨after', hvisit', hafter⟩ := hgrows.leaf hvisit hle
          rw [hvisit', ← pure_inj h]
          exact ⟨after', rfl, hafter⟩
      | block inner nodes after =>
          rw [hvisit] at h
          obtain ⟨after', hvisit', hafter⟩ := hgrows.block hvisit hle
          obtain ⟨u, hu, h⟩ := of_bind h
          obtain ⟨u', hu', -⟩ := foldlM_grows (ih inner) nodes hle hu
          rw [hvisit', ← pure_inj h]
          dsimp only
          rw [hu']
          exact ⟨after', rfl, hafter⟩
      | use name =>
          rw [hvisit] at h
          rw [hgrows.use hvisit hle]
          exact foldlM_grows (ih place) _ hle h

theorem Enters.state_le {c d : Call π σ α} (h : S.Enters c d) : c.state ≤ d.state := by
  obtain ⟨_, -, front, _, -, fuel, hfront⟩ := h.entered
  exact foldlM_le (fun state node t => run_le hgrows fuel d.place state node t) front hfront

/-- What is entered with a state is entered with a larger one. -/
theorem Enters.grows {c d : Call π σ α} (h : S.Enters c d) {state : σ} (hle : c.state ≤ state) :
    ∃ state', d.state ≤ state' ∧ S.Enters { c with state := state } { d with state := state' } := by
  obtain ⟨nodes, hexpansion, front, back, hsplit, fuel, hfront⟩ := h.entered
  obtain ⟨state', hfront', hle'⟩ := foldlM_grows (run_grows hgrows fuel d.place) front hle hfront
  refine ⟨state', hle', nodes, ?_, front, back, hsplit, fuel, hfront'⟩
  rw [← hexpansion, expansion, expansion]
  cases hvisit : S.visit c.place c.state c.node with
  | fail =>
      rw [expansion, hvisit] at hexpansion
      cases hexpansion
  | leaf after =>
      rw [expansion, hvisit] at hexpansion
      cases hexpansion
  | block inner nodes after =>
      obtain ⟨after', hvisit', -⟩ := hgrows.block hvisit hle
      dsimp only
      rw [hvisit']
  | use name =>
      dsimp only
      rw [hgrows.use hvisit hle]

theorem transGen_state_le {c d : Call π σ α} (h : TransGen S.Enters c d) : c.state ≤ d.state := by
  induction h with
  | single hcd => exact hcd.state_le hgrows
  | tail _ hde ih => exact ih.trans (hde.state_le hgrows)

theorem transGen_grows {c d : Call π σ α} (h : TransGen S.Enters c d) {state : σ}
    (hle : c.state ≤ state) :
    ∃ state', d.state ≤ state' ∧
      TransGen S.Enters { c with state := state } { d with state := state' } := by
  induction h with
  | single hcd =>
      obtain ⟨state', hle', henters⟩ := hcd.grows hgrows hle
      exact ⟨state', hle', .single henters⟩
  | tail _ hde ih =>
      obtain ⟨state', hle', hpath⟩ := ih
      obtain ⟨state'', hle'', henters⟩ := hde.grows hgrows hle'
      exact ⟨state'', hle'', .tail hpath henters⟩

omit hgrows [Preorder σ] in
/-- The way to a node takes fuel. -/
theorem exists_fuel_of_transGen {c d : Call π σ α} (h : TransGen S.Enters c d) {fuel : Nat}
    (hrun : S.run fuel c.place c.state c.node ≠ ExceptT.mk none) :
    ∃ fuel' < fuel, S.run fuel' d.place d.state d.node ≠ ExceptT.mk none := by
  induction h with
  | single hcd =>
      cases fuel with
      | zero => exact absurd rfl hrun
      | succ fuel => exact ⟨fuel, Nat.lt_succ_self fuel, hcd.run_ne_none hrun⟩
  | tail _ hde ih =>
      obtain ⟨fuel', hlt, hrun'⟩ := ih
      cases fuel' with
      | zero => exact absurd rfl hrun'
      | succ fuel' => exact ⟨fuel', (Nat.lt_succ_self fuel').trans hlt, hde.run_ne_none hrun'⟩

/-- After a return there is another one, so the interpreter does not end. -/
theorem run_eq_none_of_return (fuel : Nat) : ∀ (d e : Call π σ α) (name : ν),
    TransGen S.Enters d e → S.Uses d name → S.Uses e name → d.place = e.place →
      S.run fuel d.place d.state d.node = ExceptT.mk none := by
  induction fuel using Nat.strong_induction_on with
  | _ fuel ih =>
      intro d e name hde huses huses' hplace
      by_contra hrun
      obtain ⟨fuel', hlt, hrun'⟩ := exists_fuel_of_transGen hde hrun
      have hle := transGen_state_le hgrows hde
      -- the first node with the state of the second one comes to the second one again
      obtain ⟨state, hle', hagain⟩ := transGen_grows hgrows hde hle
      have hfirst : S.Uses { d with state := e.state } name := hgrows.use huses hle
      have hnone := ih fuel' hlt _ _ name hagain hfirst (hgrows.use huses' hle') hplace
      apply hrun'
      rw [← hnone, ← hplace]
      cases fuel' with
      | zero => rfl
      | succ fuel' =>
          rw [run, run, show S.visit d.place e.state d.node = .use name from hfirst,
            show S.visit d.place e.state e.node = .use name from hplace ▸ huses']

/-- The interpreter ends exactly when on its way no name is used again in its own list, in the same
place. -/
theorem terminates_iff [Fintype π] (hbounded : S.Bounded) (c : Call π σ α) :
    S.Terminates c ↔ ¬ S.Returns c := by
  constructor
  · rintro ⟨fuel, hfuel⟩ ⟨d, e, name, hcd, hde, huses, huses', hplace⟩
    rcases Relation.reflTransGen_iff_eq_or_transGen.1 hcd with rfl | hcd
    · exact hfuel (run_eq_none_of_return hgrows fuel _ e name hde huses huses' hplace)
    · obtain ⟨fuel', -, hfuel'⟩ := exists_fuel_of_transGen hcd hfuel
      exact hfuel' (run_eq_none_of_return hgrows fuel' d e name hde huses huses' hplace)
  · exact terminates_of_not_returns hbounded

/-- The interpreter ends with a list exactly when there is no return on the way through it. -/
theorem foldlM_terminates_iff [Fintype π] (hbounded : S.Bounded) (place : π) (state : σ)
    (nodes : List α) : (∃ fuel, nodes.foldlM (S.run fuel place) state ≠ ExceptT.mk none) ↔
      ¬ S.ListReturns place state nodes := by
  rw [(fueled_run place).foldlM_ne_none_iff]
  constructor
  · rintro hends ⟨node, t, hcomes, hreturns⟩
    exact (terminates_iff hgrows hbounded ⟨place, t, node⟩).1 (hends node t hcomes) hreturns
  · intro h node t hcomes
    exact (terminates_iff hgrows hbounded ⟨place, t, node⟩).2 fun hreturns =>
      h ⟨node, t, hcomes, hreturns⟩

end Return

end System

end Ferron.Lib.Expansion
