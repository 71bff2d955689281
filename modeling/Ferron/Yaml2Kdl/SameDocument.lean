import Ferron.Yaml2Kdl.SectionDocument

/-!
# Documents that are the same

The order of two nodes matters when they have the same name, except for two headers with different names.
Two documents are the same when they have the same nodes up to this order (`SameDocument`), and so have the
blocks in them.

The table of custom headers may be iterated in any order: what counts is what it gives for each name
(`sameDocument_headerNodes_iff`).
-/

set_option autoImplicit false

namespace Ferron.Yaml2Kdl

open Ferron.Config Ferron.Lib.KeyedList

/-! ## Nodes and documents -/

/-- The name of a node, and the name of the header for a header. -/
def nodeKey (node : KdlNode) : Str × Option Str :=
  (node.name, if node.name = "header".toList then node.firstString else none)

/-- Two nodes are the same when they have the same name and entries, and the same nodes in them, in the same
order for each key. -/
inductive SameNode : KdlNode → KdlNode → Prop where
  | leaf (name : Str) (entries : List KdlEntry) : SameNode ⟨name, entries, none⟩ ⟨name, entries, none⟩
  | block (name : Str) (entries : List KdlEntry) {children children' : KdlDocument}
      (hchildren : ∀ key, List.Forall₂ SameNode (ofKey nodeKey key children) (ofKey nodeKey key children')) :
      SameNode ⟨name, entries, some children⟩ ⟨name, entries, some children'⟩

/-- Two documents are the same up to the order of nodes with different keys. -/
def SameDocument (document document' : KdlDocument) : Prop :=
  SameByKey nodeKey SameNode document document'

theorem SameNode.nodeKey_eq {node node' : KdlNode} (h : SameNode node node') :
    nodeKey node = nodeKey node' := by
  cases h <;> rfl

theorem SameNode.refl (node : KdlNode) : SameNode node node := by
  induction hsize : sizeOf node using Nat.strongRecOn generalizing node with
  | ind size ih =>
      obtain ⟨name, entries, children⟩ := node
      cases children with
      | none => exact .leaf name entries
      | some children =>
          refine .block name entries fun key => List.forall₂_same.2 fun child hchild => ?_
          refine ih (sizeOf child) ?_ child rfl
          have hlt : sizeOf child < sizeOf children :=
            List.sizeOf_lt_of_mem (List.mem_of_mem_filter hchild)
          rw [← hsize, KdlNode.mk.sizeOf_spec, Option.some.sizeOf_spec]
          omega

theorem sameNode_block_iff {name : Str} {entries : List KdlEntry} {children children' : KdlDocument} :
    SameNode ⟨name, entries, some children⟩ ⟨name, entries, some children'⟩ ↔
      SameDocument children children' := by
  constructor
  · intro h
    cases h with
    | block _ _ hchildren => exact hchildren
  · exact .block name entries

theorem SameDocument.refl (document : KdlDocument) : SameDocument document document :=
  sameByKey_refl fun node _ => SameNode.refl node

/-- Nodes that are the same one by one. -/
theorem sameDocument_of_forall₂ {document document' : KdlDocument}
    (h : List.Forall₂ SameNode document document') : SameDocument document document' :=
  (sameByKey_iff_forall₂ (h.imp fun _ _ => SameNode.nodeKey_eq)).2 h

/-! ## The nodes of a name -/

theorem ofKey_nodeKey_named (key : Str × Option Str) (name : Str) (document : KdlDocument) :
    ofKey nodeKey key (named name document) = if key.1 = name then ofKey nodeKey key document else [] := by
  rw [ofKey, named, ofKey, List.filter_filter]
  split
  · rename_i hname
    refine List.filter_congr fun node _ => ?_
    by_cases hkey : nodeKey node = key
    · have hnode : node.name = name := (congrArg Prod.fst hkey).trans hname
      simp [hkey, hnode]
    · simp [hkey]
  · rename_i hname
    refine List.filter_eq_nil_iff.2 fun node _ hboth => ?_
    obtain ⟨hkey, hnode⟩ := Bool.and_eq_true_iff.1 hboth
    have hfst : node.name = key.1 := congrArg Prod.fst (of_decide_eq_true hkey)
    exact hname (hfst.symm.trans (of_decide_eq_true hnode))

/-- Documents are the same when the nodes of each name are. -/
theorem sameDocument_iff_named {document document' : KdlDocument} : SameDocument document document' ↔
    ∀ name, SameDocument (named name document) (named name document') := by
  constructor
  · intro h name key
    rw [ofKey_nodeKey_named, ofKey_nodeKey_named]
    split
    · exact h key
    · exact .nil
  · intro h key
    have hkey := h key.1 key
    rw [ofKey_nodeKey_named, ofKey_nodeKey_named, if_pos rfl, if_pos rfl] at hkey
    exact hkey

/-- Nodes of one name that are no headers. -/
theorem sameDocument_iff_forall₂ {name : Str} (hname : name ≠ "header".toList)
    {document document' : KdlDocument} (hnamed : ∀ node ∈ document, node.name = name)
    (hnamed' : ∀ node ∈ document', node.name = name) :
    SameDocument document document' ↔ List.Forall₂ SameNode document document' := by
  have hkey : ∀ {node : KdlNode}, node.name = name → nodeKey node = (name, none) := by
    intro node hnode
    rw [nodeKey, hnode, if_neg hname]
  refine ⟨fun h => ?_, sameDocument_of_forall₂⟩
  have hall := h (name, none)
  rw [ofKey_eq_self fun node hnode => hkey (hnamed node hnode),
    ofKey_eq_self fun node hnode => hkey (hnamed' node hnode)] at hall
  exact hall

/-! ## Custom headers -/

/-- The directive for a header. -/
def headerNode (name value : Str) : KdlNode := directive "header" ⟨[.string name, .string value], []⟩

theorem ofKey_entries (entries : List (Sigma fun _ : Str => Str)) (hnodup : entries.NodupKeys) (name : Str) :
    ofKey Prod.fst name (entries.map fun header => (header.1, header.2)) =
      ((entries.dlookup name).map fun value => (name, value)).toList := by
  induction entries with
  | nil => rfl
  | cons header entries ih =>
      obtain ⟨own, value⟩ := header
      rw [List.nodupKeys_cons] at hnodup
      rw [List.map_cons]
      by_cases hown : own = name
      · have hnone : entries.dlookup name = none := List.dlookup_eq_none.2 (hown ▸ hnodup.1)
        rw [ofKey_cons_of_eq hown, ih hnodup.2, hnone, hown, List.dlookup_cons_eq]
        rfl
      · rw [ofKey_cons_of_ne hown, ih hnodup.2, List.dlookup_cons_ne _ _ (Ne.symm hown)]

/-- A header is in the table once or not at all. -/
theorem ofKey_headerNodes (order : HeaderOrder) (customHeaders : HashMap Str Str) (name : Str) :
    ofKey nodeKey ("header".toList, some name) (headerNodes order customHeaders) =
      ((customHeaders.lookup name).map (headerNode name)).toList := by
  have hperm := (order.perm (customHeaders.entries.map fun header => (header.1, header.2))).filter
    fun header => header.1 = name
  have hone := ofKey_entries _ customHeaders.nodupKeys name
  rw [ofKey] at hone
  rw [hone] at hperm
  have hkey : ∀ header : Str × Str,
      nodeKey (headerNode header.1 header.2) = ("header".toList, some name) ↔ header.1 = name := by
    intro header
    exact ⟨fun h => Option.some.inj (congrArg Prod.snd h), fun h => h ▸ rfl⟩
  have hfilter : ofKey nodeKey ("header".toList, some name) (headerNodes order customHeaders) =
      ((order.arrange (customHeaders.entries.map fun header => (header.1, header.2))).filter
        fun header => header.1 = name).map fun header => headerNode header.1 header.2 := by
    rw [ofKey, headerNodes, List.filter_map]
    refine congrArg (List.map _) (List.filter_congr fun header _ => ?_)
    exact decide_eq_decide.2 (hkey header)
  rw [hfilter]
  change List.Perm _ ((customHeaders.lookup name).map fun value => (name, value)).toList at hperm
  cases hlookup : customHeaders.lookup name with
  | none =>
      rw [hlookup] at hperm
      rw [List.perm_nil.1 hperm]
      rfl
  | some value =>
      rw [hlookup] at hperm
      rw [List.perm_singleton.1 hperm]
      rfl

theorem name_of_mem_headerNodes {order : HeaderOrder} {customHeaders : HashMap Str Str} {node : KdlNode}
    (h : node ∈ headerNodes order customHeaders) : ∃ name value, node = headerNode name value := by
  obtain ⟨header, -, rfl⟩ := List.mem_map.1 h
  exact ⟨header.1, header.2, rfl⟩

/-- The headers are the same when the two tables give the same for each name. -/
theorem sameDocument_headerNodes_iff {order order' : HeaderOrder}
    {customHeaders customHeaders' : HashMap Str Str} :
    SameDocument (headerNodes order customHeaders) (headerNodes order' customHeaders') ↔
      ∀ name, customHeaders.lookup name = customHeaders'.lookup name := by
  constructor
  · intro h name
    have hkey := h ("header".toList, some name)
    rw [ofKey_headerNodes, ofKey_headerNodes] at hkey
    cases hlookup : customHeaders.lookup name with
    | none =>
        rw [hlookup] at hkey
        cases hlookup' : customHeaders'.lookup name with
        | none => rfl
        | some value' =>
            rw [hlookup'] at hkey
            exact absurd hkey.length_eq Nat.zero_ne_one
    | some value =>
        rw [hlookup] at hkey
        cases hlookup' : customHeaders'.lookup name with
        | none =>
            rw [hlookup'] at hkey
            exact absurd hkey.length_eq Nat.one_ne_zero
        | some value' =>
            rw [hlookup'] at hkey
            cases (List.forall₂_cons.1 hkey).1
            rfl
  · rintro h ⟨name, header⟩
    by_cases hname : name = "header".toList
    · cases header with
      | none =>
          have hnone : ∀ {order : HeaderOrder} {customHeaders : HashMap Str Str},
              ofKey nodeKey (name, none) (headerNodes order customHeaders) = [] := by
            refine ofKey_eq_nil fun node hnode hkey => ?_
            obtain ⟨header, value, rfl⟩ := name_of_mem_headerNodes hnode
            cases congrArg Prod.snd hkey
          rw [hnone, hnone]
          exact .nil
      | some header =>
          rw [hname, ofKey_headerNodes, ofKey_headerNodes, h header]
          exact List.forall₂_same.2 fun node _ => SameNode.refl node
    · have hnone : ∀ {order : HeaderOrder} {customHeaders : HashMap Str Str},
          ofKey nodeKey (name, header) (headerNodes order customHeaders) = [] := by
        refine ofKey_eq_nil fun node hnode hkey => hname ?_
        obtain ⟨_, _, rfl⟩ := name_of_mem_headerNodes hnode
        exact (congrArg Prod.fst hkey).symm
      rw [hnone, hnone]
      exact .nil

end Ferron.Yaml2Kdl
