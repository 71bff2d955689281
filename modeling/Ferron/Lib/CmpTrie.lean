import Mathlib.Data.List.Basic
import Mathlib.Tactic

/-!
# Tries whose keys are compared

The children of a node are found by a comparison of keys, which may tie different keys. A path marks
some of its nodes; inserting it gives its index to the marked nodes that have none yet. So the index
of a node is that of the first path that marks it (`indexAt_ofPaths`).

`findIndices` collects the indices of the nodes along a list of keys. Looked up from the deepest node
on, they give what the nodes give (`findSome?_findIndices`).
-/

set_option autoImplicit false

namespace Ferron.Lib

/-- A trie: a node with an optional index and with children under keys. -/
inductive CmpTrie (κ : Type) where
  | node (index : Option Nat) (children : List (κ × CmpTrie κ))

namespace CmpTrie

variable {κ : Type}

/-- The trie without a path. -/
def empty : CmpTrie κ := node none []

/-- The index of the root. -/
def index : CmpTrie κ → Option Nat
  | node index _ => index

/-- The children of the root. -/
def children : CmpTrie κ → List (κ × CmpTrie κ)
  | node _ children => children

variable (cmp : κ → κ → Ordering)

/-- The child under a key. -/
def findChild (key : κ) (children : List (κ × CmpTrie κ)) : Option (CmpTrie κ) :=
  (children.find? fun child => cmp key child.1 == .eq).map Prod.snd

/-- Replaces the child under a key, or adds it. -/
def setChild (key : κ) (trie : CmpTrie κ) : List (κ × CmpTrie κ) → List (κ × CmpTrie κ)
  | [] => [(key, trie)]
  | child :: children =>
      if cmp key child.1 == .eq then (child.1, trie) :: children
      else child :: setChild key trie children

/-- Inserts a path with an index. Each key comes with a mark of the node that it leaves. -/
def insert : List (κ × Bool) → Nat → CmpTrie κ → CmpTrie κ
  | [], _, trie => trie
  | (key, mark) :: path, i, trie =>
      node (if mark && trie.index.isNone then some i else trie.index)
        (setChild cmp key (insert path i ((findChild cmp key trie.children).getD empty))
          trie.children)

/-- Inserts paths with consecutive indices. -/
def ofPaths (paths : List (List (κ × Bool))) : CmpTrie κ :=
  paths.zipIdx.foldl (fun trie path => insert cmp path.1 path.2 trie) empty

/-- The index of the node at some keys. -/
def indexAt : List κ → CmpTrie κ → Option Nat
  | [], trie => trie.index
  | key :: keys, trie => (findChild cmp key trie.children).bind (indexAt keys)

/-- The path marks the node at these keys. -/
def Marks : List κ → List (κ × Bool) → Bool
  | _, [] => false
  | [], (_, mark) :: _ => mark
  | key :: keys, (key', _) :: path => cmp key key' == .eq && Marks keys path

/-- The indices of the nodes along some keys, without immediate repetitions. The node at all the keys
is not looked at. -/
def findIndices : List κ → CmpTrie κ → List Nat → List Nat
  | [], _, indices => indices
  | key :: keys, trie, indices =>
      let indices := if indices.getLast? ≠ trie.index then indices ++ trie.index.toList else indices
      match findChild cmp key trie.children with
      | some child => findIndices keys child indices
      | none => indices

/-! ## The index of a node -/

section Insert

variable [Std.TransCmp cmp]

theorem findChild_setChild (key key' : κ) (trie : CmpTrie κ) (children : List (κ × CmpTrie κ)) :
    findChild cmp key (setChild cmp key' trie children) =
      if cmp key key' = .eq then some trie else findChild cmp key children := by
  induction children with
  | nil =>
      by_cases h : cmp key key' = .eq
      · simp [setChild, findChild, h]
      · simp [setChild, findChild, h]
  | cons child children ih =>
      by_cases hchild : cmp key' child.1 = .eq
      · have hsame : cmp key child.1 = cmp key key' := (Std.TransCmp.congr_right hchild).symm
        by_cases h : cmp key key' = .eq <;> simp [setChild, findChild, hchild, hsame, h]
      · have hset : setChild cmp key' trie (child :: children) =
            child :: setChild cmp key' trie children := by
          simp [setChild, hchild]
        rw [hset]
        by_cases h : cmp key child.1 = .eq
        · have hne : cmp key key' ≠ .eq := by
            intro hkeys
            exact hchild (by rw [← Std.TransCmp.congr_left hkeys]; exact h)
          simp [findChild, h, hne]
        · have hskip : ∀ rest : List (κ × CmpTrie κ),
              findChild cmp key (child :: rest) = findChild cmp key rest := by
            intro rest
            simp [findChild, h]
          rw [hskip, hskip, ih]

omit [Std.TransCmp cmp] in
theorem indexAt_empty (keys : List κ) : indexAt cmp keys (empty : CmpTrie κ) = none := by
  cases keys <;> rfl

theorem findChild_congr {key key' : κ} (h : cmp key key' = .eq) (children : List (κ × CmpTrie κ)) :
    findChild cmp key children = findChild cmp key' children := by
  unfold findChild
  simp only [Std.TransCmp.congr_left h]

/-- Inserting a path gives its index to the nodes that it marks and that have none. -/
theorem indexAt_insert (keys : List κ) (path : List (κ × Bool)) (i : Nat) (trie : CmpTrie κ) :
    indexAt cmp keys (insert cmp path i trie) =
      (indexAt cmp keys trie).or (if Marks cmp keys path then some i else none) := by
  induction path generalizing keys trie with
  | nil => cases keys <;> simp [insert, Marks]
  | cons step path ih =>
      obtain ⟨key', mark⟩ := step
      cases keys with
      | nil =>
          change (if mark && trie.index.isNone then some i else trie.index) =
            trie.index.or (if mark then some i else none)
          cases trie.index <;> cases mark <;> rfl
      | cons key keys =>
          change (findChild cmp key (setChild cmp key' _ trie.children)).bind _ = _
          rw [findChild_setChild, indexAt, Marks]
          by_cases h : cmp key key' = .eq
          · rw [if_pos h, Option.bind_some, ih, findChild_congr cmp h]
            cases findChild cmp key' trie.children with
            | none => simp [indexAt_empty, h]
            | some child => simp [h]
          · simp [h]

theorem indexAt_foldl_insert (keys : List κ) (paths : List (List (κ × Bool))) (n : Nat)
    (trie : CmpTrie κ) :
    indexAt cmp keys
        ((paths.zipIdx n).foldl (fun trie path => insert cmp path.1 path.2 trie) trie) =
      (indexAt cmp keys trie).or ((paths.findIdx? (Marks cmp keys)).map (· + n)) := by
  induction paths generalizing n trie with
  | nil => simp
  | cons path paths ih =>
      rw [List.zipIdx_cons, List.foldl_cons, ih, indexAt_insert, Option.or_assoc,
        List.findIdx?_cons]
      congr 1
      by_cases h : Marks cmp keys path = true
      · simp [h]
      · simp only [h, Bool.false_eq_true, if_false, Option.none_or, Option.map_map]
        congr 1
        funext j
        simp only [Function.comp_apply]
        omega

/-- The index of a node is that of the first path that marks it. -/
theorem indexAt_ofPaths (keys : List κ) (paths : List (List (κ × Bool))) :
    indexAt cmp keys (ofPaths cmp paths) = paths.findIdx? (Marks cmp keys) := by
  rw [ofPaths, indexAt_foldl_insert, indexAt_empty, Option.none_or]
  simp

end Insert

/-! ## Looking up along the keys -/

section Lookup

variable {β : Type} (f : Nat → Option β)

/-- What the nodes along some keys give, the deepest first. -/
def deepest : List κ → CmpTrie κ → Option β
  | [], _ => none
  | key :: keys, trie =>
      ((findChild cmp key trie.children).bind (deepest keys)).or (trie.index.bind f)

theorem findSome?_append_index (indices : List Nat) (i : Option Nat) :
    ((if indices.getLast? ≠ i then indices ++ i.toList else indices).reverse.findSome? f) =
      (i.bind f).or (indices.reverse.findSome? f) := by
  cases i with
  | none => simp
  | some i =>
      by_cases h : indices.getLast? = some i
      · rw [if_neg (not_not.2 h)]
        obtain ⟨init, rfl⟩ := List.getLast?_eq_some_iff.1 h
        rw [List.reverse_append, List.reverse_singleton, List.singleton_append,
          List.findSome?_cons]
        cases hi : f i <;> simp [hi]
      · rw [if_pos h, List.reverse_append]
        simp only [Option.toList_some, List.reverse_singleton, List.singleton_append,
          List.findSome?_cons, Option.bind_some]
        cases f i <;> rfl

theorem findSome?_findIndices_append (keys : List κ) (trie : CmpTrie κ) (indices : List Nat) :
    (findIndices cmp keys trie indices).reverse.findSome? f =
      (deepest cmp f keys trie).or (indices.reverse.findSome? f) := by
  induction keys generalizing trie indices with
  | nil => rfl
  | cons key keys ih =>
      rw [findIndices, deepest]
      cases findChild cmp key trie.children with
      | none =>
          dsimp only
          rw [findSome?_append_index, Option.bind_none, Option.none_or]
      | some child =>
          dsimp only
          rw [ih, findSome?_append_index, Option.bind_some, Option.or_assoc]

/-- Looked up from the last one on, the indices give what the nodes give. -/
theorem findSome?_findIndices (keys : List κ) (trie : CmpTrie κ) :
    (findIndices cmp keys trie []).reverse.findSome? f = deepest cmp f keys trie := by
  rw [findSome?_findIndices_append, List.reverse_nil, List.findSome?_nil, Option.or_none]

/-- What the nodes give, the deepest first, node by node. -/
theorem deepest_eq_findSome? (keys : List κ) (trie : CmpTrie κ) :
    deepest cmp f keys trie = (List.range keys.length).reverse.findSome? fun depth =>
      (indexAt cmp (keys.take depth) trie).bind f := by
  induction keys generalizing trie with
  | nil => rfl
  | cons key keys ih =>
      -- the root is the last node, and the others are those of the child
      rw [deepest, List.length_cons, List.range_succ_eq_map, List.reverse_cons,
        List.findSome?_append, ← List.map_reverse, List.findSome?_map]
      have hroot : [0].findSome? (fun depth =>
          (indexAt cmp ((key :: keys).take depth) trie).bind f) = trie.index.bind f := by
        rw [List.findSome?_singleton]
        rfl
      have hbelow : (fun depth => (indexAt cmp ((key :: keys).take depth) trie).bind f) ∘
          Nat.succ = fun depth =>
            ((findChild cmp key trie.children).bind (indexAt cmp (keys.take depth))).bind f := rfl
      rw [hroot, hbelow]
      cases findChild cmp key trie.children with
      | none =>
          simp only [Option.bind_none]
          rw [List.findSome?_eq_none_iff.2 fun _ _ => rfl]
      | some child =>
          simp only [Option.bind_some]
          rw [ih]

end Lookup

end CmpTrie

end Ferron.Lib
