import Mathlib.Data.List.Sort
import Mathlib.Tactic

/-!
# What a stable sort does to the order

A stable sort by a total preorder puts one element before another when the order says so strictly, or
when the order ties them and they came in this order (`Precedes`). So it keeps the elements of a tied
class in their order (`filter_insertionSort`, `find?_insertionSort`), and three elements stand in the
sorted list in some order exactly when each precedes the next
(`three_sublist_insertionSort_iff`). A sorted list is determined by its tied classes
(`eq_of_filter_tied`).
-/

set_option autoImplicit false

namespace Ferron.Lib.StableSort

open scoped List

variable {α : Type} (r : α → α → Prop) [DecidableRel r] [Std.Total r] [IsTrans α r]

omit [Std.Total r] [IsTrans α r] in
/-- The elements of a tied class stay in their order. -/
theorem filter_insertionSort (p : α → Bool) (h : ∀ a b, p a = true → p b = true → r a b)
    (l : List α) : (l.insertionSort r).filter p = l.filter p := by
  have htied : (l.filter p).Pairwise r := by
    rw [List.pairwise_iff_forall_sublist]
    intro a b hab
    have hmem : ∀ c ∈ [a, b], p c = true := fun c hc => (List.mem_filter.1 (hab.subset hc)).2
    exact h a b (hmem a (by simp)) (hmem b (by simp))
  have hsublist := (List.sublist_insertionSort htied List.filter_sublist).filter p
  rw [List.filter_filter, show (fun a => p a && p a) = p from funext fun a => Bool.and_self _]
    at hsublist
  exact (hsublist.eq_of_length ((List.perm_insertionSort r l).filter p).length_eq.symm).symm

omit [Std.Total r] [IsTrans α r] in
/-- The first element of a tied class stays the first. -/
theorem find?_insertionSort (p : α → Bool) (h : ∀ a b, p a = true → p b = true → r a b)
    (l : List α) : (l.insertionSort r).find? p = l.find? p := by
  rw [← List.head?_filter, filter_insertionSort r p h, List.head?_filter]

omit [Std.Total r] in
/-- Inserting into a sorted list commutes with taking some of its elements. -/
theorem filter_orderedInsert (p : α → Bool) (a : α) {l : List α} (hl : l.Pairwise r) :
    (l.orderedInsert r a).filter p =
      if p a then (l.filter p).orderedInsert r a else l.filter p := by
  induction l with
  | nil => by_cases hpa : p a = true <;> simp [hpa]
  | cons b l ih =>
      rw [List.pairwise_cons] at hl
      by_cases hab : r a b
      · have hfirst : ∀ c ∈ (b :: l).filter p, r a c := by
          intro c hc
          rcases List.mem_cons.1 (List.mem_filter.1 hc).1 with rfl | hc'
          · exact hab
          · exact IsTrans.trans a b c hab (hl.1 c hc')
        have hinsert : ((b :: l).filter p).orderedInsert r a = a :: (b :: l).filter p := by
          cases hfilter : (b :: l).filter p with
          | nil => rfl
          | cons c rest =>
              rw [List.orderedInsert_cons_of_le]
              exact hfirst c (by rw [hfilter]; exact List.mem_cons_self)
        rw [List.orderedInsert_cons_of_le r l hab, hinsert, List.filter_cons]
      · rw [List.orderedInsert_of_not_le r l hab, List.filter_cons, List.filter_cons, ih hl.2]
        by_cases hpa : p a = true
        · by_cases hpb : p b = true
          · simp only [hpa, hpb, if_true]
            rw [List.orderedInsert_of_not_le r _ hab]
          · simp only [hpa, hpb, if_true, Bool.false_eq_true, if_false]
        · by_cases hpb : p b = true <;> simp only [hpa, hpb, if_true, Bool.false_eq_true, if_false]

/-- Sorting commutes with taking some of the elements. -/
theorem filter_insertionSort_comm (p : α → Bool) (l : List α) :
    (l.insertionSort r).filter p = (l.filter p).insertionSort r := by
  induction l with
  | nil => rfl
  | cons a l ih =>
      rw [List.insertionSort_cons, filter_orderedInsert r p a (List.pairwise_insertionSort r l), ih,
        List.filter_cons]
      split
      · rw [List.insertionSort_cons]
      · rfl

omit [Std.Total r] [IsTrans α r] in
/-- Lists whose elements are related, and ordered alike, are so after sorting. -/
theorem forall₂_insertionSort {β : Type} {s : β → β → Prop} [DecidableRel s] {R : α → β → Prop}
    (hr : ∀ a b a' b', R a a' → R b b' → (r a b ↔ s a' b')) {l : List α} {l' : List β}
    (h : List.Forall₂ R l l') : List.Forall₂ R (l.insertionSort r) (l'.insertionSort s) := by
  have hinsert : ∀ {a : α} {a' : β} {l : List α} {l' : List β}, R a a' → List.Forall₂ R l l' →
      List.Forall₂ R (l.orderedInsert r a) (l'.orderedInsert s a') := by
    intro a a' l l' ha hl
    induction hl with
    | nil => exact List.Forall₂.cons ha List.Forall₂.nil
    | @cons b b' rest rest' hb hrest ih =>
        by_cases hab : r a b
        · rw [List.orderedInsert_cons_of_le r _ hab,
            List.orderedInsert_cons_of_le s _ ((hr a b a' b' ha hb).1 hab)]
          exact List.Forall₂.cons ha (List.Forall₂.cons hb hrest)
        · rw [List.orderedInsert_of_not_le r _ hab,
            List.orderedInsert_of_not_le s _ fun hab' => hab ((hr a b a' b' ha hb).2 hab')]
          exact List.Forall₂.cons hb ih
  induction h with
  | nil => exact List.Forall₂.nil
  | cons ha _ ih =>
      rw [List.insertionSort_cons, List.insertionSort_cons]
      exact hinsert ha ih

/-! ## The scan from the end -/

/-- Going through the sorted reversed list from its end finds, of the elements with a property, the
first of those that no other one is greater than. -/
theorem find?_reverse_insertionSort_reverse (p q : α → Bool) {l : List α}
    (hq : ∀ a ∈ l, q a = true ↔ p a = true ∧ ∀ b ∈ l, p b = true → r b a) :
    (l.reverse.insertionSort r).reverse.find? p = l.find? q := by
  have hmem : ∀ a, a ∈ (l.reverse.insertionSort r).reverse ↔ a ∈ l := by
    intro a
    rw [List.mem_reverse, List.mem_insertionSort, List.mem_reverse]
  have hsorted : (l.reverse.insertionSort r).reverse.Pairwise fun a b => r b a :=
    List.pairwise_reverse.2 (List.pairwise_insertionSort r l.reverse)
  -- the first element with the property from the end is a greatest one
  have hgreatest : (l.reverse.insertionSort r).reverse.find? p =
      (l.reverse.insertionSort r).reverse.find? q := by
    cases hfind : (l.reverse.insertionSort r).reverse.find? p with
    | none =>
        symm
        rw [List.find?_eq_none] at hfind ⊢
        intro a ha hqa
        exact hfind a ha ((hq a ((hmem a).1 ha)).1 hqa).1
    | some d =>
        symm
        rw [List.find?_eq_some_iff_append] at hfind ⊢
        obtain ⟨hpd, front, back, hsplit, hfront⟩ := hfind
        have hd : d ∈ l := by
          rw [← hmem, hsplit]
          exact List.mem_append_right _ List.mem_cons_self
        refine ⟨(hq d hd).2 ⟨hpd, ?_⟩, front, back, hsplit, ?_⟩
        · intro b hb hpb
          rw [← hmem, hsplit] at hb
          rcases List.mem_append.1 hb with hbefore | hafter
          · exact absurd hpb (by simpa using hfront b hbefore)
          · rcases List.mem_cons.1 hafter with rfl | hback
            · exact (Std.Total.total (r := r) b b).elim id id
            · rw [hsplit] at hsorted
              exact List.rel_of_pairwise_cons (List.pairwise_append.1 hsorted).2.1 hback
        · intro a ha
          have hal : a ∈ l := by
            rw [← hmem, hsplit]
            exact List.mem_append_left _ ha
          rw [Bool.not_eq_true', Bool.eq_false_iff]
          intro hqa
          exact absurd ((hq a hal).1 hqa).1 (by simpa using hfront a ha)
  -- the greatest ones are tied, so they keep their order
  have htied : (l.reverse.filter q).Pairwise r := by
    rw [List.pairwise_iff_forall_sublist]
    intro a b hab
    have hclass : ∀ c ∈ [a, b], c ∈ l ∧ q c = true := by
      intro c hc
      obtain ⟨hcl, hqc⟩ := List.mem_filter.1 (hab.subset hc)
      exact ⟨List.mem_reverse.1 hcl, hqc⟩
    obtain ⟨ha, hqa⟩ := hclass a (by simp)
    obtain ⟨hb, hqb⟩ := hclass b (by simp)
    exact ((hq b hb).1 hqb).2 a ha ((hq a ha).1 hqa).1
  have hfilter : (l.reverse.insertionSort r).filter q = (l.filter q).reverse := by
    rw [filter_insertionSort_comm, htied.insertionSort_eq, List.filter_reverse]
  rw [hgreatest, ← List.head?_filter, ← List.head?_filter, List.filter_reverse, hfilter,
    List.reverse_reverse]

/-- Two elements that the order ties. -/
def Tied (a b : α) : Bool := decide (r a b) && decide (r b a)

omit [Std.Total r] [IsTrans α r] in
theorem tied_iff {a b : α} : Tied r a b = true ↔ r a b ∧ r b a := by
  rw [Tied, Bool.and_eq_true, decide_eq_true_eq, decide_eq_true_eq]

omit [IsTrans α r] in
/-- A sorted list is determined by its tied classes. -/
theorem eq_of_filter_tied {l l' : List α} (hl : l.Pairwise r) (hl' : l'.Pairwise r)
    (hclasses : ∀ a, l.filter (Tied r a) = l'.filter (Tied r a)) : l = l' := by
  have hself : ∀ a, Tied r a a = true := fun a =>
    (tied_iff r).2 ⟨(Std.Total.total (r := r) a a).elim id id,
      (Std.Total.total (r := r) a a).elim id id⟩
  have hmem : ∀ {l l' : List α}, (∀ a, l.filter (Tied r a) = l'.filter (Tied r a)) →
      ∀ a ∈ l, a ∈ l' := by
    intro l l' hclasses a ha
    have hfilter : a ∈ l'.filter (Tied r a) := by
      rw [← hclasses a]
      exact List.mem_filter.2 ⟨ha, hself a⟩
    exact (List.mem_filter.1 hfilter).1
  induction l generalizing l' with
  | nil =>
      cases l' with
      | nil => rfl
      | cons b l' => exact absurd (hmem (fun a => (hclasses a).symm) b List.mem_cons_self) (by simp)
  | cons a l ih =>
      cases l' with
      | nil => exact absurd (hmem hclasses a List.mem_cons_self) (by simp)
      | cons b l' =>
          rw [List.pairwise_cons] at hl hl'
          have hab : r a b := by
            rcases List.mem_cons.1 (hmem (fun c => (hclasses c).symm) b List.mem_cons_self) with
              rfl | hb
            · exact ((tied_iff r).1 (hself b)).1
            · exact hl.1 b hb
          have hba : r b a := by
            rcases List.mem_cons.1 (hmem hclasses a List.mem_cons_self) with rfl | ha
            · exact ((tied_iff r).1 (hself a)).1
            · exact hl'.1 a ha
          -- both lists begin with the first element of one class
          have hclass := hclasses a
          rw [List.filter_cons_of_pos (hself a),
            List.filter_cons_of_pos ((tied_iff r).2 ⟨hab, hba⟩), List.cons.injEq] at hclass
          obtain ⟨rfl, -⟩ := hclass
          rw [ih hl.2 hl'.2]
          intro c
          have hrest := hclasses c
          rw [List.filter_cons, List.filter_cons] at hrest
          split at hrest
          · exact (List.cons.inj hrest).2
          · exact hrest

/-! ## Elements with their positions -/

/-- A stable sort by `r` puts the first element, with its position, before the second. -/
def Precedes (x y : α × Nat) : Prop := r x.1 y.1 ∧ (r y.1 x.1 → x.2 < y.2)

omit [DecidableRel r] [Std.Total r] [IsTrans α r] in
theorem Precedes.asymm {x y : α × Nat} (h : Precedes r x y) : ¬ Precedes r y x := by
  intro h'
  have hlt := h.2 h'.1
  have hgt := h'.2 h.1
  omega

/-- Two elements of a list stand in it in one order or the other. -/
theorem pair_sublist_or {β : Type} {l : List β} {x y : β} (hx : x ∈ l) (hy : y ∈ l) (hne : x ≠ y) :
    [x, y] <+ l ∨ [y, x] <+ l := by
  induction l with
  | nil => exact absurd hx List.not_mem_nil
  | cons z l ih =>
      rcases List.mem_cons.1 hx with rfl | hx'
      · rcases List.mem_cons.1 hy with rfl | hy'
        · exact absurd rfl hne
        · exact Or.inl ((List.singleton_sublist.2 hy').cons_cons x)
      · rcases List.mem_cons.1 hy with rfl | hy'
        · exact Or.inr ((List.singleton_sublist.2 hx').cons_cons y)
        · rcases ih hx' hy' with h | h
          · exact Or.inl (h.cons z)
          · exact Or.inr (h.cons z)

/-- In a list without repetitions two elements stand in one order only. -/
theorem not_pair_sublist_swap {β : Type} {l : List β} (hl : l.Nodup) {x y : β} (h : [x, y] <+ l) :
    ¬ [y, x] <+ l := by
  induction l with
  | nil => exact absurd (List.sublist_nil.1 h) (List.cons_ne_nil _ _)
  | cons z l ih =>
      rw [List.nodup_cons] at hl
      intro h'
      have htail : ∀ {u v : β}, [u, v] <+ z :: l → u = z ∧ v ∈ l ∨ [u, v] <+ l := by
        intro u v huv
        cases huv with
        | cons _ huv => exact Or.inr huv
        | cons_cons _ hv => exact Or.inl ⟨rfl, List.singleton_sublist.1 hv⟩
      rcases htail h with ⟨rfl, hy⟩ | hxy
      · rcases htail h' with ⟨rfl, -⟩ | hyx
        · exact hl.1 hy
        · exact hl.1 (hyx.subset (by simp))
      · rcases htail h' with ⟨rfl, hx⟩ | hyx
        · exact hl.1 (hxy.subset (by simp))
        · exact ih hl.2 hxy hyx

/-- In a list without repetitions two neighbouring pairs make a triple. -/
theorem three_sublist_of_pairs {β : Type} {l : List β} (hl : l.Nodup) {x y z : β}
    (hxy : [x, y] <+ l) (hyz : [y, z] <+ l) : [x, y, z] <+ l := by
  induction l with
  | nil => exact absurd (List.sublist_nil.1 hxy) (List.cons_ne_nil _ _)
  | cons w l ih =>
      rw [List.nodup_cons] at hl
      cases hxy with
      | cons _ hxy =>
          cases hyz with
          | cons _ hyz => exact (ih hl.2 hxy hyz).cons w
          | cons_cons _ hz => exact absurd (hxy.subset (by simp)) hl.1
      | cons_cons _ hy =>
          cases hyz with
          | cons _ hyz => exact hyz.cons_cons _
          | cons_cons _ hz => exact absurd (List.singleton_sublist.1 hy) hl.1

section Tagged

/-- The list, each element with its position, sorted in the same way. -/
def sortTagged (l : List α) : List (α × Nat) := l.zipIdx.insertionSort fun x y => r x.1 y.1

omit [Std.Total r] [IsTrans α r] in
theorem map_fst_sortTagged (l : List α) : (sortTagged r l).map Prod.fst = l.insertionSort r := by
  rw [sortTagged, List.map_insertionSort (fun x y : α × Nat => r x.1 y.1) r Prod.fst _
    fun _ _ _ _ => Iff.rfl, List.zipIdx_map_fst]

omit [Std.Total r] [IsTrans α r] in
theorem nodup_sortTagged (l : List α) : (sortTagged r l).Nodup := by
  rw [sortTagged, (List.perm_insertionSort _ _).nodup_iff]
  refine List.Nodup.of_map Prod.snd ?_
  rw [List.zipIdx_map_snd]
  exact List.nodup_range'

omit [Std.Total r] [IsTrans α r] in
theorem mem_sortTagged {l : List α} {x : α × Nat} :
    x ∈ sortTagged r l ↔ l[x.2]? = some x.1 := by
  rw [sortTagged, List.mem_insertionSort, List.mem_zipIdx_iff_getElem?]

theorem pairwise_sortTagged (l : List α) : (sortTagged r l).Pairwise (Precedes r) := by
  have htotal : Std.Total fun x y : α × Nat => r x.1 y.1 := ⟨fun x y => Std.Total.total x.1 y.1⟩
  have htrans : IsTrans (α × Nat) fun x y => r x.1 y.1 :=
    ⟨fun x y z => IsTrans.trans x.1 y.1 z.1⟩
  rw [List.pairwise_iff_forall_sublist]
  intro x y hxy
  have hsorted := List.pairwise_insertionSort (fun x y : α × Nat => r x.1 y.1) l.zipIdx
  refine ⟨List.pairwise_iff_forall_sublist.1 hsorted hxy, ?_⟩
  intro hyx
  -- tied elements come out in the order in which they came in
  by_contra hge
  have hne : y ≠ x := by
    rintro rfl
    exact not_pair_sublist_swap (nodup_sortTagged r l) hxy hxy
  have hx : x ∈ l.zipIdx := (List.mem_insertionSort _).1 (hxy.subset (by simp))
  have hy : y ∈ l.zipIdx := (List.mem_insertionSort _).1 (hxy.subset (by simp))
  have hpositions : l.zipIdx.Pairwise fun x y => x.2 < y.2 := by
    have hrange : (l.zipIdx.map Prod.snd).Pairwise (· < ·) := by
      rw [List.zipIdx_map_snd]
      exact List.pairwise_lt_range'
    exact List.pairwise_map.1 hrange
  rcases pair_sublist_or hy hx hne with hsub | hsub
  · exact not_pair_sublist_swap (nodup_sortTagged r l) hxy
      (List.pair_sublist_insertionSort hyx hsub)
  · exact hge (List.pairwise_iff_forall_sublist.1 hpositions hsub)

end Tagged

/-- Three elements stand in the sorted list in this order exactly when each precedes the next. -/
theorem three_sublist_insertionSort_iff {l : List α} {a b c : α} :
    [a, b, c] <+ l.insertionSort r ↔
      ∃ i j k, l[i]? = some a ∧ l[j]? = some b ∧ l[k]? = some c ∧
        Precedes r (a, i) (b, j) ∧ Precedes r (b, j) (c, k) := by
  rw [← map_fst_sortTagged, List.sublist_map_iff]
  have hpairwise := pairwise_sortTagged r l
  have hnodup := nodup_sortTagged r l
  constructor
  · rintro ⟨tagged, hsub, htagged⟩
    obtain ⟨x, y, z, rfl⟩ : ∃ x y z, tagged = [x, y, z] := by
      rw [← List.length_eq_three]
      have hlength := congrArg List.length htagged
      rw [List.length_map] at hlength
      exact hlength.symm
    simp only [List.map_cons, List.map_nil, List.cons.injEq, and_true] at htagged
    obtain ⟨rfl, rfl, rfl⟩ := htagged
    have hmem : ∀ t ∈ [x, y, z], l[t.2]? = some t.1 := fun t ht =>
      (mem_sortTagged r).1 (hsub.subset ht)
    have hxyz := hpairwise.sublist hsub
    simp only [List.pairwise_cons] at hxyz
    exact ⟨x.2, y.2, z.2, hmem x (by simp), hmem y (by simp), hmem z (by simp),
      hxyz.1 y (by simp), hxyz.2.1 z (by simp)⟩
  · rintro ⟨i, j, k, ha, hb, hc, hab, hbc⟩
    have hpair : ∀ {x y : α × Nat}, x ∈ sortTagged r l → y ∈ sortTagged r l → Precedes r x y →
        [x, y] <+ sortTagged r l := by
      intro x y hx hy hxy
      have hne : x ≠ y := by
        rintro rfl
        exact hxy.asymm r hxy
      rcases pair_sublist_or hx hy hne with h | h
      · exact h
      · exact absurd (List.pairwise_iff_forall_sublist.1 hpairwise h) (hxy.asymm r)
    refine ⟨[(a, i), (b, j), (c, k)], three_sublist_of_pairs hnodup ?_ ?_, rfl⟩
    · exact hpair ((mem_sortTagged r).2 ha) ((mem_sortTagged r).2 hb) hab
    · exact hpair ((mem_sortTagged r).2 hb) ((mem_sortTagged r).2 hc) hbc

/-! ## Sorting by a comparison of keys -/

section Key

variable {κ : Type} (cmp : κ → κ → Ordering) (key : α → κ)

/-- The key of the first element is not the greater one. -/
def KeyLE (a b : α) : Prop := (cmp (key a) (key b)).isLE = true

instance : DecidableRel (KeyLE cmp key) := fun a b =>
  inferInstanceAs (Decidable ((cmp (key a) (key b)).isLE = true))

instance [Std.OrientedCmp cmp] : Std.Total (KeyLE cmp key) where
  total a b := by
    have hswap : cmp (key b) (key a) = (cmp (key a) (key b)).swap := Std.OrientedCmp.eq_swap
    unfold KeyLE
    rw [hswap]
    cases cmp (key a) (key b) <;> simp

instance [Std.TransCmp cmp] : IsTrans α (KeyLE cmp key) where
  trans _ _ _ hab hbc := Std.TransCmp.isLE_trans hab hbc

/-- `sort_by` with a comparison of keys. -/
def sortBy (l : List α) : List α := l.insertionSort (KeyLE cmp key)

/-- Before in the order, or tied with it and at an earlier position. -/
theorem precedes_iff [Std.OrientedCmp cmp] (x y : α × Nat) :
    Precedes (KeyLE cmp key) x y ↔
      cmp (key x.1) (key y.1) = .lt ∨ cmp (key x.1) (key y.1) = .eq ∧ x.2 < y.2 := by
  have hswap : cmp (key y.1) (key x.1) = (cmp (key x.1) (key y.1)).swap := Std.OrientedCmp.eq_swap
  unfold Precedes KeyLE
  rw [hswap]
  cases cmp (key x.1) (key y.1) <;> simp

end Key

end Ferron.Lib.StableSort
