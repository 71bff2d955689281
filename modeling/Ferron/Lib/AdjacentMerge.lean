import Mathlib.Data.List.Basic
import Mathlib.Tactic

/-!
# Merging neighbours with one key

`mergeAdjacent` goes through a list once and merges each element into the current one as long as
their keys are equal. What does not change when two neighbours of one key are merged does not change
at all (`collect_mergeAdjacent`), and no key is left twice exactly when in the list no element of
another key stands between two of one key (`pairwise_mergeAdjacent_iff`).
-/

set_option autoImplicit false

namespace Ferron.Lib.AdjacentMerge

open scoped List

variable {α κ : Type} [BEq κ] (key : α → κ) (merge : α → α → α)

/-- Merges the elements of a list into the current one until one of another key comes. -/
def mergeFrom (current : α) : List α → List α
  | [] => [current]
  | next :: rest =>
      if key next == key current then mergeFrom (merge current next) rest
      else current :: mergeFrom next rest

/-- Merges neighbours with one key. -/
def mergeAdjacent : List α → List α
  | [] => []
  | current :: rest => mergeFrom key merge current rest

/-- Between two elements of one key there is none of another key. -/
def Grouped (l : List α) : Prop :=
  ∀ a c b, [a, c, b] <+ l → (key a == key b) = true → (key c == key a) = true

section Collect

variable {μ : Type} {collect : List α → μ}
  (hcollect : ∀ front a b back, (key b == key a) = true →
    collect (front ++ merge a b :: back) = collect (front ++ a :: b :: back))

include hcollect in
theorem collect_mergeFrom (front : List α) (current : α) (rest : List α) :
    collect (front ++ mergeFrom key merge current rest) = collect (front ++ current :: rest) := by
  induction rest generalizing front current with
  | nil => rfl
  | cons next rest ih =>
      rw [mergeFrom]
      split
      · rename_i hsame
        rw [ih, hcollect front current next rest hsame]
      · have hnext := ih (front ++ [current]) next
        rw [List.append_assoc, List.append_assoc] at hnext
        exact hnext

include hcollect in
/-- What merging two neighbours leaves as it is, merging all of them leaves as it is. -/
theorem collect_mergeAdjacent (l : List α) : collect (mergeAdjacent key merge l) = collect l := by
  cases l with
  | nil => rfl
  | cons current rest => exact collect_mergeFrom key merge hcollect [] current rest

end Collect

variable {merge} (hmerge : ∀ a b, key (merge a b) = key a)

include hmerge in
theorem mem_map_key_mergeFrom (current : α) (rest : List α) {d : α}
    (hd : d ∈ mergeFrom key merge current rest) : ∃ c ∈ current :: rest, key c = key d := by
  induction rest generalizing current with
  | nil => exact ⟨current, List.mem_cons_self, by rw [List.mem_singleton.1 hd]⟩
  | cons next rest ih =>
      rw [mergeFrom] at hd
      split at hd
      · obtain ⟨c, hc, hkey⟩ := ih _ hd
        rcases List.mem_cons.1 hc with rfl | hc
        · exact ⟨current, List.mem_cons_self, by rw [← hkey, hmerge]⟩
        · exact ⟨c, List.mem_cons_of_mem _ (List.mem_cons_of_mem _ hc), hkey⟩
      · rcases List.mem_cons.1 hd with rfl | hd
        · exact ⟨d, List.mem_cons_self, rfl⟩
        · obtain ⟨c, hc, hkey⟩ := ih _ hd
          exact ⟨c, List.mem_cons_of_mem _ hc, hkey⟩

include hmerge in
/-- Every key that is left came in. -/
theorem exists_key_of_mem_mergeAdjacent {l : List α} {d : α} (hd : d ∈ mergeAdjacent key merge l) :
    ∃ c ∈ l, key c = key d := by
  cases l with
  | nil => exact absurd hd List.not_mem_nil
  | cons current rest => exact mem_map_key_mergeFrom key hmerge current rest hd

include hmerge in
theorem find?_mergeFrom {p : κ → Bool} (hp : ∀ k k', (k == k') = true → p k = p k') (current : α)
    (rest : List α) : ((mergeFrom key merge current rest).find? fun a => p (key a)).map key =
      ((current :: rest).find? fun a => p (key a)).map key := by
  induction rest generalizing current with
  | nil => rfl
  | cons next rest ih =>
      rw [mergeFrom]
      split
      · rename_i hsame
        rw [ih, List.find?_cons, List.find?_cons, List.find?_cons, hmerge, hp _ _ hsame]
        cases p (key current) with
        | true => exact congrArg some (hmerge current next)
        | false => rfl
      · rw [List.find?_cons, List.find?_cons]
        cases p (key current) with
        | true => rfl
        | false => exact ih next

include hmerge in
/-- The first key with a property that comes in is the first that is left. -/
theorem find?_mergeAdjacent {p : κ → Bool} (hp : ∀ k k', (k == k') = true → p k = p k')
    (l : List α) : ((mergeAdjacent key merge l).find? fun a => p (key a)).map key =
      (l.find? fun a => p (key a)).map key := by
  cases l with
  | nil => rfl
  | cons current rest => exact find?_mergeFrom key hmerge hp current rest

include hmerge in
theorem map_key_mergeFrom_sublist (current : α) (rest : List α) :
    (mergeFrom key merge current rest).map key <+ (current :: rest).map key := by
  induction rest generalizing current with
  | nil => exact List.Sublist.refl _
  | cons next rest ih =>
      rw [mergeFrom]
      split
      · have hmerged := ih (merge current next)
        rw [List.map_cons, hmerge] at hmerged
        exact hmerged.trans (((List.sublist_cons_self _ _).cons_cons _))
      · rw [List.map_cons, List.map_cons]
        exact (ih next).cons_cons _

include hmerge in
/-- The keys that are left are in the order in which they came in. -/
theorem map_key_mergeAdjacent_sublist (l : List α) :
    (mergeAdjacent key merge l).map key <+ l.map key := by
  cases l with
  | nil => exact List.Sublist.refl _
  | cons current rest => exact map_key_mergeFrom_sublist key hmerge current rest

variable [EquivBEq κ]

include hmerge in
theorem exists_mem_mergeFrom (current : α) (rest : List α) {c : α} (hc : c ∈ current :: rest) :
    ∃ d ∈ mergeFrom key merge current rest, (key d == key c) = true := by
  induction rest generalizing current c with
  | nil => exact ⟨current, List.mem_cons_self, by rw [List.mem_singleton.1 hc]; exact BEq.rfl⟩
  | cons next rest ih =>
      rw [mergeFrom]
      split
      · rename_i hsame
        have hmerged : ∃ c' ∈ merge current next :: rest, (key c' == key c) = true := by
          rcases List.mem_cons.1 hc with rfl | hc'
          · exact ⟨_, List.mem_cons_self, by rw [hmerge]; exact BEq.rfl⟩
          · rcases List.mem_cons.1 hc' with rfl | hc''
            · exact ⟨_, List.mem_cons_self, by rw [hmerge]; exact BEq.symm hsame⟩
            · exact ⟨c, List.mem_cons_of_mem _ hc'', BEq.rfl⟩
        obtain ⟨c', hc', hkey⟩ := hmerged
        obtain ⟨d, hd, hkey'⟩ := ih _ hc'
        exact ⟨d, hd, PartialEquivBEq.trans hkey' hkey⟩
      · rcases List.mem_cons.1 hc with rfl | hc'
        · exact ⟨c, List.mem_cons_self, BEq.rfl⟩
        · obtain ⟨d, hd, hkey⟩ := ih next hc'
          exact ⟨d, List.mem_cons_of_mem _ hd, hkey⟩

include hmerge in
/-- Every key that came in is left. -/
theorem exists_mem_mergeAdjacent {l : List α} {c : α} (hc : c ∈ l) :
    ∃ d ∈ mergeAdjacent key merge l, (key d == key c) = true := by
  cases l with
  | nil => exact absurd hc List.not_mem_nil
  | cons current rest => exact exists_mem_mergeFrom key hmerge current rest hc

/-! ## No key is left twice -/

omit [EquivBEq κ] in
theorem Grouped.tail {a : α} {l : List α} (h : Grouped key (a :: l)) : Grouped key l :=
  fun x z y hsub => h x z y (hsub.cons a)

theorem grouped_cons_cons_iff_of_same {a b m : α} {l : List α} (hab : (key b == key a) = true)
    (hm : key m = key a) : Grouped key (a :: b :: l) ↔ Grouped key (m :: l) := by
  constructor
  · intro h x z y hsub hxy
    cases hsub with
    | cons _ hsub => exact h x z y ((hsub.cons b).cons a) hxy
    | cons_cons _ hsub =>
        rw [hm] at hxy ⊢
        exact h a z y ((hsub.cons b).cons_cons a) hxy
  · intro h x z y hsub hxy
    cases hsub with
    | cons _ hsub =>
        cases hsub with
        | cons _ hsub => exact h x z y (hsub.cons m) hxy
        | cons_cons _ hsub =>
            have hmy : (key m == key y) = true := by
              rw [hm]
              exact PartialEquivBEq.trans (BEq.symm hab) hxy
            have hzm := h m z y (hsub.cons_cons m) hmy
            rw [hm] at hzm
            exact PartialEquivBEq.trans hzm (BEq.symm hab)
    | cons_cons _ hsub =>
        cases hsub with
        | cons _ hsub =>
            rw [← hm] at hxy ⊢
            exact h m z y (hsub.cons_cons m) hxy
        | cons_cons _ hsub => exact hab

omit [BEq κ] [EquivBEq κ] in
theorem three_sublist_cons_cons {a b c : α} {l : List α} (hc : c ∈ l) : [a, b, c] <+ a :: b :: l :=
  ((List.singleton_sublist.2 hc).cons_cons b).cons_cons a

theorem grouped_cons_cons_iff_of_ne {a b : α} {l : List α} (hab : ¬ (key b == key a) = true) :
    Grouped key (a :: b :: l) ↔ (∀ c ∈ b :: l, (key a == key c) = false) ∧ Grouped key (b :: l) := by
  constructor
  · intro h
    refine ⟨?_, h.tail⟩
    intro c hc
    rw [← Bool.not_eq_true]
    intro hac
    rcases List.mem_cons.1 hc with rfl | hc'
    · exact hab (BEq.symm hac)
    · exact hab (h a b c (three_sublist_cons_cons hc') hac)
  · rintro ⟨hne, htail⟩ x z y hsub hxy
    cases hsub with
    | cons _ hsub => exact htail x z y hsub hxy
    | cons_cons _ hsub =>
        have hy := hne y (hsub.subset (by simp))
        rw [hxy] at hy
        exact absurd hy (by decide)

include hmerge in
theorem pairwise_mergeFrom_iff (current : α) (rest : List α) :
    (mergeFrom key merge current rest).Pairwise (fun a b => (key a == key b) = false) ↔
      Grouped key (current :: rest) := by
  induction rest generalizing current with
  | nil =>
      refine iff_of_true (List.pairwise_singleton _ _) ?_
      intro x z y hsub
      exact absurd hsub.length_le (by simp)
  | cons next rest ih =>
      rw [mergeFrom]
      split
      · rename_i hsame
        rw [ih, grouped_cons_cons_iff_of_same key hsame (hmerge current next)]
      · rename_i hne
        rw [List.pairwise_cons, ih, grouped_cons_cons_iff_of_ne key hne]
        refine and_congr_left fun _ => ?_
        constructor
        · intro h c hc
          obtain ⟨d, hd, hkey⟩ := exists_mem_mergeFrom key hmerge next rest hc
          have hd' := h d hd
          rw [BEq.congr_right hkey] at hd'
          exact hd'
        · intro h d hd
          obtain ⟨c, hc, hkey⟩ := mem_map_key_mergeFrom key hmerge next rest hd
          rw [← hkey]
          exact h c hc

include hmerge in
/-- No key is left twice exactly when the list is grouped. -/
theorem pairwise_mergeAdjacent_iff (l : List α) :
    (mergeAdjacent key merge l).Pairwise (fun a b => (key a == key b) = false) ↔ Grouped key l := by
  cases l with
  | nil =>
      refine iff_of_true List.Pairwise.nil ?_
      intro x z y hsub
      exact absurd hsub.length_le (by simp)
  | cons current rest => exact pairwise_mergeFrom_iff key hmerge current rest

/-! ## One key is not left twice -/

/-- Between two elements of a given key there is none of another key. -/
def GroupedAt (k : κ) (l : List α) : Prop :=
  ∀ a c b, [a, c, b] <+ l → (key a == k) = true → (key b == k) = true → (key c == k) = true

include hmerge in
theorem pairwise_mergeFrom_of_groupedAt {k : κ} (current : α) (rest : List α)
    (hgrouped : GroupedAt key k (current :: rest)) :
    (mergeFrom key merge current rest).Pairwise
      fun a b => (key a == k) = true → (key b == k) = false := by
  induction rest generalizing current with
  | nil => exact List.pairwise_singleton _ _
  | cons next rest ih =>
      rw [mergeFrom]
      split
      · apply ih
        intro a c b hsub
        cases hsub with
        | cons _ hsub => exact hgrouped a c b ((hsub.cons next).cons current)
        | cons_cons _ hsub =>
            rw [hmerge]
            exact hgrouped current c b ((hsub.cons next).cons_cons current)
      · rename_i hne
        rw [List.pairwise_cons]
        refine ⟨?_, ih next fun a c b hsub => hgrouped a c b (hsub.cons current)⟩
        intro d hd hcurrent
        obtain ⟨c, hc, hkey⟩ := mem_map_key_mergeFrom key hmerge next rest hd
        rw [← hkey, ← Bool.not_eq_true]
        intro hck
        -- the next element has the key as well, so it would have been merged
        have hnext : (key next == k) = true := by
          rcases List.mem_cons.1 hc with rfl | hc'
          · exact hck
          · exact hgrouped current next c (three_sublist_cons_cons hc') hcurrent hck
        exact hne (PartialEquivBEq.trans hnext (BEq.symm hcurrent))

include hmerge in
/-- A key is not left twice when its elements stand together. -/
theorem pairwise_mergeAdjacent_of_groupedAt {k : κ} {l : List α} (hgrouped : GroupedAt key k l) :
    (mergeAdjacent key merge l).Pairwise
      fun a b => (key a == k) = true → (key b == k) = false := by
  cases l with
  | nil => exact List.Pairwise.nil
  | cons current rest => exact pairwise_mergeFrom_of_groupedAt key hmerge current rest hgrouped

end Ferron.Lib.AdjacentMerge
