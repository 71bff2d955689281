import Ferron.Common.Conditions
import Ferron.Common.IpListMembership

/-!
# The order of conditions and their equality

Configurations are sorted by their conditions, and neighbours that are equal are merged. For this the order
should be total and transitive, which it is, and give `Equal` for the conditions that are `==` and for no
others.

It gives `Equal` for any two languages, as they come to the arm that compares the variants, and it compares
address lists in the iteration orders of their tables, which `==` does not look at. These are the only
differences (`compare_conditionalData_eq_iff`), and `lawsHold_iff` says what follows for each of the types.
-/

set_option autoImplicit false

namespace Ferron.Common.ConditionOrder

open Std

/-- The laws of an order that goes with an equality, for three values. -/
structure LawsHold {α : Type} [BEq α] [Ord α] (a b c : α) : Prop where
  equal : compare a b = .eq ↔ (a == b) = true
  reversed : compare a b = (compare b a).swap
  transitive : (compare a b).isLE = true → (compare b c).isLE = true → (compare a c).isLE = true

/-- An order that is total and transitive only has to give `Equal` where it should. -/
theorem lawsHold_iff_equal {α : Type} [BEq α] [Ord α] [TransOrd α] (a b c : α) :
    LawsHold a b c ↔ (compare a b = .eq ↔ (a == b) = true) :=
  ⟨LawsHold.equal, fun h => ⟨h, OrientedOrd.eq_swap, TransOrd.isLE_trans⟩⟩

/-! ## Lists of conditions -/

section Lists

variable {α : Type}

theorem compare_list_eq_iff [Ord α] {as bs : List α} :
    compare as bs = .eq ↔ List.Forall₂ (fun a b => compare a b = .eq) as bs := by
  induction as generalizing bs with
  | nil =>
      rw [List.compare_nil_left_eq_eq, List.forall₂_nil_left_iff]
  | cons a as ih =>
      cases bs with
      | nil =>
          rw [List.compare_nil_right_eq_eq]
          exact iff_of_false (List.cons_ne_nil a as) fun h => nomatch h
      | cons b bs =>
          rw [List.compare_cons_cons, Ordering.then_eq_eq, ih, List.forall₂_cons]

theorem beq_list_iff [BEq α] {as bs : List α} :
    (as == bs) = true ↔ List.Forall₂ (fun a b => (a == b) = true) as bs := by
  induction as generalizing bs with
  | nil =>
      cases bs with
      | nil => exact iff_of_true rfl .nil
      | cons b bs => exact iff_of_false Bool.false_ne_true fun h => nomatch h
  | cons a as ih =>
      cases bs with
      | nil => exact iff_of_false Bool.false_ne_true fun h => nomatch h
      | cons b bs => rw [list_cons_beq_cons, Bool.and_eq_true, ih, List.forall₂_cons]

theorem forall₂_congr_zip {R S : α → α → Prop} {as bs : List α} (h : List.Forall₂ R as bs)
    (himp : ∀ pair ∈ as.zip bs, R pair.1 pair.2 → S pair.1 pair.2) : List.Forall₂ S as bs := by
  refine List.forall₂_iff_zip.2 ⟨h.length_eq, fun {a b} hpair => ?_⟩
  exact himp (a, b) hpair (List.forall₂_zip h hpair)

end Lists

/-! ## The three types -/

/-- The tables of two address lists are iterated in the same order. -/
def SameOrder (a b : IpBlockList) : Prop :=
  a.blockedIps.iter = b.blockedIps.iter ∧ a.blockedCidrs.iter = b.blockedCidrs.iter

theorem compare_ipBlockList_eq_iff {a b : IpBlockList} : compare a b = .eq ↔ SameOrder a b := by
  rw [IpBlockList.compare_eq, compareLex_eq_eq]
  exact and_congr LawfulEqOrd.compare_eq_iff_eq LawfulEqOrd.compare_eq_iff_eq

theorem SameOrder.beq {a b : IpBlockList} (h : SameOrder a b) : (a == b) = true := by
  rw [IpBlockList.beq_eq, Bool.and_eq_true, HashSet.beq_iff_perm, HashSet.beq_iff_perm]
  exact ⟨h.1 ▸ List.Perm.refl _, h.2 ▸ List.Perm.refl _⟩

/-- Two languages that are not the same. -/
def DifferentLanguages (a b : ConditionalData) : Prop :=
  ∃ first second, a = .isLanguage first ∧ b = .isLanguage second ∧ first ≠ second

/-- The data are equal, and their address lists are iterated in the same order, or they are two different
languages. -/
def EqualButForLanguage (a b : ConditionalData) : Prop :=
  (a == b) = true ∧ SameOrder a.listKey b.listKey ∨ DifferentLanguages a b

section Data

variable {a b : ConditionalData}

theorem discriminant_eq_of_beq (h : (a == b) = true) : a.discriminant = b.discriminant := by
  cases a <;> cases b <;> first
    | rfl
    | exact absurd h Bool.false_ne_true

theorem equalButForLanguage_of_list (ha : ∀ language, a ≠ .isLanguage language)
    (hbeq : (a == b) = (a.listKey == b.listKey)) :
    SameOrder a.listKey b.listKey ↔ EqualButForLanguage a b := by
  constructor
  · intro horder
    exact .inl ⟨by rw [hbeq, horder.beq], horder⟩
  · rintro (⟨-, horder⟩ | ⟨first, -, hlanguage, -⟩)
    · exact horder
    · exact absurd hlanguage (ha first)

theorem equalButForLanguage_of_other (ha : ∀ language, a ≠ .isLanguage language)
    (horder : SameOrder a.listKey b.listKey) : (a == b) = true ↔ EqualButForLanguage a b := by
  constructor
  · exact fun hbeq => .inl ⟨hbeq, horder⟩
  · rintro (⟨hbeq, -⟩ | ⟨first, -, hlanguage, -⟩)
    · exact hbeq
    · exact absurd hlanguage (ha first)

/-- The comparison of two texts, and then of two others. -/
theorem compare_texts_eq_iff {v1 v2 v3 v4 : Str} :
    (compare v1 v3).then (compare v2 v4) = .eq ↔ (v1 == v3 && v2 == v4) = true := by
  rw [Ordering.then_eq_eq, LawfulEqOrd.compare_eq_iff_eq, LawfulEqOrd.compare_eq_iff_eq,
    Bool.and_eq_true, beq_iff_eq, beq_iff_eq]

/-- The order gives `Equal` for equal data with address lists in the same order, and for any two languages. -/
theorem compare_conditionalData_eq_iff : compare a b = .eq ↔ EqualButForLanguage a b := by
  by_cases hvariant : a.discriminant = b.discriminant
  · cases a <;> cases b <;>
      simp only [ConditionalData.discriminant, reduceCtorEq, Nat.reduceEqDiff] at hvariant
    case isRemoteIp.isRemoteIp v1 v2 | isForwardedFor.isForwardedFor v1 v2 |
        isNotRemoteIp.isNotRemoteIp v1 v2 | isNotForwardedFor.isNotForwardedFor v1 v2 =>
      refine Iff.trans ?_ (equalButForLanguage_of_list (fun _ h => ?_) rfl)
      · exact compare_ipBlockList_eq_iff
      · cases h
    case isEqual.isEqual v1 v2 v3 v4 | isNotEqual.isNotEqual v1 v2 v3 v4 |
        isRegex.isRegex v1 v2 v3 v4 | isNotRegex.isNotRegex v1 v2 v3 v4 |
        setConstant.setConstant v1 v2 v3 v4 =>
      refine Iff.trans ?_ (equalButForLanguage_of_other (fun _ h => ?_) ⟨rfl, rfl⟩)
      · exact compare_texts_eq_iff
      · cases h
    case isRego.isRego v1 v2 =>
      refine Iff.trans ?_ (equalButForLanguage_of_other (fun _ h => ?_) ⟨rfl, rfl⟩)
      · change compare v1.getPolicies v2.getPolicies = .eq ↔ (v1.getPolicies == v2.getPolicies) = true
        rw [LawfulEqOrd.compare_eq_iff_eq, beq_iff_eq]
      · cases h
    case isLanguage.isLanguage v1 v2 =>
      refine iff_of_true rfl ?_
      by_cases hsame : v1 = v2
      · subst hsame
        exact .inl ⟨ReflBEq.rfl, rfl, rfl⟩
      · exact .inr ⟨v1, v2, rfl, rfl, hsame⟩
  · refine iff_of_false (fun hequal => ?_) fun heither => ?_
    · rw [ConditionalData.compare_eq, ConditionalData.cmpKeys, compareLex_eq_eq] at hequal
      exact hvariant (LawfulEqOrd.compare_eq_iff_eq.1 hequal.1)
    · rcases heither with ⟨hbeq, -⟩ | ⟨first, second, rfl, rfl, -⟩
      · exact hvariant (discriminant_eq_of_beq hbeq)
      · exact hvariant rfl

end Data

theorem DifferentLanguages.not_beq {a b : ConditionalData} (h : DifferentLanguages a b) :
    ¬(a == b) = true := by
  obtain ⟨first, second, rfl, rfl, hne⟩ := h
  exact fun heq => hne (beq_iff_eq.1 heq)

/-- Two lists of data for which the order does as it should: they do not differ in languages only, and if
they are equal, their address lists are iterated in the same order. -/
def Comparable (as bs : List ConditionalData) : Prop :=
  ¬(List.Forall₂ EqualButForLanguage as bs ∧ ∃ pair ∈ as.zip bs, DifferentLanguages pair.1 pair.2) ∧
    ((as == bs) = true → ∀ pair ∈ as.zip bs, SameOrder pair.1.listKey pair.2.listKey)

theorem compare_list_iff_beq_iff {as bs : List ConditionalData} :
    (compare as bs = .eq ↔ (as == bs) = true) ↔ Comparable as bs := by
  have hcompare : compare as bs = .eq ↔ List.Forall₂ EqualButForLanguage as bs := by
    simp only [compare_list_eq_iff, compare_conditionalData_eq_iff]
  rw [hcompare, beq_list_iff, Comparable, beq_list_iff]
  constructor
  · intro hsame
    refine ⟨?_, fun hequal pair hpair => ?_⟩
    · rintro ⟨hall, pair, hpair, hlanguages⟩
      exact hlanguages.not_beq (List.forall₂_zip (hsame.1 hall) hpair)
    · rcases List.forall₂_zip (hsame.2 hequal) hpair with ⟨-, horder⟩ | hlanguages
      · exact horder
      · exact absurd (List.forall₂_zip hequal hpair) hlanguages.not_beq
  · rintro ⟨hlanguages, horders⟩
    constructor
    · intro hall
      refine forall₂_congr_zip hall fun pair hpair heither => ?_
      exact heither.elim And.left fun hdifferent => absurd ⟨hall, pair, hpair, hdifferent⟩ hlanguages
    · intro hequal
      exact forall₂_congr_zip hequal fun pair hpair hbeq => .inl ⟨hbeq, horders hequal pair hpair⟩

/-- The data of two conditionals of one kind. -/
def ConditionalsComparable : Conditional → Conditional → Prop
  | .ifBlock as, .ifBlock bs => Comparable as bs
  | .ifNot as, .ifNot bs => Comparable as bs
  | _, _ => True

/-! ## Built lists -/

section Loaded

variable {reading : IpBlockList.Reading} {table : Nat} {list : IpBlockList}

/-- A text adds what it stands for, an address in its canonical form. -/
theorem mem_loadOne (text : Str) (ip : IpAddr) (cidr : IpCidr) :
    (ip ∈ (IpBlockList.loadOne reading table list text).blockedIps.iter ↔
      ip ∈ list.blockedIps.iter ∨
        ∃ address, reading.listing text = some (.address address) ∧ ip = address.toCanonical) ∧
    (cidr ∈ (IpBlockList.loadOne reading table list text).blockedCidrs.iter ↔
      cidr ∈ list.blockedCidrs.iter ∨ reading.listing text = some (.network cidr)) := by
  rw [IpBlockList.loadOne, IpBlockList.Reading.listing]
  by_cases hlocalhost : text = "localhost".toList
  · rw [if_pos hlocalhost, if_pos hlocalhost]
    have hcanonical : (IpAddr.v6 1).toCanonical = .v6 1 := by decide
    simp only [HashSet.mem_insert, Option.some.injEq, IpBlockList.Listing.address.injEq, exists_eq_left',
      hcanonical, reduceCtorEq, or_false, and_self]
  · rw [if_neg hlocalhost, if_neg hlocalhost]
    cases hparsed : reading.parseIpAddr text with
    | some address => simp [HashSet.mem_insert]
    | none =>
        cases hcidr : reading.parseIpCidr text with
        | none => simp
        | some found => simp [HashSet.mem_insert, eq_comm]

theorem mem_loadFromVec (ips : List Str) (ip : IpAddr) (cidr : IpCidr) :
    (ip ∈ (list.loadFromVec reading table ips).blockedIps.iter ↔
      ip ∈ list.blockedIps.iter ∨ ∃ text ∈ ips, ∃ address,
        reading.listing text = some (.address address) ∧ ip = address.toCanonical) ∧
    (cidr ∈ (list.loadFromVec reading table ips).blockedCidrs.iter ↔
      cidr ∈ list.blockedCidrs.iter ∨ ∃ text ∈ ips, reading.listing text = some (.network cidr)) := by
  induction ips generalizing list with
  | nil => simp [IpBlockList.loadFromVec]
  | cons text ips ih =>
      rw [IpBlockList.loadFromVec, List.foldl_cons, ← IpBlockList.loadFromVec, ih.1, ih.2,
        (mem_loadOne text ip cidr).1, (mem_loadOne text ip cidr).2, or_assoc, or_assoc]
      simp

/-- Texts that are loaded in another order make an equal list, whatever the tables do. -/
theorem loadFromVec_beq (table table' : Nat) {ips ips' : List Str} (h : ips.Perm ips') :
    (IpBlockList.new.loadFromVec reading table ips == IpBlockList.new.loadFromVec reading table' ips') =
      true := by
  rw [IpBlockList.beq_eq, Bool.and_eq_true, HashSet.beq_iff_perm, HashSet.beq_iff_perm]
  refine ⟨(List.perm_ext_iff_of_nodup (HashSet.nodup _) (HashSet.nodup _)).2 fun ip => ?_,
    (List.perm_ext_iff_of_nodup (HashSet.nodup _) (HashSet.nodup _)).2 fun cidr => ?_⟩
  · rw [(mem_loadFromVec ips ip ⟨ip, 0⟩).1, (mem_loadFromVec ips' ip ⟨ip, 0⟩).1]
    simp only [h.mem_iff]
  · rw [(mem_loadFromVec ips cidr.address cidr).2, (mem_loadFromVec ips' cidr.address cidr).2]
    simp only [h.mem_iff]

end Loaded

theorem lawsHold_ipBlockList_iff (x y z : IpBlockList) :
    LawsHold x y z ↔ ((x == y) = true → SameOrder x y) := by
  rw [lawsHold_iff_equal, compare_ipBlockList_eq_iff]
  exact ⟨Iff.mpr, fun h => ⟨SameOrder.beq, h⟩⟩

/-- **The laws hold** for address lists, for lists that are loaded from the same texts, for data and for
conditionals exactly where no languages differ and the tables of equal lists are iterated in the same
order. -/
theorem lawsHold_iff (x y z : IpBlockList) (reading : IpBlockList.Reading) (table table' : Nat)
    (ips ips' : List Str) (h : ips.Perm ips') (a b c : ConditionalData) (p q r : Conditional) :
    (LawsHold x y z ↔ ((x == y) = true → SameOrder x y)) ∧
      (LawsHold (IpBlockList.new.loadFromVec reading table ips)
          (IpBlockList.new.loadFromVec reading table' ips') z ↔
        SameOrder (IpBlockList.new.loadFromVec reading table ips)
          (IpBlockList.new.loadFromVec reading table' ips')) ∧
      (LawsHold a b c ↔
        ¬DifferentLanguages a b ∧ ((a == b) = true → SameOrder a.listKey b.listKey)) ∧
      (LawsHold p q r ↔ ConditionalsComparable p q) := by
  refine ⟨lawsHold_ipBlockList_iff x y z, ?_, ?_, ?_⟩
  · rw [lawsHold_ipBlockList_iff]
    exact ⟨fun hsame => hsame (loadFromVec_beq table table' h), fun hsame _ => hsame⟩
  · rw [lawsHold_iff_equal, compare_conditionalData_eq_iff]
    constructor
    · intro hsame
      refine ⟨fun hlanguages => hlanguages.not_beq (hsame.1 (.inr hlanguages)), fun hequal => ?_⟩
      rcases hsame.2 hequal with ⟨-, horder⟩ | hlanguages
      · exact horder
      · exact absurd hequal hlanguages.not_beq
    · rintro ⟨hlanguages, horder⟩
      exact ⟨fun h => h.elim And.left fun hdifferent => absurd hdifferent hlanguages,
        fun hequal => .inl ⟨hequal, horder hequal⟩⟩
  · rw [lawsHold_iff_equal, Conditional.beq_eq, Conditional.compare_eq]
    cases p with
    | ifBlock as =>
        cases q with
        | ifBlock bs => exact compare_list_iff_beq_iff
        | ifNot bs => exact iff_of_true (iff_of_false (fun h => nomatch h) Bool.false_ne_true) trivial
    | ifNot as =>
        cases q with
        | ifBlock bs => exact iff_of_true (iff_of_false (fun h => nomatch h) Bool.false_ne_true) trivial
        | ifNot bs => exact compare_list_iff_beq_iff

/-- Two texts that are loaded in either order, to tables that are iterated in the same order. -/
theorem lawsHold_localhost :
    LawsHold (IpBlockList.new.loadFromVec IpBlockList.mappedReading 0 ["localhost".toList, "?".toList])
      (IpBlockList.new.loadFromVec IpBlockList.mappedReading 1 ["?".toList, "localhost".toList])
      IpBlockList.new :=
  (lawsHold_iff IpBlockList.new IpBlockList.new IpBlockList.new IpBlockList.mappedReading 0 1
    ["localhost".toList, "?".toList] ["?".toList, "localhost".toList] (List.Perm.swap _ _ _)
    (.isLanguage "en".toList) (.isLanguage "en".toList) (.isLanguage "en".toList)
    (.ifBlock []) (.ifBlock []) (.ifBlock [])).2.1.2 ⟨rfl, rfl⟩

theorem nodup_ascending : [IpAddr.v4 1, .v4 2].Nodup := by decide

theorem nodup_descending : [IpAddr.v4 2, .v4 1].Nodup := by decide

/-- Two addresses in a table that is iterated from the lower one. -/
def ascending : IpBlockList := ⟨⟨[.v4 1, .v4 2], nodup_ascending⟩, HashSet.new⟩

/-- The same addresses in a table that is iterated from the higher one. -/
def descending : IpBlockList := ⟨⟨[.v4 2, .v4 1], nodup_descending⟩, HashSet.new⟩

/-- English and German compare as equal, and two orders of the same addresses do not. -/
theorem languages_compare_equal :
    compare (ConditionalData.isLanguage "en".toList) (.isLanguage "de".toList) = .eq ∧
      (ConditionalData.isLanguage "en".toList == .isLanguage "de".toList) = false ∧
      compare ascending descending = .lt ∧ (ascending == descending) = true :=
  ⟨rfl, by decide, by decide, by decide⟩

end Ferron.Common.ConditionOrder
