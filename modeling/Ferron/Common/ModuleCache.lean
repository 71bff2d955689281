import Ferron.Common.Config
import Ferron.Lib.HashedCache
import Ferron.Lib.StableSort
import Mathlib.Data.List.Forall2

/-!
# The module cache

Modules are cached by the directives that they read. The keys of the cache are configuration entries, and
they are hashed and compared by hand-written functions. The comparison takes an infinity for the greatest
number and no number for zero, and it does not tell the two zeros apart; the hash tells all of them apart.

`sharesInstances_iff` says that configurations with the same directives share a module, whatever the hash
table does, if and only if the floats in which they are the same are hashed alike.
-/

set_option autoImplicit false

namespace Ferron.Common.ModuleCache

open Ferron.Lib.HashedCache Ferron.Lib.Run Ferron.Lib.StableSort

/-! ## Floats -/

/-- The bits of a float without the sign. -/
def magnitude (bits : UInt64) : UInt64 := bits &&& 0x7fffffffffffffff

/-- `is_nan`: all bits of the exponent are set, and some of the fraction. -/
def isNan (bits : UInt64) : Bool := 0x7ff0000000000000 < magnitude bits

/-- What `eq` compares: the greatest numbers for the infinities, and zero for what is no number. -/
def clampFloat (bits : UInt64) : UInt64 :=
  if bits = 0xfff0000000000000 then 0xffefffffffffffff
  else if bits = 0x7ff0000000000000 then 0x7fefffffffffffff
  else if isNan bits then 0
  else bits

/-- `==` of floats that are numbers: the two zeros are equal. -/
def floatEq (left right : UInt64) : Bool :=
  left == right || (magnitude left == 0 && magnitude right == 0)

/-- The bits that are hashed: one pattern for everything that is no number. -/
def hashBits (bits : UInt64) : UInt64 := if isNan bits then 0x7ff8000000000000 else bits

/-! ## Equality -/

/-- `ServerConfigurationValue::eq`. -/
def valueEq : ServerConfigurationValue → ServerConfigurationValue → Bool
  | .bool left, .bool right => left == right
  | .integer left, .integer right => left == right
  | .float left, .float right => floatEq (clampFloat left) (clampFloat right)
  | .string left, .string right => left == right
  | .null, .null => true
  | _, _ => false

/-- `==` of vectors. -/
def listEq {α : Type} (eq : α → α → Bool) : List α → List α → Bool
  | [], [] => true
  | a :: as, b :: bs => eq a b && listEq eq as bs
  | _, _ => false

/-- `==` of options. -/
def optionEq {α : Type} (eq : α → α → Bool) : Option α → Option α → Bool
  | none, none => true
  | some a, some b => eq a b
  | _, _ => false

/-- `==` of hash maps: equal sizes, and each value of the first equals the one in the second. -/
def propsEq (a b : HashMap Str ServerConfigurationValue) : Bool :=
  a.entries.length == b.entries.length &&
    a.entries.all fun prop => (b.lookup prop.1).any (valueEq prop.2)

/-- The derived `==` of entries. -/
def entryEq (a b : ServerConfigurationEntry) : Bool :=
  listEq valueEq a.values b.values && propsEq a.props b.props

/-- The derived `==` of lists of entries. -/
def entriesEq (a b : ServerConfigurationEntries) : Bool := listEq entryEq a.inner b.inner

/-! ## Hashes -/

/-- What is written to a hasher. -/
inductive HashWrite where
  | u8 (n : UInt8)
  | u64 (n : UInt64)
  | i128 (n : Int)
  | usize (n : Nat)
  | isize (n : Int)
  | str (s : Str)
  deriving DecidableEq

/-- `ServerConfigurationValue::hash`. -/
def hashValue : ServerConfigurationValue → List HashWrite
  | .string s => [.u8 0, .str s]
  | .integer i => [.u8 1, .i128 i]
  | .float f => [.u8 2, .u64 (hashBits f)]
  | .bool b => [.u8 3, .u8 (if b then 1 else 0)]
  | .null => [.u8 4]

/-- The properties of an entry, sorted by their names. -/
def sortedProps (props : HashMap Str ServerConfigurationValue) :
    List (Sigma fun _ : Str => ServerConfigurationValue) :=
  sortBy compare Sigma.fst props.entries

/-- `ServerConfigurationEntry::hash`. -/
def hashEntry (entry : ServerConfigurationEntry) : List HashWrite :=
  .usize entry.values.length :: entry.values.flatMap hashValue ++
    .usize (sortedProps entry.props).length ::
      (sortedProps entry.props).flatMap fun prop => .str prop.1 :: hashValue prop.2

/-- The derived hash of lists of entries. -/
def hashEntries (entries : ServerConfigurationEntries) : List HashWrite :=
  .usize entries.inner.length :: entries.inner.flatMap hashEntry

/-- The derived hash of a directive that may be missing. -/
def hashDirective : Option ServerConfigurationEntries → List HashWrite
  | none => [.isize 0]
  | some entries => .isize 1 :: hashEntries entries

/-! ## Keys -/

/-- `CacheKey`. -/
structure CacheKey where
  entries : List (Str × Option ServerConfigurationEntries)

namespace CacheKey

/-- `CacheKey::new`: the directives of the cache, sorted by their names. -/
def new (config : ServerConfiguration) (properties : List Str) : CacheKey :=
  ⟨sortBy compare Prod.fst (properties.map fun prop => (prop, config.entries.lookup prop))⟩

/-- The derived `==`. -/
protected def eq (a b : CacheKey) : Bool :=
  listEq (fun x y => x.1 == y.1 && optionEq entriesEq x.2 y.2) a.entries b.entries

instance : BEq CacheKey := ⟨CacheKey.eq⟩

/-- `hash`. -/
def hash (key : CacheKey) : List HashWrite :=
  .usize key.entries.length :: key.entries.flatMap fun entry => .str entry.1 :: hashDirective entry.2

end CacheKey

/-- Configurations are equal on the directives of a cache. -/
def EqualOn (properties : List Str) (c c' : ServerConfiguration) : Prop :=
  ∀ prop ∈ properties, optionEq entriesEq (c.entries.lookup prop) (c'.entries.lookup prop) = true

/-! ## Equality is an equivalence -/

/-- One float of those that `eq` does not tell apart. -/
def canonFloat (bits : UInt64) : UInt64 :=
  if magnitude (clampFloat bits) = 0 then 0 else clampFloat bits

theorem floatEq_clampFloat_iff (left right : UInt64) :
    floatEq (clampFloat left) (clampFloat right) = true ↔ canonFloat left = canonFloat right := by
  have hzero : magnitude 0 = 0 := rfl
  rw [floatEq, canonFloat, canonFloat, Bool.or_eq_true, Bool.and_eq_true, beq_iff_eq, beq_iff_eq,
    beq_iff_eq]
  by_cases hleft : magnitude (clampFloat left) = 0
  · by_cases hright : magnitude (clampFloat right) = 0
    · simp [hleft, hright]
    · rw [if_pos hleft, if_neg hright]
      refine iff_of_false ?_ ?_
      · rintro (hsame | ⟨-, hnone⟩)
        · exact hright (hsame ▸ hleft)
        · exact hright hnone
      · intro hsame
        exact hright (hsame ▸ hzero)
  · rw [if_neg hleft]
    by_cases hright : magnitude (clampFloat right) = 0
    · rw [if_pos hright]
      refine iff_of_false ?_ ?_
      · rintro (hsame | ⟨hnone, -⟩)
        · exact hleft (hsame ▸ hright)
        · exact hleft hnone
      · intro hsame
        exact hleft (hsame ▸ hzero)
    · rw [if_neg hright]
      simp [hleft]

/-- One value of those that `eq` does not tell apart. -/
def canonValue : ServerConfigurationValue → ServerConfigurationValue
  | .float bits => .float (canonFloat bits)
  | value => value

theorem valueEq_iff (a b : ServerConfigurationValue) :
    valueEq a b = true ↔ canonValue a = canonValue b := by
  cases a with
  | float left =>
      cases b with
      | float right =>
          exact (floatEq_clampFloat_iff left right).trans
            ⟨congrArg ServerConfigurationValue.float, ServerConfigurationValue.float.inj⟩
      | _ => exact iff_of_false Bool.false_ne_true ServerConfigurationValue.noConfusion
  | string left =>
      cases b with
      | string right =>
          exact beq_iff_eq.trans
            ⟨congrArg ServerConfigurationValue.string, ServerConfigurationValue.string.inj⟩
      | _ => exact iff_of_false Bool.false_ne_true ServerConfigurationValue.noConfusion
  | integer left =>
      cases b with
      | integer right =>
          exact beq_iff_eq.trans
            ⟨congrArg ServerConfigurationValue.integer, ServerConfigurationValue.integer.inj⟩
      | _ => exact iff_of_false Bool.false_ne_true ServerConfigurationValue.noConfusion
  | bool left =>
      cases b with
      | bool right =>
          exact beq_iff_eq.trans
            ⟨congrArg ServerConfigurationValue.bool, ServerConfigurationValue.bool.inj⟩
      | _ => exact iff_of_false Bool.false_ne_true ServerConfigurationValue.noConfusion
  | null =>
      cases b with
      | null => exact iff_of_true rfl rfl
      | _ => exact iff_of_false Bool.false_ne_true ServerConfigurationValue.noConfusion

theorem listEq_iff {α β : Type} {eq : α → α → Bool} {f : α → β}
    (hf : ∀ a b, eq a b = true ↔ f a = f b) (as bs : List α) :
    listEq eq as bs = true ↔ as.map f = bs.map f := by
  induction as generalizing bs with
  | nil => cases bs <;> simp [listEq]
  | cons a as ih =>
      cases bs with
      | nil => simp [listEq]
      | cons b bs => rw [listEq, Bool.and_eq_true, hf, ih, List.map_cons, List.map_cons, List.cons.injEq]

theorem optionEq_iff {α β : Type} {eq : α → α → Bool} {f : α → β}
    (hf : ∀ a b, eq a b = true ↔ f a = f b) (a b : Option α) :
    optionEq eq a b = true ↔ a.map f = b.map f := by
  cases a <;> cases b <;> simp [optionEq, hf]

/-- What a name stands for, up to `eq`. -/
def canonProps (props : HashMap Str ServerConfigurationValue) (name : Str) :
    Option ServerConfigurationValue := (props.lookup name).map canonValue

theorem isSome_canonProps_iff (props : HashMap Str ServerConfigurationValue) (name : Str) :
    (canonProps props name).isSome = true ↔ name ∈ props.keys := by
  rw [canonProps, Option.isSome_map, AList.lookup_isSome, AList.mem_keys]

theorem propsEq_iff (a b : HashMap Str ServerConfigurationValue) :
    propsEq a b = true ↔ canonProps a = canonProps b := by
  have hlength : ∀ props : HashMap Str ServerConfigurationValue,
      props.keys.length = props.entries.length := fun props => List.length_map _
  rw [propsEq, Bool.and_eq_true, beq_iff_eq, List.all_eq_true]
  constructor
  · rintro ⟨hsize, hall⟩
    have hfound : ∀ name value, a.lookup name = some value →
        ∃ value', b.lookup name = some value' ∧ valueEq value value' = true := by
      intro name value hvalue
      have hany := hall ⟨name, value⟩ (List.of_mem_dlookup hvalue)
      dsimp only at hany
      cases hvalue' : b.lookup name with
      | none => exact absurd hany (by simp [hvalue'])
      | some value' =>
          rw [hvalue', Option.any_some] at hany
          exact ⟨value', rfl, hany⟩
    -- both have the same names, since none of the first is missing in the second
    have hsubset : a.keys ⊆ b.keys := by
      intro name hname
      rw [← isSome_canonProps_iff, canonProps, Option.isSome_map, Option.isSome_iff_exists] at hname
      obtain ⟨value, hvalue⟩ := hname
      obtain ⟨value', hvalue', -⟩ := hfound name value hvalue
      rw [← isSome_canonProps_iff, canonProps, hvalue']
      rfl
    have hperm : a.keys.Perm b.keys :=
      (List.subperm_of_subset a.keys_nodup hsubset).perm_of_length_le (by rw [hlength, hlength, hsize])
    funext name
    cases hvalue : a.lookup name with
    | some value =>
        obtain ⟨value', hvalue', heq⟩ := hfound name value hvalue
        rw [canonProps, canonProps, hvalue, hvalue', Option.map_some, Option.map_some,
          (valueEq_iff value value').1 heq]
    | none =>
        have hmissing : name ∉ b.keys := by
          rw [← hperm.mem_iff, ← isSome_canonProps_iff, canonProps, hvalue]
          simp
        rw [← isSome_canonProps_iff, Bool.not_eq_true, Option.isSome_eq_false_iff,
          Option.isNone_iff_eq_none] at hmissing
        rw [hmissing, canonProps, hvalue]
        rfl
  · intro hcanon
    constructor
    · have hperm : a.keys.Perm b.keys := by
        rw [List.perm_ext_iff_of_nodup a.keys_nodup b.keys_nodup]
        intro name
        rw [← isSome_canonProps_iff, ← isSome_canonProps_iff, hcanon]
      rw [← hlength, ← hlength, hperm.length_eq]
    · rintro ⟨name, value⟩ hprop
      have hvalue : a.lookup name = some value := (List.mem_dlookup_iff a.nodupKeys).2 hprop
      have hname := congrFun hcanon name
      rw [canonProps, canonProps, hvalue, Option.map_some] at hname
      obtain ⟨value', hvalue', heq⟩ := Option.map_eq_some_iff.1 hname.symm
      dsimp only
      rw [hvalue', Option.any_some]
      exact (valueEq_iff value value').2 heq.symm

/-- An entry up to `eq`. -/
def canonEntry (entry : ServerConfigurationEntry) :
    List ServerConfigurationValue × (Str → Option ServerConfigurationValue) :=
  (entry.values.map canonValue, canonProps entry.props)

theorem entryEq_iff (a b : ServerConfigurationEntry) :
    entryEq a b = true ↔ canonEntry a = canonEntry b := by
  rw [entryEq, Bool.and_eq_true, listEq_iff valueEq_iff, propsEq_iff, canonEntry, canonEntry,
    Prod.mk.injEq]

theorem entriesEq_iff (a b : ServerConfigurationEntries) :
    entriesEq a b = true ↔ a.inner.map canonEntry = b.inner.map canonEntry :=
  listEq_iff entryEq_iff a.inner b.inner

theorem CacheKey.beq_iff (a b : CacheKey) : (a == b) = true ↔
    (a.entries.map fun entry => (entry.1, entry.2.map fun entries => entries.inner.map canonEntry)) =
      b.entries.map fun entry => (entry.1, entry.2.map fun entries => entries.inner.map canonEntry) := by
  apply listEq_iff
  intro x y
  rw [Bool.and_eq_true, beq_iff_eq, optionEq_iff entriesEq_iff, Prod.mk.injEq]

instance : EquivBEq CacheKey where
  rfl := (CacheKey.beq_iff _ _).2 rfl
  symm h := (CacheKey.beq_iff _ _).2 ((CacheKey.beq_iff _ _).1 h).symm
  trans h₁ h₂ := (CacheKey.beq_iff _ _).2
    (((CacheKey.beq_iff _ _).1 h₁).trans ((CacheKey.beq_iff _ _).1 h₂))

/-- The keys of two configurations have the same directives in the same order. -/
theorem CacheKey.entries_new (config : ServerConfiguration) (properties : List Str) :
    (CacheKey.new config properties).entries =
      (sortBy compare id properties).map fun prop => (prop, config.entries.lookup prop) := by
  rw [CacheKey.new, sortBy, sortBy]
  exact (List.map_insertionSort (KeyLE compare id) (KeyLE compare Prod.fst) _ properties
    fun _ _ _ _ => Iff.rfl).symm

theorem CacheKey.mem_sorted_iff {properties : List Str} {prop : Str} :
    prop ∈ sortBy compare id properties ↔ prop ∈ properties :=
  List.mem_insertionSort (KeyLE compare id)

/-- Keys are equal when the configurations are equal on the directives. -/
theorem CacheKey.new_beq_iff (c c' : ServerConfiguration) (properties : List Str) :
    (CacheKey.new c properties == CacheKey.new c' properties) = true ↔ EqualOn properties c c' := by
  rw [CacheKey.beq_iff, CacheKey.entries_new, CacheKey.entries_new, List.map_map, List.map_map,
    List.map_inj_left, EqualOn]
  refine forall_congr' fun prop => imp_congr CacheKey.mem_sorted_iff ?_
  rw [optionEq_iff entriesEq_iff]
  simp

/-! ## Which equal keys are hashed alike -/

/-- Two values, which are equal, are hashed alike: they are no floats, or their floats are. -/
def ValuesAlike : ServerConfigurationValue → ServerConfigurationValue → Prop
  | .float x, .float y => hashBits x = hashBits y
  | _, _ => True

/-- Two entries have floats that are hashed alike. -/
structure EntriesAlike (a b : ServerConfigurationEntry) : Prop where
  values : List.Forall₂ ValuesAlike a.values b.values
  props : ∀ name value value', a.props.lookup name = some value → b.props.lookup name = some value' →
    ValuesAlike value value'

/-- Two configurations have floats that are hashed alike, as far as a cache looks at them. -/
def FloatsAlike (properties : List Str) (c c' : ServerConfiguration) : Prop :=
  ∀ prop ∈ properties, ∀ entries entries', c.entries.lookup prop = some entries →
    c'.entries.lookup prop = some entries' → List.Forall₂ EntriesAlike entries.inner entries'.inner

/-- Texts that are put together of pieces of the same lengths are equal when the pieces are. -/
theorem flatMap_eq_iff {α β γ : Type} {r q : α → β → Prop} {f : α → List γ} {g : β → List γ}
    (hlength : ∀ a b, r a b → (f a).length = (g b).length) (hpiece : ∀ a b, r a b → (f a = g b ↔ q a b))
    {as : List α} {bs : List β} (h : List.Forall₂ r as bs) :
    as.flatMap f = bs.flatMap g ↔ List.Forall₂ q as bs := by
  induction h with
  | nil => simp
  | cons hab _ ih =>
      rw [List.flatMap_cons, List.flatMap_cons, List.forall₂_cons, ← ih, ← hpiece _ _ hab]
      constructor
      · intro happend
        exact List.append_inj happend (hlength _ _ hab)
      · rintro ⟨hhead, htail⟩
        rw [hhead, htail]

/-- Such texts have the same length. -/
theorem length_flatMap_eq {α β γ : Type} {r : α → β → Prop} {f : α → List γ} {g : β → List γ}
    (hlength : ∀ a b, r a b → (f a).length = (g b).length) {as : List α} {bs : List β}
    (h : List.Forall₂ r as bs) : (as.flatMap f).length = (bs.flatMap g).length := by
  induction h with
  | nil => rfl
  | cons hab _ ih =>
      rw [List.flatMap_cons, List.flatMap_cons, List.length_append, List.length_append, ih,
        hlength _ _ hab]

theorem forall₂_of_map_eq {α β : Type} {f : α → β} {as bs : List α} (h : as.map f = bs.map f) :
    List.Forall₂ (fun a b => f a = f b) as bs := by
  rw [← List.forall₂_eq_eq_eq, List.forall₂_map_left_iff, List.forall₂_map_right_iff] at h
  exact h

theorem length_hashValue {a b : ServerConfigurationValue} (h : canonValue a = canonValue b) :
    (hashValue a).length = (hashValue b).length := by
  cases a <;> cases b <;> simp_all [canonValue, hashValue]

theorem hashValue_eq_iff {a b : ServerConfigurationValue} (h : canonValue a = canonValue b) :
    hashValue a = hashValue b ↔ ValuesAlike a b := by
  cases a <;> cases b <;> simp_all [canonValue, hashValue, ValuesAlike]

/-- The hash of a property that is looked up by its name. -/
def hashProp (props : HashMap Str ServerConfigurationValue) (name : Str) : List HashWrite :=
  .str name :: ((props.lookup name).map hashValue).getD []

/-- The properties are hashed in the order of their names. -/
theorem flatMap_sortedProps (props : HashMap Str ServerConfigurationValue) :
    (sortedProps props).flatMap (fun prop => .str prop.1 :: hashValue prop.2) =
      (sortBy compare id props.keys).flatMap (hashProp props) := by
  have hnames : (sortedProps props).map Sigma.fst = sortBy compare id props.keys := by
    rw [sortedProps, sortBy, sortBy]
    exact List.map_insertionSort _ _ _ _ fun _ _ _ _ => Iff.rfl
  rw [← hnames, List.flatMap_map]
  refine List.flatMap_congr fun prop hprop => ?_
  have hmem : prop ∈ props.entries := (List.mem_insertionSort (KeyLE compare Sigma.fst)).1 hprop
  have hvalue : props.lookup prop.1 = some prop.2 := (List.mem_dlookup_iff props.nodupKeys).2 hmem
  rw [hashProp, hvalue]
  rfl

/-- Maps that are equal list the same names in the same order. -/
theorem sorted_keys_eq {a b : HashMap Str ServerConfigurationValue} (h : canonProps a = canonProps b) :
    sortBy compare id a.keys = sortBy compare id b.keys := by
  have hperm : a.keys.Perm b.keys := by
    rw [List.perm_ext_iff_of_nodup a.keys_nodup b.keys_nodup]
    intro name
    rw [← isSome_canonProps_iff, ← isSome_canonProps_iff, h]
  have hsorted : (sortBy compare id a.keys).Perm (sortBy compare id b.keys) :=
    (List.perm_insertionSort _ _).trans (hperm.trans (List.perm_insertionSort _ _).symm)
  refine hsorted.eq_of_pairwise ?_ (List.pairwise_insertionSort (KeyLE compare id) _)
    (List.pairwise_insertionSort (KeyLE compare id) _)
  intro x y _ _ hxy hyx
  exact Std.LawfulEqCmp.eq_of_compare (Std.OrientedCmp.isLE_antisymm hxy hyx)

theorem length_hashProp {a b : HashMap Str ServerConfigurationValue} (h : canonProps a = canonProps b)
    (name : Str) : (hashProp a name).length = (hashProp b name).length := by
  have hcanon := congrFun h name
  rw [canonProps, canonProps] at hcanon
  rw [hashProp, hashProp, List.length_cons, List.length_cons]
  cases hvalue : a.lookup name with
  | none =>
      rw [hvalue, Option.map_none] at hcanon
      rw [Option.map_eq_none_iff.1 hcanon.symm]
  | some value =>
      rw [hvalue, Option.map_some] at hcanon
      obtain ⟨value', hvalue', hsame⟩ := Option.map_eq_some_iff.1 hcanon.symm
      rw [hvalue', Option.map_some, Option.map_some, Option.getD_some, Option.getD_some,
        length_hashValue hsame.symm]

/-- The properties of two entries, which are equal, are hashed alike when their floats are. -/
theorem hashProps_eq_iff {a b : HashMap Str ServerConfigurationValue} (h : canonProps a = canonProps b) :
    (sortBy compare id a.keys).flatMap (hashProp a) = (sortBy compare id b.keys).flatMap (hashProp b) ↔
      ∀ name value value', a.lookup name = some value → b.lookup name = some value' →
        ValuesAlike value value' := by
  rw [← sorted_keys_eq h, flatMap_eq_iff (r := fun x y => x = y) (q := fun x y => hashProp a x = hashProp b y)
    (by rintro name _ rfl; exact length_hashProp h name) (fun _ _ _ => Iff.rfl)
    (List.forall₂_same.2 fun _ _ => rfl), List.forall₂_same]
  constructor
  · intro hall name value value' hvalue hvalue'
    have hname : name ∈ a.keys := by
      rw [← isSome_canonProps_iff, canonProps, hvalue]
      rfl
    have hcanon := congrFun h name
    rw [canonProps, canonProps, hvalue, hvalue', Option.map_some, Option.map_some,
      Option.some.injEq] at hcanon
    have hhash := hall name (CacheKey.mem_sorted_iff.2 hname)
    rw [hashProp, hashProp, hvalue, hvalue'] at hhash
    exact (hashValue_eq_iff hcanon).1 (List.cons_eq_cons.1 hhash).2
  · intro halike name hname
    rw [CacheKey.mem_sorted_iff, ← isSome_canonProps_iff, canonProps, Option.isSome_map,
      Option.isSome_iff_exists] at hname
    obtain ⟨value, hvalue⟩ := hname
    have hcanon := congrFun h name
    rw [canonProps, canonProps, hvalue, Option.map_some] at hcanon
    obtain ⟨value', hvalue', hsame⟩ := Option.map_eq_some_iff.1 hcanon.symm
    have hhash := (hashValue_eq_iff hsame.symm).2 (halike name value value' hvalue hvalue')
    rw [hashProp, hashProp, hvalue, hvalue', Option.map_some, Option.map_some, hhash]

theorem length_hashProps {a b : HashMap Str ServerConfigurationValue} (h : canonProps a = canonProps b) :
    ((sortBy compare id a.keys).flatMap (hashProp a)).length =
      ((sortBy compare id b.keys).flatMap (hashProp b)).length := by
  rw [← sorted_keys_eq h]
  refine length_flatMap_eq (r := fun x y => x = y) ?_ (List.forall₂_same.2 fun _ _ => rfl)
  rintro name _ rfl
  exact length_hashProp h name

theorem length_sortedProps {a b : HashMap Str ServerConfigurationValue} (h : canonProps a = canonProps b) :
    (sortedProps a).length = (sortedProps b).length := by
  have hkeys : ∀ props : HashMap Str ServerConfigurationValue,
      (sortedProps props).length = (sortBy compare id props.keys).length := by
    intro props
    rw [sortedProps, sortBy, sortBy, List.length_insertionSort, List.length_insertionSort]
    exact (List.length_map _).symm
  rw [hkeys, hkeys, sorted_keys_eq h]

/-- The values of two entries, which are equal, in pairs. -/
theorem values_of_canonEntry {a b : ServerConfigurationEntry} (h : canonEntry a = canonEntry b) :
    List.Forall₂ (fun x y => canonValue x = canonValue y) a.values b.values :=
  forall₂_of_map_eq (Prod.mk.inj h).1

theorem length_hashEntry {a b : ServerConfigurationEntry} (h : canonEntry a = canonEntry b) :
    (hashEntry a).length = (hashEntry b).length := by
  have hvalues := length_flatMap_eq (fun _ _ hsame => length_hashValue hsame) (values_of_canonEntry h)
  rw [hashEntry, hashEntry, flatMap_sortedProps, flatMap_sortedProps, List.length_append,
    List.length_append, List.length_cons, List.length_cons, List.length_cons, List.length_cons, hvalues,
    length_hashProps (Prod.mk.inj h).2]

/-- Entries that are equal are hashed alike when their floats are. -/
theorem hashEntry_eq_iff {a b : ServerConfigurationEntry} (h : canonEntry a = canonEntry b) :
    hashEntry a = hashEntry b ↔ EntriesAlike a b := by
  have hvalues := values_of_canonEntry h
  have hprops : canonProps a.props = canonProps b.props := (Prod.mk.inj h).2
  have hlength := length_flatMap_eq (fun _ _ hsame => length_hashValue hsame) hvalues
  have hvaluesHash := flatMap_eq_iff (fun _ _ hsame => length_hashValue hsame)
    (fun _ _ hsame => hashValue_eq_iff hsame) hvalues
  have hpropsHash := hashProps_eq_iff hprops
  rw [hashEntry, hashEntry, flatMap_sortedProps, flatMap_sortedProps, hvalues.length_eq,
    length_sortedProps hprops]
  constructor
  · intro hhash
    obtain ⟨hleft, hright⟩ := List.append_inj hhash (by rw [List.length_cons, List.length_cons, hlength])
    exact ⟨hvaluesHash.1 (List.cons_eq_cons.1 hleft).2, hpropsHash.1 (List.cons_eq_cons.1 hright).2⟩
  · intro halike
    rw [hvaluesHash.2 halike.values, hpropsHash.2 halike.props]

/-- The entries of two directives, which are equal, in pairs. -/
theorem entries_of_canon {a b : ServerConfigurationEntries}
    (h : a.inner.map canonEntry = b.inner.map canonEntry) :
    List.Forall₂ (fun x y => canonEntry x = canonEntry y) a.inner b.inner := forall₂_of_map_eq h

theorem length_hashEntries {a b : ServerConfigurationEntries}
    (h : a.inner.map canonEntry = b.inner.map canonEntry) :
    (hashEntries a).length = (hashEntries b).length := by
  rw [hashEntries, hashEntries, List.length_cons, List.length_cons,
    length_flatMap_eq (fun _ _ hsame => length_hashEntry hsame) (entries_of_canon h)]

theorem hashEntries_eq_iff {a b : ServerConfigurationEntries}
    (h : a.inner.map canonEntry = b.inner.map canonEntry) :
    hashEntries a = hashEntries b ↔ List.Forall₂ EntriesAlike a.inner b.inner := by
  rw [hashEntries, hashEntries, (entries_of_canon h).length_eq, List.cons_eq_cons,
    flatMap_eq_iff (fun _ _ hsame => length_hashEntry hsame) (fun _ _ hsame => hashEntry_eq_iff hsame)
      (entries_of_canon h)]
  exact and_iff_right rfl

/-- A missing directive equals a missing one only. -/
theorem hashDirective_eq_iff {a b : Option ServerConfigurationEntries}
    (h : optionEq entriesEq a b = true) :
    hashDirective a = hashDirective b ↔
      ∀ entries entries', a = some entries → b = some entries' →
        List.Forall₂ EntriesAlike entries.inner entries'.inner := by
  cases a with
  | none =>
      cases b with
      | none => simp
      | some entries' => exact absurd h Bool.false_ne_true
  | some entries =>
      cases b with
      | none => exact absurd h Bool.false_ne_true
      | some entries' =>
          rw [hashDirective, hashDirective, List.cons_eq_cons,
            hashEntries_eq_iff ((entriesEq_iff entries entries').1 h)]
          simp

theorem length_hashDirective {a b : Option ServerConfigurationEntries}
    (h : optionEq entriesEq a b = true) : (hashDirective a).length = (hashDirective b).length := by
  cases a with
  | none =>
      cases b with
      | none => rfl
      | some entries' => exact absurd h Bool.false_ne_true
  | some entries =>
      cases b with
      | none => exact absurd h Bool.false_ne_true
      | some entries' =>
          rw [hashDirective, hashDirective, List.length_cons, List.length_cons,
            length_hashEntries ((entriesEq_iff entries entries').1 h)]

/-- The keys of two configurations that are equal on the directives are hashed alike when their floats
are. -/
theorem CacheKey.hash_new_eq_iff {c c' : ServerConfiguration} {properties : List Str}
    (h : EqualOn properties c c') :
    (CacheKey.new c properties).hash = (CacheKey.new c' properties).hash ↔
      FloatsAlike properties c c' := by
  have hpairs : List.Forall₂
      (fun prop prop' => prop = prop' ∧
        optionEq entriesEq (c.entries.lookup prop) (c'.entries.lookup prop') = true)
      (sortBy compare id properties) (sortBy compare id properties) :=
    List.forall₂_same.2 fun prop hprop => ⟨rfl, h prop (CacheKey.mem_sorted_iff.1 hprop)⟩
  rw [CacheKey.hash, CacheKey.hash, CacheKey.entries_new, CacheKey.entries_new, List.length_map,
    List.length_map, List.cons_eq_cons, List.flatMap_map, List.flatMap_map]
  rw [flatMap_eq_iff (q := fun prop prop' => ∀ entries entries', c.entries.lookup prop = some entries →
    c'.entries.lookup prop' = some entries' → List.Forall₂ EntriesAlike entries.inner entries'.inner)
    ?_ ?_ hpairs, List.forall₂_same]
  · rw [FloatsAlike]
    simp only [CacheKey.mem_sorted_iff, true_and]
  · rintro prop _ ⟨rfl, hequal⟩
    rw [List.length_cons, List.length_cons, length_hashDirective hequal]
  · rintro prop _ ⟨rfl, hequal⟩
    rw [List.cons_eq_cons, hashDirective_eq_iff hequal]
    exact and_iff_right rfl

/-! ## Calls -/

/-- `get_or_init`: a call with a configuration, for which a module can be made or not. -/
def getOrInit (table : Table CacheKey.hash) (properties : List Str) (cache : State CacheKey)
    (call : ServerConfiguration × Bool) : State CacheKey :=
  Lib.HashedCache.getOrInit table cache (CacheKey.new call.1 properties, call.2)

/-- What the calls return to their configurations. -/
def instances (table : Table CacheKey.hash) (properties : List Str)
    (calls : List (ServerConfiguration × Bool)) : List (ServerConfiguration × Option Nat) :=
  (calls.map Prod.fst).zip ((run (getOrInit table properties) new calls).returned.map Prod.snd)

/-- Configurations that are equal on the directives get the module that was returned first, and other
configurations do not share one. -/
structure SharesInstances (properties : List Str) (instances : List (ServerConfiguration × Option Nat)) :
    Prop where
  equal : ∀ (i j : Nat) (c c' : ServerConfiguration) (instance' : Nat) (result : Option Nat), i < j →
    instances[i]? = some (c, some instance') → instances[j]? = some (c', result) →
      EqualOn properties c c' → result = some instance'
  differ : ∀ (i j : Nat) (c c' : ServerConfiguration) (instance' : Nat),
    instances[i]? = some (c, some instance') → instances[j]? = some (c', some instance') →
      EqualOn properties c c'

/-- The calls as calls with keys. -/
theorem run_getOrInit (table : Table CacheKey.hash) (properties : List Str)
    (calls : List (ServerConfiguration × Bool)) (cache : State CacheKey) :
    run (getOrInit table properties) cache calls =
      run (Lib.HashedCache.getOrInit table) cache
        (calls.map fun call => (CacheKey.new call.1 properties, call.2)) := by
  rw [run, run, List.foldl_map]
  rfl

/-- What is returned to a configuration is what is returned to its key. -/
theorem returned_eq_map (table : Table CacheKey.hash) (properties : List Str)
    (calls : List (ServerConfiguration × Bool)) :
    (run (getOrInit table properties) new calls).returned =
      (instances table properties calls).map (Prod.map (fun c => CacheKey.new c properties) id) := by
  have hkeys := returned_run table (calls.map fun call => (CacheKey.new call.1 properties, call.2)) new
  rw [← run_getOrInit, show (new : State CacheKey).returned = [] from rfl, List.map_nil, List.nil_append,
    List.map_map] at hkeys
  rw [instances, ← List.zip_map_left, List.map_map]
  conv_lhs => rw [← List.zip_unzip (run (getOrInit table properties) new calls).returned,
    List.unzip_fst, List.unzip_snd, hkeys]
  rfl

/-- Configurations share modules as they should when their keys do. -/
theorem sharesInstances_iff_returned (table : Table CacheKey.hash) (properties : List Str)
    (calls : List (ServerConfiguration × Bool)) :
    SharesInstances properties (instances table properties calls) ↔
      SharesSoundly (run (getOrInit table properties) new calls).returned := by
  have hreturned : ∀ (i : Nat) (key : CacheKey) (result : Option Nat),
      (run (getOrInit table properties) new calls).returned[i]? = some (key, result) ↔
        ∃ c, (instances table properties calls)[i]? = some (c, result) ∧
          CacheKey.new c properties = key := by
    intro i key result
    rw [returned_eq_map, List.getElem?_map, Option.map_eq_some_iff]
    constructor
    · rintro ⟨⟨c, result'⟩, hfound, hkey⟩
      obtain ⟨rfl, rfl⟩ := Prod.mk.inj hkey
      exact ⟨c, hfound, rfl⟩
    · rintro ⟨c, hfound, rfl⟩
      exact ⟨(c, result), hfound, rfl⟩
  constructor
  · rintro ⟨hequal, hdiffer⟩
    constructor
    · intro i j key key' value result hij hi hj hkeys
      obtain ⟨c, hc, rfl⟩ := (hreturned i key (some value)).1 hi
      obtain ⟨c', hc', rfl⟩ := (hreturned j key' result).1 hj
      exact hequal i j c c' value result hij hc hc' ((CacheKey.new_beq_iff c c' properties).1 hkeys)
    · intro i j key key' value hi hj
      obtain ⟨c, hc, rfl⟩ := (hreturned i key (some value)).1 hi
      obtain ⟨c', hc', rfl⟩ := (hreturned j key' (some value)).1 hj
      exact (CacheKey.new_beq_iff c c' properties).2 (hdiffer i j c c' value hc hc')
  · rintro ⟨hequal, hdiffer⟩
    constructor
    · intro i j c c' value result hij hc hc' hconfigs
      exact hequal i j _ _ value result hij ((hreturned i _ _).2 ⟨c, hc, rfl⟩)
        ((hreturned j _ _).2 ⟨c', hc', rfl⟩) ((CacheKey.new_beq_iff c c' properties).2 hconfigs)
    · intro i j c c' value hc hc'
      exact (CacheKey.new_beq_iff c c' properties).1
        (hdiffer i j _ _ value ((hreturned i _ _).2 ⟨c, hc, rfl⟩) ((hreturned j _ _).2 ⟨c', hc', rfl⟩))

/-- Whatever the hash table is and whichever modules cannot be made, configurations share modules as they
should, if and only if the floats of those that are equal on the directives are hashed alike. -/
theorem sharesInstances_iff (properties : List Str) (configs : List ServerConfiguration) :
    (∀ (table : Table CacheKey.hash) (calls : List (ServerConfiguration × Bool)),
      calls.map Prod.fst = configs → SharesInstances properties (instances table properties calls)) ↔
      ∀ c ∈ configs, ∀ c' ∈ configs, EqualOn properties c c' → FloatsAlike properties c c' := by
  have hkeys := sharesSoundly_iff CacheKey.hash (configs.map fun c => CacheKey.new c properties)
  have halike : (∀ a ∈ configs.map fun c => CacheKey.new c properties,
      ∀ b ∈ configs.map fun c => CacheKey.new c properties, (a == b) = true → a.hash = b.hash) ↔
        ∀ c ∈ configs, ∀ c' ∈ configs, EqualOn properties c c' → FloatsAlike properties c c' := by
    simp only [List.forall_mem_map, CacheKey.new_beq_iff]
    exact forall₂_congr fun c _ => forall₂_congr fun c' _ =>
      forall_congr' fun hequal => CacheKey.hash_new_eq_iff hequal
  rw [← halike, ← hkeys]
  constructor
  · intro hsound table calls hcalls
    -- the calls with keys are those of the configurations
    have hlength : calls.length = configs.length := by
      have hmapped := congrArg List.length hcalls
      rwa [List.length_map, List.length_map] at hmapped
    have hzip : (configs.zip (calls.map Prod.snd)).map Prod.fst = configs :=
      List.map_fst_zip (by rw [List.length_map, hlength])
    have hsame : (configs.zip (calls.map Prod.snd)).map
        (fun call => (CacheKey.new call.1 properties, call.2)) = calls := by
      rw [show (fun call : ServerConfiguration × Bool => (CacheKey.new call.1 properties, call.2)) =
        Prod.map (fun c => CacheKey.new c properties) id from rfl, ← List.zip_map_left, ← hcalls,
        ← List.unzip_fst, ← List.unzip_snd, List.zip_unzip]
    have hshares := (sharesInstances_iff_returned table properties _).1 (hsound table _ hzip)
    rw [run_getOrInit, hsame] at hshares
    exact hshares
  · intro hsound table calls hcalls
    rw [sharesInstances_iff_returned, run_getOrInit]
    apply hsound
    rw [← hcalls, List.map_map, List.map_map]
    rfl

/-- `limit #true rate=...` with a float. -/
def limitConfig (rate : UInt64) : ServerConfiguration where
  entries := AList.singleton "limit".toList
    ⟨[⟨[.bool true], AList.singleton "rate".toList (.float rate)⟩]⟩
  filters := ⟨false, none, none, none, none, none⟩

/-- The rates zero and minus zero are equal and get two modules. -/
theorem limitConfig_notShared :
    EqualOn ["limit".toList] (limitConfig 0) (limitConfig 0x8000000000000000) ∧
      (instances (strictTable CacheKey.hash) ["limit".toList]
        [(limitConfig 0, true), (limitConfig 0x8000000000000000, true)]).map Prod.snd =
          [some 0, some 1] ∧
      ¬ SharesInstances ["limit".toList] (instances (strictTable CacheKey.hash) ["limit".toList]
        [(limitConfig 0, true), (limitConfig 0x8000000000000000, true)]) := by
  have hequal : EqualOn ["limit".toList] (limitConfig 0) (limitConfig 0x8000000000000000) := by
    intro prop hprop
    rw [List.mem_singleton.1 hprop]
    rfl
  have hinstances : instances (strictTable CacheKey.hash) ["limit".toList]
      [(limitConfig 0, true), (limitConfig 0x8000000000000000, true)] =
        [(limitConfig 0, some 0), (limitConfig 0x8000000000000000, some 1)] := by
    rfl
  refine ⟨hequal, by rw [hinstances]; rfl, fun hshares => ?_⟩
  have hresult := hshares.equal 0 1 _ _ 0 (some 1) Nat.zero_lt_one (by rw [hinstances]; rfl)
    (by rw [hinstances]; rfl) hequal
  exact absurd hresult (by decide)

end Ferron.Common.ModuleCache
