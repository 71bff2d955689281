import Ferron.Rust.Text

/-!
# YAML values

The values that a YAML file is read to. A mapping keeps its entries in their order.

The values in the sequences of a mapping are smaller than the mapping: `Yaml.sectionRec` is the induction
on this.
-/

set_option autoImplicit false

namespace Ferron.Yaml2Kdl

/-- A YAML value. The text of a float is kept. -/
inductive Yaml where
  | real (value : Str)
  | integer (value : Int)
  | string (value : Str)
  | boolean (value : Bool)
  | array (items : List Yaml)
  | hash (entries : List (Yaml × Yaml))
  | alias (id : Nat)
  | null
  | badValue

namespace Yaml

/-- `as_str`. -/
def asStr : Yaml → Option Str
  | string value => some value
  | _ => none

/-- `as_i64`. -/
def asI64 : Yaml → Option Int
  | integer value => some value
  | _ => none

/-- `as_bool`. -/
def asBool : Yaml → Option Bool
  | boolean value => some value
  | _ => none

/-- `as_vec`. -/
def asVec : Yaml → Option (List Yaml)
  | array items => some items
  | _ => none

/-- `as_hash`. -/
def asHash : Yaml → Option (List (Yaml × Yaml))
  | hash entries => some entries
  | _ => none

/-- `is_null`. -/
def isNull : Yaml → Bool
  | null => true
  | _ => false

/-- `get` of a mapping, with a text as the key. -/
def get (entries : List (Yaml × Yaml)) (key : String) : Option Yaml :=
  (entries.find? fun entry => entry.1.asStr == some key.toList).map Prod.snd

/-- Indexing with a text: a value that is not there is bad. -/
def index (value : Yaml) (key : String) : Yaml :=
  (value.asHash.bind fun entries => get entries key).getD badValue

/-- The entries of a mapping, and none of another value. -/
def properties (value : Yaml) : List (Yaml × Yaml) := value.asHash.getD []

theorem sizeOf_lt_of_mem {value key : Yaml} {items : List Yaml}
    (hentry : (key, array items) ∈ value.properties) {item : Yaml} (hitem : item ∈ items) :
    sizeOf item < sizeOf value := by
  cases value with
  | hash entries =>
      have hitems : sizeOf item < sizeOf items := List.sizeOf_lt_of_mem hitem
      have hentries : sizeOf (key, array items) < sizeOf entries := List.sizeOf_lt_of_mem hentry
      rw [Prod.mk.sizeOf_spec, array.sizeOf_spec] at hentries
      rw [hash.sizeOf_spec]
      omega
  | _ => exact absurd hentry List.not_mem_nil

/-- Induction on the values in the sequences of a mapping. -/
@[elab_as_elim]
theorem sectionRec {motive : Yaml → Prop}
    (step : ∀ value, (∀ key items, (key, array items) ∈ value.properties → ∀ item ∈ items, motive item) →
      motive value) (value : Yaml) : motive value := by
  induction hsize : sizeOf value using Nat.strongRecOn generalizing value with
  | ind size ih =>
      refine step value fun key items hentry item hitem => ih (sizeOf item) ?_ item rfl
      rw [← hsize]
      exact sizeOf_lt_of_mem hentry hitem

end Yaml

end Ferron.Yaml2Kdl
