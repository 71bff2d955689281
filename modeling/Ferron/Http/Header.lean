import Ferron.Rust.Text
import Mathlib.Data.List.DropRight

/-!
# Header maps

A header map holds a sequence of values for each name. Names are compared in lower case, so the
model keeps them in lower case; the iteration order over different names is not specified, so no
result depends on it.
-/

set_option autoImplicit false

namespace Ferron.Http

/-- A header name in lower case. -/
abbrev HeaderName := Str

/-- A header value: arbitrary bytes. -/
abbrev HeaderValue := Bytes

/-- A multimap from names to values. -/
abbrev HeaderMap := List (HeaderName × HeaderValue)

/-- A byte that `HeaderValue::to_str` accepts: visible ASCII, a space or a tab. -/
def isVisibleAscii (b : UInt8) : Bool := (0x20 ≤ b && b < 0x7f) || b == 0x09

/-- `HeaderValue::to_str`, with the error dropped. -/
def toStr (value : HeaderValue) : Option Str :=
  if value.all isVisibleAscii then some (value.map fun b => Char.ofNat b.toNat) else none

/-- `str::trim` on a header value, which has no white space other than spaces and tabs. -/
def trim (s : Str) : Str := (s.dropWhile fun c => c = ' ' ∨ c = '\t').rdropWhile fun c =>
  c = ' ' ∨ c = '\t'

/-- A byte that a header value may have: no control character other than the tab. -/
def isHeaderByte (b : UInt8) : Bool := (0x20 ≤ b && b != 0x7f) || b == 0x09

/-- The header value with the text of a `String`, with the error dropped. -/
def headerValue (text : Str) : Option HeaderValue :=
  let bytes := text.flatMap String.utf8EncodeChar
  if bytes.all isHeaderByte then some bytes else none

/-- A character that a header name may have. -/
def isTokenChar (c : Char) : Bool := c.isAlphanum || "!#$%&'*+-.^_`|~".toList.contains c

/-- `HeaderName::from_str`, with the error dropped. -/
def headerName (text : Str) : Option HeaderName :=
  if text ≠ [] ∧ text.length ≤ 65535 ∧ text.all isTokenChar then some (text.map Char.toLower)
  else none

namespace HeaderMap

/-- `get`: the first value of a name. -/
def get (headers : HeaderMap) (name : HeaderName) : Option HeaderValue :=
  (headers.find? fun header => header.1 = name).map Prod.snd

/-- `get_all`: the values of a name, in order. -/
def getAll (headers : HeaderMap) (name : HeaderName) : List HeaderValue :=
  (headers.filter fun header => header.1 = name).map Prod.snd

/-- `contains_key`. -/
def containsKey (headers : HeaderMap) (name : HeaderName) : Bool :=
  headers.any fun header => header.1 = name

/-- `remove`: drops every value of a name. -/
def remove (headers : HeaderMap) (name : HeaderName) : HeaderMap :=
  headers.filter fun header => header.1 ≠ name

/-- `insert`: the name has this value only. -/
def insert (headers : HeaderMap) (name : HeaderName) (value : HeaderValue) : HeaderMap :=
  headers.remove name ++ [(name, value)]

/-- `append`: the name has one more value, behind the others. -/
def append (headers : HeaderMap) (name : HeaderName) (value : HeaderValue) : HeaderMap :=
  headers ++ [(name, value)]

theorem get_eq_head? (headers : HeaderMap) (name : HeaderName) :
    headers.get name = (headers.getAll name).head? := by
  rw [get, getAll, List.head?_map, List.head?_filter]

theorem getAll_cons (name other : HeaderName) (value : HeaderValue) (headers : HeaderMap) :
    getAll ((name, value) :: headers) other =
      if name = other then value :: headers.getAll other else headers.getAll other := by
  rw [getAll, getAll, List.filter_cons]
  by_cases hname : name = other <;> simp [hname]

theorem getAll_eq_nil_of_notMem {headers : HeaderMap} {name : HeaderName}
    (h : name ∉ headers.map Prod.fst) : headers.getAll name = [] := by
  rw [getAll, List.map_eq_nil_iff, List.filter_eq_nil_iff]
  intro header hheader heq
  exact h (List.mem_map.2 ⟨header, hheader, of_decide_eq_true heq⟩)

theorem containsKey_iff {headers : HeaderMap} {name : HeaderName} :
    headers.containsKey name = true ↔ headers.getAll name ≠ [] := by
  rw [containsKey, getAll, Ne, List.map_eq_nil_iff, List.filter_eq_nil_iff, List.any_eq_true]
  push Not
  rfl

theorem getAll_remove (headers : HeaderMap) (name other : HeaderName) :
    (headers.remove name).getAll other = if other = name then [] else headers.getAll other := by
  rw [remove, getAll, getAll, List.filter_filter]
  split
  · rename_i hsame
    rw [List.map_eq_nil_iff, List.filter_eq_nil_iff]
    simp [hsame]
  · rename_i hother
    congr 1
    apply List.filter_congr
    intro header _
    by_cases hname : header.1 = other
    · simp [hname, hother]
    · simp [hname]

theorem getAll_append (headers : HeaderMap) (name other : HeaderName) (value : HeaderValue) :
    (headers.append name value).getAll other =
      headers.getAll other ++ if other = name then [value] else [] := by
  rw [append, getAll, List.filter_append, List.map_append]
  congr 1
  by_cases hname : other = name
  · simp [hname]
  · simp [hname, Ne.symm hname]

theorem getAll_insert (headers : HeaderMap) (name other : HeaderName) (value : HeaderValue) :
    (headers.insert name value).getAll other =
      if other = name then [value] else headers.getAll other := by
  have hinsert : headers.insert name value = (headers.remove name).append name value := rfl
  rw [hinsert, getAll_append, getAll_remove]
  by_cases hname : other = name
  · simp [hname]
  · simp [hname]

end HeaderMap

end Ferron.Http
