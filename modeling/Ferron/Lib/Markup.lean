import Mathlib.Data.List.Basic

/-!
# The markup of a page

`scan` reads an HTML page from one state of the tokenizer to the next and keeps the characters of the tags.
What it leaves out is the text between the tags and the values of attributes. So pages with the same markup
have the same tags with the same attributes, and their values begin and end at the same places. Comments and
scripts are not told apart from other tags.

A page that is put together from pieces is read piece by piece (`Reads.append`). Text without `<` and values
without their quotation mark add nothing (`Reads.of_text`, `Reads.of_value`).
-/

set_option autoImplicit false

namespace Ferron.Lib.Markup

/-- A state of the tokenizer. -/
inductive State where
  | data
  | tagOpen
  | endTagOpen
  | declaration
  | tagName
  | beforeAttributeName
  | attributeName
  | afterAttributeName
  | beforeAttributeValue
  | attributeValue (quote : Char)
  | unquotedValue
  deriving DecidableEq

/-- White space in a tag. -/
def isSpace (c : Char) : Bool :=
  c = ' ' || c = '\t' || c = '\n' || c = '\r' || c = Char.ofNat 0x0c

def doubleQuote : Char := Char.ofNat 0x22

def singleQuote : Char := Char.ofNat 0x27

/-- The state behind a character of a tag that is neither in a value nor at its beginning. -/
def afterTagChar (stay spaced assigned : State) (c : Char) : State :=
  if isSpace c then spaced
  else if c = '/' then .beforeAttributeName
  else if c = '>' then .data
  else if c = '=' then assigned
  else stay

/-- One character: what is kept, and the next state. -/
def step : State → Char → List Char × State
  | .data, c => ([], if c = '<' then .tagOpen else .data)
  | .tagOpen, c =>
      if c.isAlpha then (['<', c], .tagName)
      else if c = '/' then ([], .endTagOpen)
      else if c = '!' || c = '?' then (['<', c], .declaration)
      -- a sign that opens no tag is text
      else ([], if c = '<' then .tagOpen else .data)
  | .endTagOpen, c =>
      if c.isAlpha then (['<', '/', c], .tagName)
      else if c = '>' then ([], .data)
      else (['<', '/', c], .declaration)
  | .declaration, c => ([c], if c = '>' then .data else .declaration)
  | .tagName, c => ([c], afterTagChar .tagName .beforeAttributeName .tagName c)
  | .beforeAttributeName, c => ([c], afterTagChar .attributeName .beforeAttributeName .attributeName c)
  | .attributeName, c => ([c], afterTagChar .attributeName .afterAttributeName .beforeAttributeValue c)
  | .afterAttributeName, c => ([c], afterTagChar .attributeName .afterAttributeName .beforeAttributeValue c)
  | .beforeAttributeValue, c =>
      if isSpace c then ([c], .beforeAttributeValue)
      else if c = doubleQuote || c = singleQuote then ([c], .attributeValue c)
      else if c = '>' then ([c], .data)
      else ([], .unquotedValue)
  | .attributeValue quote, c => if c = quote then ([c], .beforeAttributeName) else ([], .attributeValue quote)
  | .unquotedValue, c =>
      if isSpace c then ([c], .beforeAttributeName)
      else if c = '>' then ([c], .data)
      else ([], .unquotedValue)

/-- What is kept of some text, and the state behind it. -/
def scan : State → List Char → List Char × State
  | state, [] => ([], state)
  | state, c :: text =>
      ((step state c).1 ++ (scan (step state c).2 text).1, (scan (step state c).2 text).2)

/-- The tags of a page, without the values of attributes. -/
def markup (page : List Char) : List Char := (scan .data page).1

example : markup "<a href=\"x>y\">1 < 2</a>".toList = "<a href=\"\"></a>".toList := by decide

/-- From one state to another this is kept of the text. -/
def Reads (state : State) (text kept : List Char) (after : State) : Prop :=
  scan state text = (kept, after)

variable {state middle after : State} {text text' kept kept' : List Char}

theorem scan_append (state : State) (text text' : List Char) :
    scan state (text ++ text') =
      ((scan state text).1 ++ (scan (scan state text).2 text').1, (scan (scan state text).2 text').2) := by
  induction text generalizing state with
  | nil => rfl
  | cons c text ih =>
      rw [List.cons_append, scan, ih]
      simp only [scan, List.append_assoc]

namespace Reads

theorem nil (state : State) : Reads state [] [] state := rfl

theorem append (h : Reads state text kept middle) (h' : Reads middle text' kept' after) :
    Reads state (text ++ text') (kept ++ kept') after := by
  rw [Reads] at *
  rw [scan_append, h, h']

theorem markup_eq (h : Reads .data text kept after) : markup text = kept := congrArg Prod.fst h

/-- What is kept of a text that goes on begins with what is kept of its beginning. -/
theorem markup_append (h : Reads .data text kept after) (text' : List Char) :
    markup (text ++ text') = kept ++ (scan after text').1 := by
  rw [Reads] at h
  rw [markup, scan_append, h]

/-- A literal. -/
theorem of_literal {text : List Char} (h : scan state text = (kept, after)) :
    Reads state (String.ofList text).toList kept after := by
  rw [String.toList_ofList]
  exact h

/-- What is kept, as a literal. -/
theorem to_literal (h : Reads state text kept after) (hkept : kept = kept') :
    Reads state text (String.ofList kept').toList after := by
  rw [String.toList_ofList, ← hkept]
  exact h

/-- A literal behind one that is kept, and behind more. -/
theorem append_literal {front back : List Char}
    (h : Reads state text (kept ++ (String.ofList front).toList) middle)
    (h' : Reads middle text' (String.ofList back).toList after) :
    Reads state (text ++ text') (kept ++ (String.ofList (front ++ back)).toList) after := by
  rw [String.toList_ofList] at h h' ⊢
  rw [← List.append_assoc]
  exact h.append h'

/-- Text without `<` has no tag. -/
theorem of_text {text : List Char} (h : '<' ∉ text) : Reads .data text [] .data := by
  induction text with
  | nil => rfl
  | cons c text ih =>
      rw [List.mem_cons, not_or] at h
      have hrest : scan .data text = ([], .data) := ih h.2
      rw [Reads, scan, step, if_neg (Ne.symm h.1), hrest]
      rfl

/-- A value without its quotation mark does not end. -/
theorem of_value {quote : Char} {text : List Char} (h : quote ∉ text) :
    Reads (.attributeValue quote) text [] (.attributeValue quote) := by
  induction text with
  | nil => rfl
  | cons c text ih =>
      rw [List.mem_cons, not_or] at h
      have hrest : scan (.attributeValue quote) text = ([], .attributeValue quote) := ih h.2
      rw [Reads, scan, step, if_neg (Ne.symm h.1), hrest]
      rfl

/-- Text behind a tag. -/
theorem append_text (h : Reads state text kept .data) (htext : '<' ∉ text') :
    Reads state (text ++ text') kept .data := by
  rw [← List.append_nil kept]
  exact h.append (of_text htext)

/-- A piece of a value. -/
theorem append_value {quote : Char} (h : Reads state text kept (.attributeValue quote))
    (hvalue : quote ∉ text') : Reads state (text ++ text') kept (.attributeValue quote) := by
  rw [← List.append_nil kept]
  exact h.append (of_value hvalue)

/-- Pieces of which the same is kept. -/
theorem flatten {pieces : List (List Char)} (h : ∀ piece ∈ pieces, Reads state piece kept state) :
    Reads state pieces.flatten (List.replicate pieces.length kept).flatten state := by
  induction pieces with
  | nil => exact nil state
  | cons piece pieces ih =>
      rw [List.flatten_cons, List.length_cons, List.replicate_succ, List.flatten_cons]
      have hrest := ih fun other hother => h other (List.mem_cons_of_mem _ hother)
      exact (h piece List.mem_cons_self).append hrest

end Reads

/-- A value ends at its first quotation mark, and the next character is kept as one of the tag. -/
theorem scan_value_of_quote {quote : Char} {front : List Char} (h : quote ∉ front) (c : Char)
    (text : List Char) :
    ∃ rest, (scan (.attributeValue quote) (front ++ quote :: c :: text)).1 = quote :: c :: rest := by
  have hfront : scan (.attributeValue quote) front = ([], .attributeValue quote) := Reads.of_value h
  have hquote : step (.attributeValue quote) quote = ([quote], .beforeAttributeName) := by
    rw [step, if_pos rfl]
  refine ⟨(scan (step .beforeAttributeName c).2 text).1, ?_⟩
  rw [scan_append, hfront, scan, hquote, scan]
  rfl

end Ferron.Lib.Markup
