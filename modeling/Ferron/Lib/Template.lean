import Mathlib.Data.List.Basic
import Mathlib.Tactic

/-!
# Templates

A template is a text with placeholders: an opening delimiter, a name and the next closing delimiter.
`expand` puts values in the place of the placeholders whose names have one, and copies everything else.
A template is told apart from its start: it is a text without placeholders, or it has an opening
delimiter that is not closed behind a text, or a placeholder behind a text (`template_induction`).
-/

set_option autoImplicit false

namespace Ferron.Lib.Template

variable {α : Type} [DecidableEq α] (opening closing : α)

/-- Every opening delimiter has a closing one somewhere behind it. -/
def Closed (template : List α) : Prop := ∀ rest, opening :: rest <:+ template → closing ∈ rest

/-- A placeholder as it stands in a template. -/
def placeholder (name : List α) : List α := opening :: name ++ [closing]

/-- The expansion, from outside of a placeholder or from inside of one whose name so far is given. -/
def expandFrom (value : List α → Option (List α)) : Option (List α) → List α → List α
  | none, [] => []
  | some name, [] => opening :: name
  | none, a :: template =>
      if a = opening then expandFrom value (some []) template else a :: expandFrom value none template
  | some name, a :: template =>
      if a = closing then
        (value name).getD (placeholder opening closing name) ++ expandFrom value none template
      else expandFrom value (some (name ++ [a])) template

/-- The template with the values of its placeholders. -/
def expand (value : List α → Option (List α)) (template : List α) : List α :=
  expandFrom opening closing value none template

variable {opening closing} {value : List α → Option (List α)}

/-- A text before the first opening delimiter is copied. -/
theorem expand_append {before : List α} (h : opening ∉ before) (rest : List α) :
    expand opening closing value (before ++ rest) = before ++ expand opening closing value rest := by
  induction before with
  | nil => rfl
  | cons a before ih =>
      rw [List.mem_cons, not_or] at h
      have htail := ih h.2
      rw [expand] at htail ⊢
      rw [List.cons_append, expandFrom, if_neg (Ne.symm h.1), htail, List.cons_append]

/-- A text without an opening delimiter is copied. -/
theorem expand_text {text : List α} (h : opening ∉ text) : expand opening closing value text = text := by
  have happend := @expand_append _ _ _ closing value _ h []
  rw [List.append_nil] at happend
  rw [happend, expand, expandFrom, List.append_nil]

theorem expandFrom_name {name : List α} (h : closing ∉ name) (read rest : List α) :
    expandFrom opening closing value (some read) (name ++ rest) =
      expandFrom opening closing value (some (read ++ name)) rest := by
  induction name generalizing read with
  | nil => rw [List.nil_append, List.append_nil]
  | cons a name ih =>
      rw [List.mem_cons, not_or] at h
      rw [List.cons_append, expandFrom, if_neg (Ne.symm h.1), ih h.2, List.append_assoc]
      rfl

/-- A placeholder is replaced when its name has a value, and the expansion goes on behind it. -/
theorem expand_placeholder {name : List α} (h : closing ∉ name) (rest : List α) :
    expand opening closing value (opening :: name ++ closing :: rest) =
      (value name).getD (placeholder opening closing name) ++ expand opening closing value rest := by
  rw [expand, List.cons_append, expandFrom, if_pos rfl, expandFrom_name h, List.nil_append, expandFrom,
    if_pos rfl]
  rfl

/-- The first occurrence of an element. -/
theorem exists_first {a : α} {l : List α} (h : a ∈ l) :
    ∃ before after, l = before ++ a :: after ∧ a ∉ before := by
  induction l with
  | nil => exact absurd h List.not_mem_nil
  | cons b l ih =>
      by_cases hb : b = a
      · exact ⟨[], l, by rw [hb]; rfl, List.not_mem_nil⟩
      · obtain ⟨before, after, rfl, hbefore⟩ := ih ((List.mem_cons.1 h).resolve_left (Ne.symm hb))
        refine ⟨b :: before, after, rfl, ?_⟩
        rw [List.mem_cons, not_or]
        exact ⟨Ne.symm hb, hbefore⟩

/-- What holds of texts, behind placeholders and of unclosed delimiters holds of templates. -/
@[elab_as_elim]
theorem template_induction {P : List α → Prop} (template : List α)
    (text : ∀ text, opening ∉ text → P text)
    (unclosed : ∀ before after, opening ∉ before → closing ∉ after → P (before ++ opening :: after))
    (closed : ∀ before name after, opening ∉ before → closing ∉ name → P after →
      P (before ++ (opening :: name ++ closing :: after))) : P template := by
  generalize hlength : template.length = n
  induction n using Nat.strong_induction_on generalizing template with
  | _ n ih =>
      by_cases hopening : opening ∈ template
      · obtain ⟨before, rest, rfl, hbefore⟩ := exists_first hopening
        by_cases hclosing : closing ∈ rest
        · obtain ⟨name, after, rfl, hname⟩ := exists_first hclosing
          apply closed before name after hbefore hname
          refine ih _ ?_ after rfl
          rw [← hlength, List.length_append, List.length_cons, List.length_append, List.length_cons]
          omega
        · exact unclosed before rest hbefore hclosing
      · exact text template hopening

omit [DecidableEq α] in
theorem closed_text {text : List α} (h : opening ∉ text) : Closed opening closing text :=
  fun _ hrest => absurd (hrest.subset List.mem_cons_self) h

omit [DecidableEq α] in
theorem not_closed_unclosed {before after : List α} (h : closing ∉ after) :
    ¬ Closed opening closing (before ++ opening :: after) :=
  fun hclosed => h (hclosed after (List.suffix_append _ _))

omit [DecidableEq α] in
/-- A template with a placeholder is closed when it is closed behind the placeholder. -/
theorem closed_placeholder_iff (hne : opening ≠ closing) {before name after : List α} :
    Closed opening closing (before ++ (opening :: name ++ closing :: after)) ↔
      Closed opening closing after := by
  constructor
  · intro h rest hrest
    exact h rest (hrest.trans ⟨before ++ (opening :: name ++ [closing]), by simp⟩)
  · intro h rest hrest
    rw [← List.append_assoc] at hrest
    -- an opening delimiter stands behind the placeholder, or the closing one stands behind it
    rcases List.suffix_or_suffix_of_suffix hrest (List.suffix_append _ (closing :: after)) with
      hshort | hlong
    · rcases List.suffix_cons_iff.1 hshort with heq | hafter
      · exact absurd (List.cons.inj heq).1 hne
      · exact h rest hafter
    · rcases List.suffix_cons_iff.1 hlong with heq | hrest
      · exact absurd (List.cons.inj heq).1 hne.symm
      · exact hrest.subset List.mem_cons_self

end Ferron.Lib.Template
