import Mathlib.Data.List.Basic

/-!
# Texts of labelled lines

A text is made of lines, and each line has a label, a separator and a value. When no label has the
separator and no label and no value has a line break, a text has its fields back
(`text_injective`).
-/

set_option autoImplicit false

namespace Ferron.Lib.LabelledLines

variable {α : Type}

/-- A label with its value. -/
abbrev Field (α : Type) := List α × List α

/-- The line of a field. -/
def line (colon : α) (field : Field α) : List α := field.1 ++ colon :: field.2

/-- The text of some fields. -/
def text (colon newline : α) (fields : List (Field α)) : List α :=
  [newline].intercalate (fields.map (line colon))

/-- The separator is not in the label, and the line break is not in the line. -/
structure Plain (colon newline : α) (field : Field α) : Prop where
  label : colon ∉ field.1
  oneLine : newline ∉ line colon field

variable {colon newline : α}

/-- The first separator ends the label. -/
theorem line_injective {a b : Field α} (ha : colon ∉ a.1) (hb : colon ∉ b.1)
    (h : line colon a = line colon b) : a = b := by
  obtain ⟨a, v⟩ := a
  obtain ⟨b, w⟩ := b
  induction a generalizing b with
  | nil =>
      cases b with
      | nil => exact Prod.ext rfl (List.cons.inj h).2
      | cons c b =>
          obtain ⟨hc, -⟩ := List.cons.inj h
          exact absurd (hc ▸ List.mem_cons_self) hb
  | cons c a ih =>
      cases b with
      | nil =>
          obtain ⟨hc, -⟩ := List.cons.inj h
          exact absurd (hc ▸ List.mem_cons_self) ha
      | cons d b =>
          obtain ⟨hc, htail⟩ := List.cons.inj h
          have hfields : (a, v) = (b, w) :=
            ih (fun hmem => ha (List.mem_cons_of_mem _ hmem)) b
              (fun hmem => hb (List.mem_cons_of_mem _ hmem)) htail
          obtain ⟨rfl, rfl⟩ := Prod.mk.inj hfields
          rw [hc]

theorem map_line_injective {fields others : List (Field α)}
    (hfields : ∀ field ∈ fields, Plain colon newline field)
    (hothers : ∀ field ∈ others, Plain colon newline field)
    (h : fields.map (line colon) = others.map (line colon)) : fields = others := by
  induction fields generalizing others with
  | nil => exact (List.map_eq_nil_iff.1 h.symm).symm
  | cons field fields ih =>
      cases others with
      | nil => exact absurd h (by simp)
      | cons other others =>
          obtain ⟨hline, hrest⟩ := List.cons.inj h
          have hhead := line_injective (hfields field List.mem_cons_self).label
            (hothers other List.mem_cons_self).label hline
          have htail := ih (fun _ hmem => hfields _ (List.mem_cons_of_mem _ hmem))
            (fun _ hmem => hothers _ (List.mem_cons_of_mem _ hmem)) hrest
          rw [hhead, htail]

/-- No line is empty, so only the text of no field is empty. -/
theorem text_eq_nil_iff {fields : List (Field α)} : text colon newline fields = [] ↔ fields = [] := by
  constructor
  · intro h
    cases fields with
    | nil => rfl
    | cons field fields =>
        cases fields with
        | nil => exact absurd h (by simp [text, line])
        | cons other fields => exact absurd h (by simp [text, line])
  · rintro rfl
    rfl

theorem splitOn_text [DecidableEq α] {fields : List (Field α)}
    (hfields : ∀ field ∈ fields, Plain colon newline field) (hne : fields ≠ []) :
    (text colon newline fields).splitOn newline = fields.map (line colon) := by
  apply List.splitOn_intercalate
  · intro l hl
    obtain ⟨field, hfield, rfl⟩ := List.mem_map.1 hl
    exact (hfields field hfield).oneLine
  · exact fun h => hne (List.map_eq_nil_iff.1 h)

/-- A text has its fields back. -/
theorem text_injective [DecidableEq α] {fields others : List (Field α)}
    (hfields : ∀ field ∈ fields, Plain colon newline field)
    (hothers : ∀ field ∈ others, Plain colon newline field)
    (h : text colon newline fields = text colon newline others) : fields = others := by
  by_cases hnil : fields = []
  · rw [hnil, text_eq_nil_iff.2 rfl] at h
    rw [hnil, text_eq_nil_iff.1 h.symm]
  · have hne : others ≠ [] := by
      rintro rfl
      rw [text_eq_nil_iff.2 rfl] at h
      exact hnil (text_eq_nil_iff.1 h)
    apply map_line_injective hfields hothers
    rw [← splitOn_text hfields hnil, h, splitOn_text hothers hne]

end Ferron.Lib.LabelledLines
