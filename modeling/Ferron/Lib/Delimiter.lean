import Mathlib.Data.List.Infix
import Mathlib.Tactic

/-!
# Delimiters in a growing buffer

A set of delimiters is looked for in a buffer that grows at its end. `FirstEnd` is the position
behind the delimiter that ends first. When the buffer had no delimiter before it grew, it is enough
to look at the new part together with the last `k` elements of the old one, if no delimiter is
longer than `k + 1` (`firstEnd_window_iff`).
-/

set_option autoImplicit false

namespace Ferron.Lib.Delimiter

variable {α : Type} (delimiters : Set (List α))

/-- A delimiter stands at the end of a list. -/
def EndsWith (s : List α) : Prop := ∃ d ∈ delimiters, d <:+ s

/-- A delimiter occurs in a list. -/
def Occurs (s : List α) : Prop := ∃ d ∈ delimiters, d <:+: s

/-- The delimiter that ends first ends at this position. -/
def FirstEnd (s : List α) (e : Nat) : Prop :=
  e ≤ s.length ∧ EndsWith delimiters (s.take e) ∧ ∀ e' < e, ¬ EndsWith delimiters (s.take e')

variable {delimiters}

theorem EndsWith.of_suffix {s t : List α} (h : EndsWith delimiters s) (hst : s <:+ t) :
    EndsWith delimiters t := by
  obtain ⟨d, hd, hsuffix⟩ := h
  exact ⟨d, hd, hsuffix.trans hst⟩

theorem occurs_iff_exists_take (s : List α) :
    Occurs delimiters s ↔ ∃ e ≤ s.length, EndsWith delimiters (s.take e) := by
  constructor
  · rintro ⟨d, hd, pre, post, rfl⟩
    refine ⟨pre.length + d.length, by simp, d, hd, pre, ?_⟩
    rw [← List.length_append, List.take_left' rfl]
  · rintro ⟨e, -, d, hd, hsuffix⟩
    exact ⟨d, hd, hsuffix.isInfix.trans (List.take_prefix e s).isInfix⟩

theorem FirstEnd.occurs {s : List α} {e : Nat} (h : FirstEnd delimiters s e) :
    Occurs delimiters s :=
  (occurs_iff_exists_take s).2 ⟨e, h.1, h.2.1⟩

theorem FirstEnd.unique {s : List α} {e₁ e₂ : Nat} (h₁ : FirstEnd delimiters s e₁)
    (h₂ : FirstEnd delimiters s e₂) : e₁ = e₂ := by
  rcases Nat.lt_trichotomy e₁ e₂ with hlt | heq | hgt
  · exact absurd h₁.2.1 (h₂.2.2 e₁ hlt)
  · exact heq
  · exact absurd h₂.2.1 (h₁.2.2 e₂ hgt)

/-- What comes behind a list changes nothing about where the first delimiter in it ends. -/
theorem FirstEnd.append {s : List α} {e : Nat} (h : FirstEnd delimiters s e) (t : List α) :
    FirstEnd delimiters (s ++ t) e := by
  obtain ⟨hle, hends, hfirst⟩ := h
  have htake : ∀ e' ≤ e, (s ++ t).take e' = s.take e' := fun e' he' =>
    List.take_append_of_le_length (he'.trans hle)
  refine ⟨?_, ?_, ?_⟩
  · rw [List.length_append]
    exact Nat.le_add_right_of_le hle
  · rw [htake e le_rfl]
    exact hends
  · intro e' he'
    rw [htake e' he'.le]
    exact hfirst e' he'

/-- A delimiter that ends within the old buffer occurs in it. -/
theorem occurs_of_endsWith_take {buffer new : List α} {e : Nat} (he : e ≤ buffer.length)
    (h : EndsWith delimiters ((buffer ++ new).take e)) : Occurs delimiters buffer := by
  rw [List.take_append_of_le_length he] at h
  exact (occurs_iff_exists_take buffer).2 ⟨e, he, h⟩

section Window

variable {buffer new : List α} {k : Nat} (hbound : ∀ d ∈ delimiters, d.length ≤ k + 1)

include hbound in
/-- A delimiter that ends in the new part lies within the window. -/
theorem endsWith_window {e : Nat} (he : buffer.length < e) (hlength : e ≤ (buffer ++ new).length)
    (h : EndsWith delimiters ((buffer ++ new).take e)) :
    EndsWith delimiters
      (((buffer ++ new).drop (buffer.length - k)).take (e - (buffer.length - k))) := by
  obtain ⟨d, hd, hsuffix⟩ := h
  refine ⟨d, hd, ?_⟩
  rw [← List.drop_take]
  rcases Nat.lt_or_ge k buffer.length with hk | hk
  · -- the window is longer than the delimiter
    refine List.suffix_of_suffix_length_le hsuffix (List.drop_suffix _ _) ?_
    have hd' := hbound d hd
    rw [List.length_drop, List.length_take]
    omega
  · rw [Nat.sub_eq_zero_of_le hk, List.drop_zero]
    exact hsuffix

theorem endsWith_of_window {b w : Nat} {s : List α}
    (h : EndsWith delimiters ((s.drop b).take w)) : EndsWith delimiters (s.take (b + w)) := by
  have hdrop : (s.drop b).take w = (s.take (b + w)).drop b := by
    rw [List.drop_take, Nat.add_sub_cancel_left]
  rw [hdrop] at h
  exact h.of_suffix (List.drop_suffix _ _)

include hbound in
/-- Looking at the window finds what looking at the whole buffer finds. -/
theorem firstEnd_window_iff (hno : ¬ Occurs delimiters buffer) (e : Nat) :
    FirstEnd delimiters (buffer ++ new) e ↔
      ∃ w, FirstEnd delimiters ((buffer ++ new).drop (buffer.length - k)) w ∧
        e = buffer.length - k + w := by
  have hlate : ∀ {e'}, EndsWith delimiters ((buffer ++ new).take e') → buffer.length < e' := by
    intro e' h
    by_contra hle
    exact hno (occurs_of_endsWith_take (Nat.le_of_not_lt hle) h)
  constructor
  · rintro ⟨hle, hends, hfirst⟩
    have hlt := hlate hends
    refine ⟨e - (buffer.length - k), ⟨?_, endsWith_window hbound hlt hle hends, ?_⟩, by omega⟩
    · rw [List.length_drop]
      omega
    · intro w hw hearlier
      exact hfirst _ (by omega) (endsWith_of_window hearlier)
  · rintro ⟨w, ⟨hle, hends, hfirst⟩, rfl⟩
    rw [List.length_drop] at hle
    have hends' := endsWith_of_window hends
    have hlt := hlate hends'
    refine ⟨by omega, hends', ?_⟩
    intro e' he' hearlier
    have hlt' := hlate hearlier
    refine hfirst (e' - (buffer.length - k)) (by omega) ?_
    exact endsWith_window hbound hlt' (by omega) hearlier

include hbound in
/-- The window has a delimiter when the grown buffer does. -/
theorem occurs_window_iff (hno : ¬ Occurs delimiters buffer) :
    Occurs delimiters ((buffer ++ new).drop (buffer.length - k)) ↔
      Occurs delimiters (buffer ++ new) := by
  constructor
  · rintro ⟨d, hd, hinside⟩
    exact ⟨d, hd, hinside.trans (List.drop_suffix _ _).isInfix⟩
  · intro h
    obtain ⟨e, hle, hends⟩ := (occurs_iff_exists_take _).1 h
    have hlt : buffer.length < e := by
      by_contra hge
      exact hno (occurs_of_endsWith_take (Nat.le_of_not_lt hge) hends)
    obtain ⟨d, hd, hsuffix⟩ := endsWith_window hbound hlt hle hends
    exact ⟨d, hd, hsuffix.isInfix.trans (List.take_prefix _ _).isInfix⟩

end Window

end Ferron.Lib.Delimiter
