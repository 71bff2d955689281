import Mathlib.Data.List.Basic

/-!
# Histories of events

A history is the list of the events of a run, the oldest first. `AbsentUntil` says that after an event
that opens there is none of some kind until one that closes: a run keeps this when it keeps `Tracks`,
which says in addition what holds while an opened event is not closed (`absentUntil_of_tracks`).
-/

set_option autoImplicit false

namespace Ferron.Lib.History

variable {ε : Type} (opens closes absent : ε → Prop)

/-- After an event that opens, no event is of the kind that is absent until one that closes. -/
def AbsentUntil (history : List ε) : Prop :=
  ∀ before first between last after, history = before ++ first :: (between ++ last :: after) →
    opens first → absent last → ∃ event ∈ between, closes event

/-- There is an event that closes, and no event before it is of the kind that is absent. -/
def Closed (events : List ε) : Prop :=
  ∃ before event after, events = before ++ event :: after ∧ closes event ∧
    ∀ other ∈ before, ¬absent other

/-- Every event that opens is closed, or it waits, and no event after it is of the kind that is
absent. -/
def Tracks (waits : Prop) (history : List ε) : Prop :=
  ∀ before first rest, history = before ++ first :: rest → opens first →
    (waits ∧ ∀ event ∈ rest, ¬absent event) ∨ Closed closes absent rest

variable {opens closes absent}

theorem Closed.append {events : List ε} (h : Closed closes absent events) (more : List ε) :
    Closed closes absent (events ++ more) := by
  obtain ⟨before, event, after, rfl, hcloses, hbefore⟩ := h
  exact ⟨before, event, after ++ more, by simp, hcloses, hbefore⟩

/-- Events that are not of the kind that is absent may come before. -/
theorem Closed.of_quiet {events : List ε} (h : Closed closes absent events) {quiet : List ε}
    (hquiet : ∀ event ∈ quiet, ¬absent event) : Closed closes absent (quiet ++ events) := by
  obtain ⟨before, event, after, rfl, hcloses, hbefore⟩ := h
  refine ⟨quiet ++ before, event, after, by simp, hcloses, ?_⟩
  intro other hother
  rcases List.mem_append.mp hother with hother | hother
  · exact hquiet other hother
  · exact hbefore other hother

theorem tracks_nil (waits : Prop) : Tracks opens closes absent waits [] := by
  intro before first rest h
  simp at h

theorem Tracks.mono {waits waits' : Prop} {history : List ε}
    (h : Tracks opens closes absent waits history) (himp : waits → waits') :
    Tracks opens closes absent waits' history :=
  fun before first rest heq hfirst =>
    (h before first rest heq hfirst).imp_left fun ⟨hwait, hrest⟩ => ⟨himp hwait, hrest⟩

/-- Events of which none opens follow: what waits goes on waiting without one that is absent, or it is
closed. -/
theorem Tracks.append {waits waits' : Prop} {history events : List ε}
    (h : Tracks opens closes absent waits history) (hopens : ∀ event ∈ events, ¬opens event)
    (hwaits : waits → (waits' ∧ ∀ event ∈ events, ¬absent event) ∨ Closed closes absent events) :
    Tracks opens closes absent waits' (history ++ events) := by
  intro before first rest heq hfirst
  rcases List.append_eq_append_iff.mp heq with ⟨old, rfl, hevents⟩ | ⟨old, rfl, hevents⟩
  · -- the event that opens would be a new one
    have hmem : first ∈ events := by
      rw [hevents]
      exact List.mem_append_right _ List.mem_cons_self
    exact absurd hfirst (hopens first hmem)
  · cases old with
    | nil =>
        have hmem : first ∈ events := by
          rw [List.nil_append] at hevents
          rw [← hevents]
          exact List.mem_cons_self
        exact absurd hfirst (hopens first hmem)
    | cons head old =>
        rw [List.cons_append, List.cons.injEq] at hevents
        obtain ⟨rfl, rfl⟩ := hevents
        rcases h before first old rfl hfirst with ⟨hwait, hold⟩ | hclosed
        · rcases hwaits hwait with ⟨hwait', hnew⟩ | hclosed
          · refine Or.inl ⟨hwait', fun event hevent => ?_⟩
            rcases List.mem_append.mp hevent with hevent | hevent
            · exact hold event hevent
            · exact hnew event hevent
          · exact Or.inr (hclosed.of_quiet hold)
        · exact Or.inr (hclosed.append events)

/-- An event follows where nothing waits: if it opens, it waits. -/
theorem Tracks.open {waits : Prop} {history : List ε} {event : ε}
    (h : Tracks opens closes absent False history) (hwaits : opens event → waits) :
    Tracks opens closes absent waits (history ++ [event]) := by
  intro before first rest heq hfirst
  rcases List.append_eq_append_iff.mp heq with ⟨old, rfl, hevents⟩ | ⟨old, rfl, hevents⟩
  · obtain ⟨-, hfirst', rfl⟩ : old = [] ∧ event = first ∧ rest = [] := by
      cases old with
      | nil => simpa [eq_comm] using hevents
      | cons head old => simp at hevents
    exact Or.inl ⟨hwaits (hfirst' ▸ hfirst), by simp⟩
  · cases old with
    | nil =>
        obtain ⟨hfirst', rfl⟩ : first = event ∧ rest = [] := by simpa using hevents
        exact Or.inl ⟨hwaits (hfirst' ▸ hfirst), by simp⟩
    | cons head old =>
        rw [List.cons_append, List.cons.injEq] at hevents
        obtain ⟨rfl, rfl⟩ := hevents
        rcases h before first old rfl hfirst with ⟨hwait, -⟩ | hclosed
        · exact hwait.elim
        · exact Or.inr (hclosed.append [event])

/-- When no event is both, an event of the kind that is absent comes after one that closes. -/
theorem Closed.exists_mem {between after : List ε} {last : ε}
    (h : Closed closes absent (between ++ last :: after)) (hlast : absent last)
    (hdisjoint : ∀ event, closes event → ¬absent event) : ∃ event ∈ between, closes event := by
  obtain ⟨before, event, rest, heq, hcloses, hbefore⟩ := h
  rcases List.append_eq_append_iff.mp heq with ⟨tail, rfl, htail⟩ | ⟨tail, rfl, htail⟩
  · cases tail with
    | nil =>
        -- the two would be the same event
        have hsame : last = event := by simpa using (List.cons.inj htail).1
        exact absurd hlast (hsame ▸ hdisjoint event hcloses)
    | cons head tail =>
        have hsame : last = head := (List.cons.inj htail).1
        refine absurd hlast (hbefore last ?_)
        rw [hsame]
        exact List.mem_append_right _ List.mem_cons_self
  · cases tail with
    | nil =>
        have hsame : event = last := by simpa using (List.cons.inj htail).1
        exact absurd hlast (hsame ▸ hdisjoint event hcloses)
    | cons head tail =>
        have hsame : event = head := (List.cons.inj htail).1
        refine ⟨event, ?_, hcloses⟩
        rw [hsame]
        exact List.mem_append_right _ List.mem_cons_self

/-- What a run keeps gives what its history should be. -/
theorem absentUntil_of_tracks {waits : Prop} {history : List ε}
    (h : Tracks opens closes absent waits history)
    (hdisjoint : ∀ event, closes event → ¬absent event) : AbsentUntil opens closes absent history := by
  intro before first between last after heq hfirst hlast
  rcases h before first _ heq hfirst with ⟨-, hrest⟩ | hclosed
  · have hmem : last ∈ between ++ last :: after := List.mem_append_right _ List.mem_cons_self
    exact absurd hlast (hrest last hmem)
  · exact hclosed.exists_mem hlast hdisjoint

end Ferron.Lib.History
