import Mathlib.Data.List.Induction
import Ferron.Rust.LinkedHashMap
import Ferron.Rust.Text

/-!
# Spans of a trace

The OTLP backend keeps the context of each span under its name. A new span has the last context in the
table as its parent, and the end of a span is looked up by the name.

A context stays in the table when its span ends. So the parent of a span is always the span that was started
before it, whether it is still open or not (`back_run`), and of two spans with one name only the later one is
ever ended. `nestsCorrectly_iff` says which signals make the spans nest as they should.
-/

set_option autoImplicit false

namespace Ferron.Observability.TraceSpans

/-! ## The backend -/

/-- `TraceSignal`. -/
inductive TraceSignal where
  | startSpan (name : Str)
  | endSpan (name : Str) (errorDescription : Option Str)

/-- `Context`, by the span in it. Spans are numbered in the order in which they are started. -/
abbrev Context := Option Nat

/-- What the tracer is told. -/
inductive Event where
  | started (span : Nat) (name : Str) (parent : Option Nat)
  | failed (span : Nat) (errorDescription : Str)
  | ended (span : Nat)
  deriving DecidableEq

/-- The state of the task for one request. -/
structure Backend where
  spans : LinkedHashMap Str Context
  created : Nat
  events : List Event

/-- The task before its first signal. -/
def Backend.new : Backend := ⟨.new, 0, []⟩

/-- `spans.back()`, or the context without a span. -/
def Backend.back (backend : Backend) : Context :=
  (backend.spans.entries.getLast?.map Prod.snd).getD none

/-- One pass of the loop. -/
def Backend.handle (backend : Backend) : TraceSignal → Backend
  | .startSpan span =>
      let spanContext := backend.back
      { spans := backend.spans.insert span (some backend.created)
        created := backend.created + 1
        events := backend.events ++ [.started backend.created span spanContext] }
  | .endSpan span errorDescription =>
      match backend.spans.get span with
      | some (some context) =>
          { backend with
            events := backend.events ++ (errorDescription.map (.failed context)).toList ++ [.ended context] }
      | _ => backend

/-- The loop. -/
def Backend.run (backend : Backend) (signals : List TraceSignal) : Backend :=
  signals.foldl Backend.handle backend

/-! ## Bracketed signals -/

/-- Spans one after the other, each with the spans in it and the description of its error. -/
inductive Spans where
  | nil
  | cons (name : Str) (errorDescription : Option Str) (inner rest : Spans)

namespace Spans

/-- The signals for the spans. -/
def signals : Spans → List TraceSignal
  | nil => []
  | cons name errorDescription inner rest =>
      .startSpan name :: (inner.signals ++ .endSpan name errorDescription :: rest.signals)

/-- The number of spans. -/
def size : Spans → Nat
  | nil => 0
  | cons _ _ inner rest => inner.size + rest.size + 1

/-- The spans in the order of their starts, each with the innermost one that is open then. -/
def parents (next : Nat) (parent : Option Nat) : Spans → List (Nat × Option Nat)
  | nil => []
  | cons _ _ inner rest =>
      (next, parent) :: (parents (next + 1) (some next) inner ++
        parents (next + 1 + inner.size) parent rest)

/-- The spans with the descriptions of their errors, in the order of their starts. -/
def named : Spans → List (Str × Option Str)
  | nil => []
  | cons name errorDescription inner rest => (name, errorDescription) :: (inner.named ++ rest.named)

/-- No span is started after another one has ended. -/
def IsChain : Spans → Prop
  | nil => True
  | cons _ _ inner rest => inner.IsChain ∧ rest = nil

end Spans

/-- The starts among the events. -/
def starts (events : List Event) : List (Nat × Option Nat) :=
  events.filterMap fun event =>
    match event with
    | .started span _ parent => some (span, parent)
    | _ => none

/-- Each span has the innermost open one as its parent, and is ended exactly once. -/
structure NestsCorrectly (spans : Spans) : Prop where
  parents : starts (Backend.new.run spans.signals).events = spans.parents 0 none
  ended : ∀ span < spans.size, (Backend.new.run spans.signals).events.count (Event.ended span) = 1

/-! ## The parent is the span before -/

/-- The span that was started before. -/
def previous : Nat → Option Nat
  | 0 => none
  | n + 1 => some n

/-- The spans that have been started, each with the one before it. -/
def inOrder (first count : Nat) : List (Nat × Option Nat) :=
  (List.range' first count).map fun span => (span, previous span)

theorem run_append (backend : Backend) (front back : List TraceSignal) :
    backend.run (front ++ back) = (backend.run front).run back := List.foldl_append

theorem starts_append (front back : List Event) : starts (front ++ back) = starts front ++ starts back :=
  List.filterMap_append

theorem inOrder_succ (first count : Nat) :
    inOrder first (count + 1) = inOrder first count ++ [(first + count, previous (first + count))] := by
  rw [inOrder, List.range'_1_concat, List.map_append]
  rfl

theorem inOrder_add (first front back : Nat) :
    inOrder first (front + back) = inOrder first front ++ inOrder (first + front) back := by
  rw [inOrder, ← List.range'_append_1, List.map_append]
  rfl

theorem back_handle (backend : Backend) (signal : TraceSignal) (h : backend.back = previous backend.created) :
    (backend.handle signal).back = previous (backend.handle signal).created := by
  cases signal with
  | startSpan name =>
      change (((backend.spans.insert name (some backend.created)).entries.getLast?.map Prod.snd).getD
        none) = some backend.created
      rw [LinkedHashMap.insert, List.getLast?_concat]
      rfl
  | endSpan name errorDescription =>
      rw [Backend.handle]
      split
      · exact h
      · exact h

theorem starts_handle (backend : Backend) (signal : TraceSignal)
    (hback : backend.back = previous backend.created)
    (h : starts backend.events = inOrder 0 backend.created) :
    starts (backend.handle signal).events = inOrder 0 (backend.handle signal).created := by
  cases signal with
  | startSpan name =>
      rw [Backend.handle]
      dsimp only
      rw [starts_append, h, inOrder_succ, hback, Nat.zero_add]
      rfl
  | endSpan name errorDescription =>
      rw [Backend.handle]
      split
      · dsimp only
        rw [starts_append, starts_append, h]
        cases errorDescription with
        | none => exact (List.append_nil _).trans (List.append_nil _)
        | some description => exact (List.append_nil _).trans (List.append_nil _)
      · exact h

/-- The last context in the table is that of the span that was started last. -/
theorem back_run (signals : List TraceSignal) :
    (Backend.new.run signals).back = previous (Backend.new.run signals).created ∧
      starts (Backend.new.run signals).events = inOrder 0 (Backend.new.run signals).created := by
  induction signals using List.reverseRecOn with
  | nil => exact ⟨rfl, rfl⟩
  | append_singleton signals signal ih =>
      rw [run_append]
      exact ⟨back_handle _ _ ih.1, starts_handle _ _ ih.1 ih.2⟩

theorem created_run (backend : Backend) (spans : Spans) :
    (backend.run spans.signals).created = backend.created + spans.size := by
  induction spans generalizing backend with
  | nil => rfl
  | cons name errorDescription inner rest ihInner ihRest =>
      have hend : ∀ backend : Backend,
          (backend.handle (.endSpan name errorDescription)).created = backend.created := by
        intro backend
        rw [Backend.handle]
        split
        · rfl
        · rfl
      change (((backend.handle (.startSpan name)).run
        (inner.signals ++ .endSpan name errorDescription :: rest.signals)).created) = _
      rw [run_append]
      change ((((backend.handle (.startSpan name)).run inner.signals).handle
        (.endSpan name errorDescription)).run rest.signals).created = _
      rw [ihRest, hend, ihInner, Spans.size]
      change backend.created + 1 + inner.size + rest.size = _
      omega

theorem Spans.length_parents (spans : Spans) (next : Nat) (parent : Option Nat) :
    (spans.parents next parent).length = spans.size := by
  induction spans generalizing next parent with
  | nil => rfl
  | cons name errorDescription inner rest ihInner ihRest =>
      rw [parents, List.length_cons, List.length_append, ihInner, ihRest, size]

/-- Every span is in the one before it if and only if no span is started after another one has ended. -/
theorem Spans.parents_eq_iff (spans : Spans) (next : Nat) :
    inOrder next spans.size = spans.parents next (previous next) ↔ spans.IsChain := by
  induction spans generalizing next with
  | nil => exact iff_of_true rfl trivial
  | cons name errorDescription inner rest ihInner _ =>
      have hsize : inner.size + rest.size + 1 = 1 + (inner.size + rest.size) := by omega
      have hinner := ihInner (next + 1)
      have hlength : (inOrder (next + 1) inner.size).length =
          (inner.parents (next + 1) (some next)).length := by
        rw [length_parents, inOrder, List.length_map, List.length_range']
      rw [size, hsize, inOrder_add, inOrder_add, parents]
      change (next, previous next) :: _ = _ ↔ _
      rw [List.cons_inj_right]
      have hsplit : inOrder (next + 1) inner.size ++ inOrder (next + 1 + inner.size) rest.size =
          inner.parents (next + 1) (some next) ++
            rest.parents (next + 1 + inner.size) (previous next) ↔
          inOrder (next + 1) inner.size = inner.parents (next + 1) (some next) ∧
            inOrder (next + 1 + inner.size) rest.size =
              rest.parents (next + 1 + inner.size) (previous next) :=
        ⟨fun heq => List.append_inj heq hlength, fun ⟨hfront, hback⟩ => by rw [hfront, hback]⟩
      refine hsplit.trans (and_congr hinner ?_)
      cases rest with
      | nil => exact iff_of_true rfl rfl
      | cons other error innerRest rest =>
          refine iff_of_false (fun heq => ?_) (fun heq => nomatch heq)
          -- the span before it is in the one before this list, or that one
          have hother : inOrder (next + 1 + inner.size) (innerRest.size + rest.size + 1) =
              (next + 1 + inner.size, previous (next + 1 + inner.size)) ::
                inOrder (next + 1 + inner.size + 1) (innerRest.size + rest.size) := rfl
          rw [size, hother, parents] at heq
          have hfirst : previous (next + 1 + inner.size) = previous next :=
            congrArg Prod.snd (List.cons.inj heq).1
          rw [Nat.add_right_comm] at hfirst
          cases next with
          | zero => nomatch hfirst
          | succ next =>
              have hspan : next + 1 + inner.size = next := Option.some.inj hfirst
              omega

/-! ## The ends -/

/-- The signals for spans that are each in the one before. -/
theorem Spans.signals_of_isChain {spans : Spans} (h : spans.IsChain) :
    spans.signals = spans.named.map (fun span => .startSpan span.1) ++
      spans.named.reverse.map fun span => .endSpan span.1 span.2 := by
  induction spans with
  | nil => rfl
  | cons name errorDescription inner rest ihInner _ =>
      obtain ⟨hinner, rfl⟩ := h
      rw [signals, ihInner hinner, named]
      simp [named, signals]

theorem Spans.length_named (spans : Spans) : spans.named.length = spans.size := by
  induction spans with
  | nil => rfl
  | cons name errorDescription inner rest ihInner ihRest =>
      rw [named, List.length_cons, List.length_append, ihInner, ihRest, size]

/-- The table after the starts of spans with these names: each name has one of its spans. -/
structure Holds (backend : Backend) (names : List Str) : Prop where
  created : backend.created = names.length
  named : ∀ name context, backend.spans.get name = some context →
    ∃ span, context = some span ∧ names[span]? = some name
  found : ∀ name ∈ names, ∃ span, backend.spans.get name = some (some span)
  notEnded : ∀ span, backend.events.count (Event.ended span) = 0

theorem Holds.start {backend : Backend} {names : List Str} (h : Holds backend names) (name : Str) :
    Holds (backend.handle (.startSpan name)) (names ++ [name]) := by
  have hget : ∀ other, (backend.handle (.startSpan name)).spans.get other =
      if other = name then some (some backend.created) else backend.spans.get other :=
    fun other => LinkedHashMap.get_insert _ _ _ _
  constructor
  · change backend.created + 1 = _
    rw [h.created, List.length_append, List.length_singleton]
  · intro other context hother
    rw [hget] at hother
    split at hother
    · next heq =>
        refine ⟨backend.created, (Option.some.inj hother).symm, ?_⟩
        rw [h.created, List.getElem?_concat_length, heq]
    · obtain ⟨span, hcontext, hspan⟩ := h.named other context hother
      refine ⟨span, hcontext, ?_⟩
      rw [List.getElem?_append_left (List.getElem?_eq_some_iff.1 hspan).1, hspan]
  · intro other hother
    by_cases heq : other = name
    · exact ⟨backend.created, by rw [hget, if_pos heq]⟩
    · have hmem : other ∈ names := by simpa [heq] using hother
      obtain ⟨span, hspan⟩ := h.found other hmem
      exact ⟨span, by rw [hget, if_neg heq, hspan]⟩
  · intro span
    change (backend.events ++ [Event.started backend.created name backend.back]).count (.ended span) = 0
    rw [List.count_append, h.notEnded]
    rfl

theorem holds_starts (names : List Str) : Holds (Backend.new.run (names.map .startSpan)) names := by
  induction names using List.reverseRecOn with
  | nil =>
      refine ⟨rfl, fun name context hget => ?_, fun name hmem => absurd hmem List.not_mem_nil, fun _ => rfl⟩
      nomatch hget
  | append_singleton names name ih =>
      rw [List.map_append, run_append]
      exact ih.start name

/-- An end is for the span that the table has for the name. -/
theorem count_ended_run (backend : Backend) (ends : List (Str × Option Str)) (span : Nat) :
    (backend.run (ends.map fun span => .endSpan span.1 span.2)).events.count (Event.ended span) =
      backend.events.count (Event.ended span) +
        ends.countP fun other => backend.spans.get other.1 = some (some span) := by
  induction ends generalizing backend with
  | nil => rfl
  | cons first ends ih =>
      change ((backend.handle (.endSpan first.1 first.2)).run _).events.count _ = _
      rw [ih, List.countP_cons]
      have hspans : (backend.handle (.endSpan first.1 first.2)).spans = backend.spans := by
        rw [Backend.handle]
        split
        · rfl
        · rfl
      have hevents : (backend.handle (.endSpan first.1 first.2)).events.count (Event.ended span) =
          backend.events.count (Event.ended span) +
            if backend.spans.get first.1 = some (some span) then 1 else 0 := by
        have hfailed : ∀ context,
            (first.2.map (Event.failed context)).toList.count (Event.ended span) = 0 := by
          intro context
          cases first.2 with
          | none => rfl
          | some description => rfl
        rw [Backend.handle]
        split
        · next context hget =>
            dsimp only
            rw [List.count_append, List.count_append, hfailed, hget, Nat.add_zero]
            by_cases heq : context = span
            · rw [heq, if_pos rfl, List.count_singleton_self]
            · rw [if_neg fun h => heq (Option.some.inj (Option.some.inj h)),
                List.count_singleton, if_neg]
              simpa using heq
        · next hnot => rw [if_neg (hnot span), Nat.add_zero]
      rw [hspans, hevents]
      simp only [decide_eq_true_eq]
      omega

/-- When every name has one of its spans, each span is that of a name exactly once if and only if the names
are distinct. -/
theorem Holds.countP_eq_one_iff {backend : Backend} {names : List Str} (h : Holds backend names) :
    (∀ span < names.length, (names.countP fun name => backend.spans.get name = some (some span)) = 1) ↔
      names.Nodup := by
  constructor
  · intro hcount
    rw [List.nodup_iff_getElem?_ne_getElem?]
    intro i j hij hj heq
    have hi := Nat.lt_trans hij hj
    obtain ⟨span, hspan⟩ := h.found names[i] (List.getElem_mem hi)
    rw [List.getElem?_eq_getElem hi, List.getElem?_eq_getElem hj, Option.some.injEq] at heq
    -- the table has one of the two spans only
    have honly : ∀ k (hk : k < names.length), names[k] = names[i] → k = span := by
      intro k hk hname
      have hpos : 0 < names.countP fun name => backend.spans.get name = some (some k) := by
        rw [hcount k hk]
        exact Nat.one_pos
      obtain ⟨name, -, hget⟩ := List.countP_pos_iff.1 hpos
      rw [decide_eq_true_eq] at hget
      obtain ⟨_, hother, hname'⟩ := h.named name _ hget
      rw [← Option.some.inj hother, List.getElem?_eq_getElem hk, hname, Option.some.injEq] at hname'
      rw [← hname', hspan] at hget
      exact (Option.some.inj (Option.some.inj hget)).symm
    have hsame := (honly i hi rfl).trans (honly j hj heq.symm).symm
    omega
  · intro hnodup span hspan
    have hiff : ∀ name ∈ names, (decide (backend.spans.get name = some (some span)) = true ↔
        (name == names[span]) = true) := by
      intro name hname
      rw [decide_eq_true_eq, beq_iff_eq]
      obtain ⟨other, hother⟩ := h.found name hname
      obtain ⟨_, hcontext, hindex⟩ := h.named name _ hother
      rw [← Option.some.inj hcontext] at hindex
      obtain ⟨hlt, hindex⟩ := List.getElem?_eq_some_iff.1 hindex
      rw [hother, Option.some.injEq, Option.some.injEq, ← hindex]
      constructor
      · rintro rfl
        rfl
      · exact fun heq => (List.Nodup.getElem_inj_iff hnodup).1 heq
    rw [List.countP_congr hiff]
    exact List.count_eq_one_of_mem hnodup (List.getElem_mem hspan)

/-! ## Spans that nest correctly -/

/-- **The spans nest as they should** if and only if no span is started after another one has ended and no
two spans have the same name. -/
theorem nestsCorrectly_iff (spans : Spans) :
    NestsCorrectly spans ↔ spans.IsChain ∧ (spans.named.map Prod.fst).Nodup := by
  have hcreated : (Backend.new.run spans.signals).created = spans.size := by
    rw [created_run]
    exact Nat.zero_add _
  have hparents : starts (Backend.new.run spans.signals).events = spans.parents 0 none ↔ spans.IsChain := by
    rw [(back_run spans.signals).2, hcreated]
    exact spans.parents_eq_iff 0
  have hended : spans.IsChain → ((∀ span < spans.size,
      (Backend.new.run spans.signals).events.count (Event.ended span) = 1) ↔
        (spans.named.map Prod.fst).Nodup) := by
    intro hchain
    have hholds := holds_starts (spans.named.map Prod.fst)
    rw [← hholds.countP_eq_one_iff, List.length_map, Spans.length_named]
    refine forall₂_congr fun span _ => ?_
    rw [Spans.signals_of_isChain hchain, run_append, count_ended_run, List.countP_reverse,
      List.countP_map]
    rw [List.map_map] at hholds
    rw [show (fun span : Str × Option Str => TraceSignal.startSpan span.1) = .startSpan ∘ Prod.fst from rfl,
      hholds.notEnded, Nat.zero_add, List.map_map]
    rfl
  constructor
  · intro h
    have hchain := hparents.1 h.parents
    exact ⟨hchain, (hended hchain).1 h.ended⟩
  · rintro ⟨hchain, hnodup⟩
    exact ⟨hparents.2 hchain, (hended hchain).2 hnodup⟩

/-- The request handlers of two modules. -/
def twoHandlers : Spans :=
  .cons "blocklist::request_handler".toList none .nil
    (.cons "static::request_handler".toList none .nil .nil)

/-- The second handler has the span of the first one, which has ended, as its parent. -/
theorem twoHandlers_nested :
    (Backend.new.run twoHandlers.signals).events =
        [.started 0 "blocklist::request_handler".toList none, .ended 0,
          .started 1 "static::request_handler".toList (some 0), .ended 1] ∧
      ¬NestsCorrectly twoHandlers := by
  have hevents : (Backend.new.run twoHandlers.signals).events =
      [.started 0 "blocklist::request_handler".toList none, .ended 0,
        .started 1 "static::request_handler".toList (some 0), .ended 1] := by decide
  refine ⟨hevents, fun h => ?_⟩
  have hparents := h.parents
  rw [hevents] at hparents
  exact absurd hparents (by decide)

end Ferron.Observability.TraceSpans
