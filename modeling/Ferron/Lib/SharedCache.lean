import Mathlib.Data.List.Basic
import Mathlib.Tactic

/-!
# Programs that share caches

A program looks up keys and stores values, and in the end gives a result. Any number of programs run
at the same time on the same caches, one operation at a time in any order. What a program gives when
every lookup misses is its fresh result.

A program is sound when what it stores under a key is a value for that key, and when it gives its
fresh result whatever values of this kind it finds. `results_eq_fresh` says that then, as long as
what a lookup finds was stored by a request that agrees on the key, every result is the fresh one.
-/

set_option autoImplicit false

namespace Ferron.Lib.SharedCache

/-- A program with cache operations. -/
inductive Program (κ : Type) (ν : κ → Type) (β : Type) where
  | done (result : β)
  | lookup (key : κ) (next : Option (ν key) → Program κ ν β)
  | store (key : κ) (value : ν key) (next : Program κ ν β)

/-- Caches that find under a key at most what was stored there last, and only as long as it is
alive. -/
structure Caches (κ : Type) (ν : κ → Type) where
  State : Type
  empty : State
  /-- What a lookup finds at a time. -/
  find : State → Nat → (key : κ) → Option (ν key)
  store : State → Nat → (key : κ) → ν key → State
  /-- What was stored at the first time is alive at the second one. -/
  Alive : Nat → Nat → Prop
  find_empty : ∀ now key, find empty now key = none
  find_store : ∀ (state : State) (stored : Nat) (key : κ) (value : ν key) (now : Nat) (key' : κ)
    (value' : ν key'), find (store state stored key value) now key' = some value' →
      (⟨key', value'⟩ : Sigma ν) = ⟨key, value⟩ ∧ Alive stored now ∨
        key' ≠ key ∧ find state now key' = some value'

variable {κ : Type} {ν : κ → Type} {β ρ : Type}

namespace Program

/-- The result when every lookup misses. -/
def fresh : Program κ ν β → β
  | done result => result
  | lookup _ next => (next none).fresh
  | store _ _ next => next.fresh

/-- The result when the lookups find what is given. -/
def answer (find : (key : κ) → Option (ν key)) : Program κ ν β → β
  | done result => result
  | lookup key next => (next (find key)).answer find
  | store _ _ next => next.answer find

/-- A value that is looked up, or else computed and stored, and then used. -/
def cached (key : κ) (compute : Except β (ν key)) (use : ν key → β) : Program κ ν β :=
  lookup key fun
    | some value => done (use value)
    | none =>
        match compute with
        | .error result => done result
        | .ok value => store key value (done (use value))

/-- A value that is found is used. -/
theorem answer_cached_of_some {find : (key : κ) → Option (ν key)} {key : κ} {value : ν key}
    (h : find key = some value) (compute : Except β (ν key)) (use : ν key → β) :
    (cached key compute use).answer find = use value := by
  rw [cached.eq_def, answer, h, answer]

/-- Otherwise one is computed. -/
theorem answer_cached_of_none {find : (key : κ) → Option (ν key)} {key : κ} (h : find key = none)
    (compute : Except β (ν key)) (use : ν key → β) :
    (cached key compute use).answer find =
      match compute with
      | .error result => result
      | .ok value => use value := by
  rw [cached.eq_def, answer, h]
  cases compute with
  | error result => rfl
  | ok value => rfl

/-- The program of a request stores values for its keys, and gives an outcome whatever values for
its keys it finds from requests that agree. -/
def Sound (puts : ρ → (key : κ) → ν key → Prop) (agree : ρ → ρ → κ → Prop) (request : ρ)
    (outcome : β) : Program κ ν β → Prop
  | done result => result = outcome
  | lookup key next =>
      Sound puts agree request outcome (next none) ∧
        ∀ (owner : ρ) (value : ν key), agree request owner key → puts owner key value →
          Sound puts agree request outcome (next (some value))
  | store key value next => puts request key value ∧ Sound puts agree request outcome next

/-- A lookup is sound when what the request computes is a value for the key, and when it would compute
itself what it finds. -/
theorem cached_sound {puts : ρ → (key : κ) → ν key → Prop} {agree : ρ → ρ → κ → Prop} {request : ρ}
    {key : κ} {compute : Except β (ν key)} {use : ν key → β}
    (hput : ∀ value, compute = .ok value → puts request key value)
    (hfound : ∀ owner value, agree request owner key → puts owner key value →
      compute = .ok value) :
    (cached key compute use).Sound puts agree request (cached key compute use).fresh := by
  rw [cached.eq_def, fresh]
  cases hcompute : compute with
  | error result =>
      refine ⟨rfl, ?_⟩
      intro owner value hagree hputs
      exact absurd (hcompute.symm.trans (hfound owner value hagree hputs)) (by simp)
  | ok computed =>
      refine ⟨⟨hput computed hcompute, rfl⟩, ?_⟩
      intro owner value hagree hputs
      obtain rfl := Except.ok.inj (hcompute.symm.trans (hfound owner value hagree hputs))
      rfl

end Program

/-- A request has stored something under a key at a time. -/
structure Stored (κ ρ : Type) where
  request : ρ
  key : κ
  time : Nat

/-- The state of a run: the caches, what has been stored so far with the newest first, the programs
that are running and the results that have been given. -/
structure RunState (caches : Caches κ ν) (ρ β : Type) where
  cache : caches.State
  stores : List (Stored κ ρ)
  running : List (ρ × Program κ ν β)
  results : List (ρ × β)

/-- A request comes in, or a running program does its next operation. -/
inductive Action (ρ : Type) where
  | start (request : ρ)
  | resume (index now : Nat)

section Runs

variable [DecidableEq κ] {caches : Caches κ ν} (program : ρ → Program κ ν β)

/-- No request has come in. -/
def initial : RunState caches ρ β := ⟨caches.empty, [], [], []⟩

/-- What was stored last under a key. -/
def lastStored (stores : List (Stored κ ρ)) (key : κ) : Option (Stored κ ρ) :=
  stores.find? fun stored => stored.key = key

/-- One action. -/
def step (state : RunState caches ρ β) : Action ρ → RunState caches ρ β
  | .start request => { state with running := state.running ++ [(request, program request)] }
  | .resume index now =>
      match state.running[index]? with
      | none => state
      | some (request, .done result) =>
          { state with
            running := state.running.eraseIdx index
            results := state.results ++ [(request, result)] }
      | some (request, .lookup key next) =>
          { state with
            running := state.running.set index (request, next (caches.find state.cache now key)) }
      | some (request, .store key value next) =>
          { state with
            cache := caches.store state.cache now key value
            stores := ⟨request, key, now⟩ :: state.stores
            running := state.running.set index (request, next) }

/-- A run. -/
def run (state : RunState caches ρ β) (actions : List (Action ρ)) : RunState caches ρ β :=
  actions.foldl (step program) state

/-- An action agrees when a lookup finds only what a request that agrees has stored: if what was
stored last under the key is still alive, its request agrees on the key. -/
def Agrees (agree : ρ → ρ → κ → Prop) (state : RunState caches ρ β) : Action ρ → Prop
  | .start _ => True
  | .resume index now =>
      match state.running[index]? with
      | some (request, .lookup key _) =>
          ∀ stored ∈ lastStored state.stores key, caches.Alive stored.time now →
            agree request stored.request key
      | _ => True

/-- Every action of a run agrees. -/
def AllAgree (agree : ρ → ρ → κ → Prop) (state : RunState caches ρ β) : List (Action ρ) → Prop
  | [] => True
  | action :: actions =>
      Agrees agree state action ∧ AllAgree agree (step program state action) actions

/-- What is found has been stored last, it is a value for its key, and it is alive; the running
programs are sound, and the results are fresh. -/
structure Inv (puts : ρ → (key : κ) → ν key → Prop) (agree : ρ → ρ → κ → Prop)
    (state : RunState caches ρ β) : Prop where
  found : ∀ now key value, caches.find state.cache now key = some value →
    ∃ stored ∈ lastStored state.stores key,
      puts stored.request key value ∧ caches.Alive stored.time now
  sound : ∀ entry ∈ state.running, entry.2.Sound puts agree entry.1 (program entry.1).fresh
  fresh : ∀ entry ∈ state.results, entry.2 = (program entry.1).fresh

variable {program} {puts : ρ → (key : κ) → ν key → Prop} {agree : ρ → ρ → κ → Prop}

theorem inv_initial : Inv program puts agree (initial : RunState caches ρ β) where
  found now key value h := by
    rw [initial, caches.find_empty] at h
    exact absurd h (by simp)
  sound _ h := absurd h List.not_mem_nil
  fresh _ h := absurd h List.not_mem_nil

omit [DecidableEq κ] in
/-- Replacing a running program keeps the others. -/
theorem sound_set {running : List (ρ × Program κ ν β)} {index : Nat} {request : ρ}
    {next : Program κ ν β}
    (hrunning : ∀ entry ∈ running, entry.2.Sound puts agree entry.1 (program entry.1).fresh)
    (hnext : next.Sound puts agree request (program request).fresh) :
    ∀ entry ∈ running.set index (request, next),
      entry.2.Sound puts agree entry.1 (program entry.1).fresh := by
  intro entry hentry
  rcases List.mem_or_eq_of_mem_set hentry with hold | rfl
  · exact hrunning entry hold
  · exact hnext

/-- What is found after storing. -/
theorem found_store {state : RunState caches ρ β} (h : Inv program puts agree state) {request : ρ}
    {key : κ} {value : ν key} (hput : puts request key value) (stored now : Nat) (key' : κ)
    (value' : ν key')
    (hfind : caches.find (caches.store state.cache stored key value) now key' = some value') :
    ∃ entry ∈ lastStored (⟨request, key, stored⟩ :: state.stores) key',
      puts entry.request key' value' ∧ caches.Alive entry.time now := by
  rcases caches.find_store _ _ _ _ _ _ _ hfind with ⟨hsame, halive⟩ | ⟨hne, hold⟩
  · obtain ⟨rfl, hvalue⟩ := Sigma.mk.inj hsame
    rw [eq_of_heq hvalue]
    exact ⟨⟨request, key', stored⟩, by simp [lastStored], hput, halive⟩
  · obtain ⟨entry, hentry, hputs, halive⟩ := h.found now key' value' hold
    refine ⟨entry, ?_, hputs, halive⟩
    rw [lastStored, List.find?_cons, decide_eq_false (Ne.symm hne)]
    exact hentry

/-- An action that agrees keeps the invariant. -/
theorem Inv.step
    (hprogram : ∀ request,
      (program request).Sound puts agree request (program request).fresh)
    {state : RunState caches ρ β} (h : Inv program puts agree state) {action : Action ρ}
    (hagrees : Agrees agree state action) :
    Inv program puts agree (step program state action) := by
  cases action with
  | start request =>
      refine ⟨h.found, ?_, h.fresh⟩
      intro entry hentry
      rcases List.mem_append.1 hentry with hold | hnew
      · exact h.sound entry hold
      · rw [List.mem_singleton.1 hnew]
        exact hprogram request
  | resume index now =>
      rw [SharedCache.step]
      rw [Agrees] at hagrees
      cases hentry : state.running[index]? with
      | none => exact h
      | some entry =>
          obtain ⟨request, current⟩ := entry
          have hsound := h.sound _ (List.mem_of_getElem? hentry)
          rw [hentry] at hagrees
          cases current with
          | done outcome =>
              refine ⟨h.found, ?_, ?_⟩
              · intro entry hmem
                exact h.sound entry (List.mem_of_mem_eraseIdx hmem)
              · intro entry hmem
                rcases List.mem_append.1 hmem with hold | hnew
                · exact h.fresh entry hold
                · rw [List.mem_singleton.1 hnew]
                  exact hsound
          | lookup key next =>
              refine ⟨h.found, sound_set h.sound ?_, h.fresh⟩
              cases hfind : caches.find state.cache now key with
              | none => exact hsound.1
              | some value =>
                  -- what is found was stored last, by a request that agrees
                  obtain ⟨stored, hstored, hputs, halive⟩ := h.found now key value hfind
                  exact hsound.2 stored.request value (hagrees stored hstored halive) hputs
          | store key value next =>
              refine ⟨?_, sound_set h.sound hsound.2, h.fresh⟩
              intro now' key' value' hfind
              exact found_store h hsound.1 now now' key' value' hfind

/-- A run whose actions agree keeps the invariant. -/
theorem Inv.run
    (hprogram : ∀ request,
      (program request).Sound puts agree request (program request).fresh)
    {actions : List (Action ρ)} {state : RunState caches ρ β} (h : Inv program puts agree state)
    (hagrees : AllAgree program agree state actions) :
    Inv program puts agree (run program state actions) := by
  induction actions generalizing state with
  | nil => exact h
  | cons action actions ih =>
      rw [SharedCache.run, List.foldl_cons]
      exact ih (h.step hprogram hagrees.1) hagrees.2

/-- In a run whose actions agree, every result of a sound program is its fresh one. -/
theorem results_eq_fresh
    (hprogram : ∀ request,
      (program request).Sound puts agree request (program request).fresh)
    {actions : List (Action ρ)}
    (hagrees : AllAgree program agree (initial : RunState caches ρ β) actions) :
    ∀ entry ∈ (run program (initial : RunState caches ρ β) actions).results,
      entry.2 = (program entry.1).fresh := by
  intro entry hentry
  exact (inv_initial.run hprogram hagrees).fresh entry hentry

end Runs

end Ferron.Lib.SharedCache
