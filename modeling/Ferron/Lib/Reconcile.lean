import Mathlib.Data.List.AList
import Mathlib.Data.List.Induction

/-!
# Resources that are reconciled with what is wanted

Resources are held under keys, in rounds. A round says for each key whether a resource is wanted. What is
held for a key and is to be kept is touched, what is missing is created, and the rest is given up. What is
held at the end was created in the round that began the last row of rounds that kept it
(`Runs.eq_some_iff`).

A `Pool` does this with tokens: a resource is created with a new token, and it is cancelled by its token when
it is given up. In a sound pool the resources that are not cancelled are the ones that are held
(`Pool.Sound.running_iff`), and a round of the pool is a round of what it holds (`Pool.resource_round`).
-/

set_option autoImplicit false

namespace Ferron.Lib.Reconcile

variable {α κ ρ ε : Type}

/-! ## Rounds -/

/-- What a round wants for a key: whether what is held is kept, and what is created if nothing is kept. There
is nothing to be created where that fails. -/
structure Request (ρ : Type) where
  kept : Bool
  fresh : Option ρ

/-- What a round wants. -/
abbrev Round (κ ρ : Type) := κ → Option (Request ρ)

/-- The resource after a round that wants one. -/
def Request.answer (request : Request ρ) (touch : ρ → ρ) (held : Option ρ) : Option ρ :=
  if request.kept then (held.map touch).or request.fresh else request.fresh

/-- What is held after a round. -/
def reconcile (touch : κ → ρ → ρ) (round : Round κ ρ) (held : κ → Option ρ) : κ → Option ρ :=
  fun key => (round key).bind fun request => request.answer (touch key) (held key)

section Runs

-- what an action does to a resource that it keeps, and what it wants after the actions before it
variable (touch : α → κ → ρ → ρ) (round : List α → α → Round κ ρ)

/-- What is held after some actions, when everything that was wanted was there or was created. -/
inductive Runs : List α → (κ → Option ρ) → Prop
  | nil : Runs [] fun _ => none
  | snoc {before : List α} {held : κ → Option ρ} (h : Runs before held) (action : α)
      (answered : ∀ key, (round before action key).isSome →
        (reconcile (touch action) (round before action) held key).isSome) :
      Runs (before ++ [action]) (reconcile (touch action) (round before action) held)

/-- The last action wants a resource for a key. -/
def WantsLast (actions : List α) (key : κ) : Prop :=
  ∃ before last, actions = before ++ [last] ∧ (round before last key).isSome

/-- An action keeps what is held for a key. -/
def Keeps (before : List α) (action : α) (key : κ) : Prop :=
  ∃ request ∈ round before action key, request.kept = true

/-- An action creates the resource for a key: it keeps none, or none was wanted before it. -/
def Creates (before : List α) (action : α) (key : κ) (resource : ρ) : Prop :=
  ∃ request ∈ round before action key, request.fresh = some resource ∧
    (request.kept = false ∨ ¬WantsLast round before key)

/-- An action creates a resource that all actions behind it keep. -/
def HeldSince (actions : List α) (key : κ) (resource : ρ) : Prop :=
  ∃ before first after created, actions = before ++ first :: after ∧
    Creates round before first key created ∧
    (∀ between later rest, after = between ++ later :: rest →
      Keeps round (before ++ first :: between) later key) ∧
    after.foldl (fun resource action => touch action key resource) created = resource

variable {touch round}

theorem wantsLast_append_iff (before : List α) (action : α) (key : κ) :
    WantsLast round (before ++ [action]) key ↔ (round before action key).isSome := by
  constructor
  · rintro ⟨before', last, heq, hwants⟩
    obtain ⟨rfl, hlast⟩ := List.append_inj' heq rfl
    rw [List.singleton_inj] at hlast
    rwa [hlast]
  · exact fun hwants => ⟨before, action, rfl, hwants⟩

/-- What the last action wants, where that depends on the action alone. -/
theorem wantsLast_iff {wants : α → Bool} {key : κ}
    (hwants : ∀ before action, (round before action key).isSome = wants action) (actions : List α) :
    WantsLast round actions key ↔ ∃ last ∈ actions.getLast?, wants last = true := by
  cases actions using List.reverseRecOn with
  | nil => simp [WantsLast]
  | append_singleton before last =>
      rw [wantsLast_append_iff, hwants]
      simp

/-- A resource is held when the last action wants one. -/
theorem Runs.isSome_iff {actions : List α} {held : κ → Option ρ} (h : Runs touch round actions held)
    (key : κ) : (held key).isSome ↔ WantsLast round actions key := by
  cases h with
  | nil =>
      constructor
      · exact fun hsome => absurd hsome Bool.false_ne_true
      · rintro ⟨before, last, heq, _⟩
        exact absurd heq.symm (by simp)
  | snoc _ action answered =>
      rw [wantsLast_append_iff]
      refine ⟨fun hsome => ?_, answered key⟩
      unfold reconcile at hsome
      cases hround : round _ action key with
      | none =>
          rw [hround] at hsome
          exact absurd hsome Bool.false_ne_true
      | some request => rfl

theorem Runs.of_concat {before : List α} {action : α} {after : κ → Option ρ}
    (h : Runs touch round (before ++ [action]) after) :
    ∃ held, Runs touch round before held ∧
      ∀ key, (round before action key).isSome →
        (reconcile (touch action) (round before action) held key).isSome := by
  generalize hactions : before ++ [action] = actions at h
  cases h with
  | nil => exact absurd hactions (by simp)
  | snoc h last answered =>
      obtain ⟨rfl, hlast⟩ := List.append_inj' hactions rfl
      rw [List.singleton_inj] at hlast
      subst hlast
      exact ⟨_, h, answered⟩

theorem Runs.of_append {before : List α} (after : List α) {held : κ → Option ρ}
    (h : Runs touch round (before ++ after) held) : ∃ held, Runs touch round before held := by
  induction after using List.reverseRecOn generalizing held with
  | nil => exact ⟨held, List.append_nil before ▸ h⟩
  | append_singleton after action ih =>
      rw [← List.append_assoc] at h
      obtain ⟨held', h', _⟩ := h.of_concat
      exact ih h'

/-- What an action wants and cannot keep it creates. -/
theorem Runs.fresh_isSome {before after : List α} {action : α} {held : κ → Option ρ}
    (h : Runs touch round (before ++ action :: after) held) {key : κ} {request : Request ρ}
    (hwants : round before action key = some request)
    (habsent : request.kept = false ∨ ¬WantsLast round before key) : request.fresh.isSome := by
  rw [List.append_cons] at h
  obtain ⟨held', h'⟩ := h.of_append after
  obtain ⟨held'', h'', hanswered⟩ := h'.of_concat
  have hsome := hanswered key (by rw [hwants]; rfl)
  rw [reconcile, hwants, Option.bind_some, Request.answer] at hsome
  rw [← h''.isSome_iff] at habsent
  cases hkept : request.kept with
  | false => rwa [hkept, if_neg Bool.false_ne_true] at hsome
  | true =>
      have hnone : held'' key = none := by simpa [hkept] using habsent
      rwa [hkept, if_pos rfl, hnone, Option.map_none, Option.none_or] at hsome

/-- An action keeps the resource, or it creates one. -/
theorem Runs.reconcile_eq_some_iff {before : List α} {held : κ → Option ρ}
    (h : Runs touch round before held) (action : α) (key : κ) (resource : ρ) :
    reconcile (touch action) (round before action) held key = some resource ↔
      (Keeps round before action key ∧ ∃ old, held key = some old ∧ touch action key old = resource) ∨
        Creates round before action key resource := by
  unfold reconcile Keeps Creates
  rw [← h.isSome_iff]
  cases hround : round before action key with
  | none => simp
  | some request =>
      cases hkept : request.kept <;> cases hold : held key <;> simp [Request.answer, hkept]

/-- The resource that is held at the end was created by the action that began the last row of actions that
kept it. -/
theorem Runs.eq_some_iff {actions : List α} {held : κ → Option ρ} (h : Runs touch round actions held)
    (key : κ) (resource : ρ) : held key = some resource ↔ HeldSince touch round actions key resource := by
  induction h generalizing resource with
  | nil => simp [HeldSince]
  | @snoc actions held h action _ ih =>
      rw [h.reconcile_eq_some_iff]
      constructor
      · rintro (⟨hkeeps, old, hold, rfl⟩ | hcreates)
        · obtain ⟨before, first, after, created, rfl, hcreates, hafter, rfl⟩ := (ih old).1 hold
          refine ⟨before, first, after ++ [action], created, by simp, hcreates, ?_, by simp⟩
          intro between later rest heq
          -- the action that keeps the resource is the last one, or an earlier one
          cases rest using List.reverseRecOn with
          | nil =>
              obtain ⟨rfl, hlast⟩ := List.append_inj' heq rfl
              rw [List.singleton_inj] at hlast
              rwa [← hlast]
          | append_singleton rest last =>
              have hsplit : after ++ [action] = (between ++ later :: rest) ++ [last] := by simpa using heq
              exact hafter between later rest (List.append_inj' hsplit rfl).1
        · exact ⟨actions, action, [], resource, rfl, hcreates, by simp, rfl⟩
      · rintro ⟨before, first, after, created, heq, hcreates, hafter, rfl⟩
        -- the action that creates the resource is the last one, or an earlier one
        cases after using List.reverseRecOn with
        | nil =>
            obtain ⟨rfl, hlast⟩ := List.append_inj' heq rfl
            rw [List.singleton_inj] at hlast
            rw [hlast]
            exact .inr hcreates
        | append_singleton after last =>
            have hsplit : actions ++ [action] = (before ++ first :: after) ++ [last] := by simpa using heq
            obtain ⟨rfl, hlast⟩ := List.append_inj' hsplit rfl
            rw [List.singleton_inj] at hlast
            subst hlast
            refine .inl ⟨hafter after action [] rfl, _, (ih _).2 ⟨before, first, after, created, rfl, hcreates,
              ?_, rfl⟩, ?_⟩
            · intro between later rest hbetween
              exact hafter between later (rest ++ [action]) (by simp [hbetween])
            · rw [List.foldl_append, List.foldl_cons, List.foldl_nil]

end Runs

/-! ## Pools -/

/-- Resources with tokens. The token of a resource is its place among the created ones. -/
structure Pool (κ ρ : Type) where
  created : List ρ
  cancelled : List Nat
  held : AList fun _ : κ => Nat

namespace Pool

/-- Before the first round. -/
def new : Pool κ ρ := ⟨[], [], ∅⟩

variable [DecidableEq κ]

/-- What is held for a key. -/
def resource (pool : Pool κ ρ) (key : κ) : Option ρ :=
  (pool.held.lookup key).bind fun token => pool.created[token]?

/-- The resource of a token is there and is not cancelled. -/
def Running (pool : Pool κ ρ) (token : Nat) : Prop := token < pool.created.length ∧ token ∉ pool.cancelled

/-- The resources that are not kept are cancelled and removed. -/
def release (pool : Pool κ ρ) (keep : κ → Bool) : Pool κ ρ :=
  let toRemove := pool.held.entries.filter fun entry => !keep entry.1
  { pool with
    cancelled := pool.cancelled ++ toRemove.map Sigma.snd
    held := toRemove.foldl (fun held entry => held.erase entry.1) pool.held }

/-- The resource of a key is touched, or it is created. -/
def visit (pool : Pool κ ρ) (key : κ) (touch : ρ → ρ) (create : Except ε ρ) : Except ε (Pool κ ρ) :=
  match pool.held.lookup key with
  | some token => .ok { pool with created := pool.created.modify token touch }
  | none =>
      create.map fun resource =>
        { pool with
          created := pool.created ++ [resource]
          held := pool.held.insert key pool.created.length }

/-- All that is wanted is visited. -/
def visitAll {ω : Type} (keyOf : ω → κ) (touch : ω → ρ → ρ) (create : ω → Except ε ρ)
    (pool : Pool κ ρ) (wanted : List ω) : Except ε (Pool κ ρ) :=
  wanted.foldlM (fun pool entry => pool.visit (keyOf entry) (touch entry) (create entry)) pool

/-- Each token is held for at most one key, and the tokens that are not held are cancelled. -/
structure Sound (pool : Pool κ ρ) : Prop where
  lt : ∀ key, ∀ token ∈ pool.held.lookup key, token < pool.created.length
  unique : ∀ key key' token, token ∈ pool.held.lookup key → token ∈ pool.held.lookup key' → key = key'
  cancelled_iff : ∀ token,
    token ∈ pool.cancelled ↔ token < pool.created.length ∧ ∀ key, token ∉ pool.held.lookup key

theorem sound_new : Sound (new : Pool κ ρ) where
  lt key token htoken := by simp [new] at htoken
  unique key key' token htoken := by simp [new] at htoken
  cancelled_iff token := by simp [new]

variable {pool : Pool κ ρ} {key : κ}

/-- The resources that run are the ones that are held. -/
theorem Sound.running_iff (h : pool.Sound) (token : Nat) :
    pool.Running token ↔ ∃ key, token ∈ pool.held.lookup key := by
  constructor
  · rintro ⟨hlt, hcancelled⟩
    rw [h.cancelled_iff] at hcancelled
    simpa [hlt] using hcancelled
  · rintro ⟨key, hheld⟩
    have hlt := h.lt key token hheld
    exact ⟨hlt, fun hcancelled => ((h.cancelled_iff token).1 hcancelled).2 key hheld⟩

/-- A token that is held stands for a resource. -/
theorem Sound.resource_isSome_iff (h : pool.Sound) (key : κ) :
    (pool.resource key).isSome ↔ (pool.held.lookup key).isSome := by
  unfold resource
  cases htoken : pool.held.lookup key with
  | none => rfl
  | some token =>
      rw [Option.bind_some, List.getElem?_eq_getElem (h.lt key token htoken)]
      rfl

/-! ### Release -/

theorem lookup_foldl_erase (entries : List (Sigma fun _ : κ => Nat))
    (held : AList fun _ : κ => Nat) (key : κ) :
    (entries.foldl (fun held entry => held.erase entry.1) held).lookup key =
      if key ∈ entries.map Sigma.fst then none else held.lookup key := by
  induction entries generalizing held with
  | nil => simp
  | cons entry entries ih =>
      rw [List.foldl_cons, ih]
      by_cases hkey : key = entry.1
      · rw [hkey]
        simp
      · have hmem : key ∈ (entry :: entries).map Sigma.fst ↔ key ∈ entries.map Sigma.fst := by
          rw [List.map_cons, List.mem_cons, or_iff_right hkey]
        simp only [hmem, AList.lookup_erase_ne hkey]

theorem mem_entries_iff (held : AList fun _ : κ => Nat) (key : κ) (token : Nat) :
    (⟨key, token⟩ : Sigma fun _ : κ => Nat) ∈ held.entries ↔ token ∈ held.lookup key :=
  AList.mem_lookup_iff.symm

theorem lookup_release (pool : Pool κ ρ) (keep : κ → Bool) (key : κ) :
    (pool.release keep).held.lookup key = if keep key then pool.held.lookup key else none := by
  rw [release, lookup_foldl_erase]
  cases hkeep : keep key with
  | true =>
      have hnot : key ∉ (pool.held.entries.filter fun entry => !keep entry.1).map Sigma.fst := by
        intro hmem
        obtain ⟨entry, hentry, rfl⟩ := List.mem_map.1 hmem
        have hdropped := (List.mem_filter.1 hentry).2
        rw [hkeep] at hdropped
        cases hdropped
      simp [hnot]
  | false =>
      cases htoken : pool.held.lookup key with
      | none => simp
      | some token =>
          have hentry := (mem_entries_iff pool.held key token).2 htoken
          have hmem : key ∈ (pool.held.entries.filter fun entry => !keep entry.1).map Sigma.fst :=
            List.mem_map.2 ⟨_, List.mem_filter.2 ⟨hentry, by simp [hkeep]⟩, rfl⟩
          simp [hmem]

theorem mem_cancelled_release (pool : Pool κ ρ) (keep : κ → Bool) (token : Nat) :
    token ∈ (pool.release keep).cancelled ↔
      token ∈ pool.cancelled ∨ ∃ key, keep key = false ∧ token ∈ pool.held.lookup key := by
  change token ∈ pool.cancelled ++ _ ↔ _
  rw [List.mem_append]
  refine or_congr_right ?_
  rw [List.mem_map]
  constructor
  · rintro ⟨⟨key, token'⟩, hentry, rfl⟩
    obtain ⟨hentry, hkeep⟩ := List.mem_filter.1 hentry
    exact ⟨key, by simpa using hkeep, (mem_entries_iff _ _ _).1 hentry⟩
  · rintro ⟨key, hkeep, htoken⟩
    exact ⟨⟨key, token⟩, List.mem_filter.2 ⟨(mem_entries_iff _ _ _).2 htoken, by simp [hkeep]⟩, rfl⟩

theorem Sound.release (h : pool.Sound) (keep : κ → Bool) : (pool.release keep).Sound := by
  have hof : ∀ key token, token ∈ (pool.release keep).held.lookup key ↔
      keep key = true ∧ token ∈ pool.held.lookup key := by
    intro key token
    rw [lookup_release]
    cases keep key <;> simp
  constructor
  · exact fun key token htoken => h.lt key token ((hof key token).1 htoken).2
  · exact fun key key' token htoken htoken' =>
      h.unique key key' token ((hof key token).1 htoken).2 ((hof key' token).1 htoken').2
  · intro token
    rw [mem_cancelled_release, h.cancelled_iff]
    simp only [hof]
    constructor
    · rintro (⟨hlt, hnone⟩ | ⟨key, hkeep, htoken⟩)
      · exact ⟨hlt, fun key' htoken' => hnone key' htoken'.2⟩
      · refine ⟨h.lt key token htoken, fun key' htoken' => ?_⟩
        rw [h.unique key key' token htoken htoken'.2, htoken'.1] at hkeep
        cases hkeep
    · rintro ⟨hlt, hnone⟩
      by_cases hsome : ∃ key, token ∈ pool.held.lookup key
      · obtain ⟨key, htoken⟩ := hsome
        refine .inr ⟨key, ?_, htoken⟩
        cases hkeep : keep key with
        | true => exact absurd ⟨hkeep, htoken⟩ (hnone key)
        | false => rfl
      · exact .inl ⟨hlt, fun key htoken => hsome ⟨key, htoken⟩⟩

theorem resource_release (pool : Pool κ ρ) (keep : κ → Bool) (key : κ) :
    (pool.release keep).resource key = if keep key then pool.resource key else none := by
  unfold resource
  rw [lookup_release]
  cases keep key <;> rfl

/-! ### Visits -/

section Visit

variable {after : Pool κ ρ} {touch : ρ → ρ} {create : Except ε ρ}

/-- A visit touches the resource of a token that is held, or it creates one with a new token. -/
theorem visit_cases (h : pool.visit key touch create = .ok after) :
    (∃ token ∈ pool.held.lookup key, after = { pool with created := pool.created.modify token touch }) ∨
      pool.held.lookup key = none ∧ ∃ resource, create = .ok resource ∧
        after = { pool with
          created := pool.created ++ [resource]
          held := pool.held.insert key pool.created.length } := by
  unfold visit at h
  cases htoken : pool.held.lookup key with
  | some token =>
      rw [htoken] at h
      exact .inl ⟨token, rfl, (Except.ok.inj h).symm⟩
  | none =>
      rw [htoken] at h
      cases hcreate : create with
      | error e =>
          rw [hcreate] at h
          cases h
      | ok resource =>
          rw [hcreate] at h
          exact .inr ⟨rfl, resource, rfl, (Except.ok.inj h).symm⟩

theorem Sound.visit (h : pool.Sound) (hvisit : pool.visit key touch create = .ok after) : after.Sound := by
  rcases visit_cases hvisit with ⟨token, htoken, rfl⟩ | ⟨hnew, resource, _, rfl⟩
  · constructor
    · intro other token' htoken'
      rw [List.length_modify]
      exact h.lt other token' htoken'
    · exact h.unique
    · intro token'
      rw [List.length_modify]
      exact h.cancelled_iff token'
  · have hof : ∀ other token, token ∈ (pool.held.insert key pool.created.length).lookup other ↔
        other = key ∧ token = pool.created.length ∨ other ≠ key ∧ token ∈ pool.held.lookup other := by
      intro other token
      by_cases hother : other = key
      · rw [hother, AList.lookup_insert]
        simp [eq_comm]
      · rw [AList.lookup_insert_ne hother]
        simp [hother]
    constructor
    · intro other token htoken
      rw [List.length_append, List.length_singleton]
      rcases (hof other token).1 htoken with ⟨_, rfl⟩ | ⟨_, htoken⟩
      · exact Nat.lt_succ_self _
      · exact Nat.lt_succ_of_lt (h.lt other token htoken)
    · intro other other' token htoken htoken'
      rcases (hof other token).1 htoken with ⟨hkey, heq⟩ | ⟨_, hold⟩ <;>
        rcases (hof other' token).1 htoken' with ⟨hkey', heq'⟩ | ⟨_, hold'⟩
      · exact hkey.trans hkey'.symm
      · exact absurd (h.lt other' token hold') (heq ▸ Nat.lt_irrefl _)
      · exact absurd (h.lt other token hold) (heq' ▸ Nat.lt_irrefl _)
      · exact h.unique other other' token hold hold'
    · intro token
      change token ∈ pool.cancelled ↔ token < (pool.created ++ [resource]).length ∧ _
      rw [h.cancelled_iff, List.length_append, List.length_singleton]
      simp only [hof]
      constructor
      · rintro ⟨hlt, hnone⟩
        refine ⟨Nat.lt_succ_of_lt hlt, fun other => ?_⟩
        rintro (⟨_, rfl⟩ | ⟨_, htoken⟩)
        · exact Nat.lt_irrefl _ hlt
        · exact hnone other htoken
      · rintro ⟨hlt, hnone⟩
        have hne : token ≠ pool.created.length := fun heq => hnone key (.inl ⟨rfl, heq⟩)
        refine ⟨Nat.lt_of_le_of_ne (Nat.le_of_lt_succ hlt) hne, fun other htoken => ?_⟩
        have hother : other ≠ key := by
          rintro rfl
          rw [hnew] at htoken
          cases htoken
        exact hnone other (.inr ⟨hother, htoken⟩)

/-- What a visit leaves for its key. -/
theorem resource_visit (h : pool.Sound) (hvisit : pool.visit key touch create = .ok after) :
    (∃ old, pool.resource key = some old ∧ after.resource key = some (touch old)) ∨
      pool.resource key = none ∧ ∃ resource, create = .ok resource ∧
        after.resource key = some resource := by
  rcases visit_cases hvisit with ⟨token, htoken, rfl⟩ | ⟨hnone, resource, hcreate, rfl⟩
  · have hlt := h.lt key token htoken
    refine .inl ⟨pool.created[token], ?_, ?_⟩
    · rw [resource, htoken, Option.bind_some, List.getElem?_eq_getElem]
    · rw [resource, htoken, Option.bind_some, List.getElem?_modify_eq,
        List.getElem?_eq_getElem (h.lt key token htoken), Option.map_eq_map, Option.map_some]
  · refine .inr ⟨?_, resource, hcreate, ?_⟩
    · rw [Pool.resource, hnone, Option.bind_none]
    · rw [Pool.resource, AList.lookup_insert, Option.bind_some]
      simp

/-- A visit leaves the other keys. -/
theorem resource_visit_of_ne (h : pool.Sound) {other : κ} (hother : other ≠ key)
    (hvisit : pool.visit key touch create = .ok after) : after.resource other = pool.resource other := by
  rcases visit_cases hvisit with ⟨token, htoken, rfl⟩ | ⟨hnone, resource, hcreate, rfl⟩
  · unfold Pool.resource
    cases htoken' : pool.held.lookup other with
    | none => rfl
    | some token' =>
        have hne : token ≠ token' := fun heq => hother (h.unique other key token' htoken' (heq ▸ htoken))
        exact List.getElem?_modify_ne touch _ hne
  · unfold Pool.resource
    rw [AList.lookup_insert_ne hother]
    cases htoken' : pool.held.lookup other with
    | none => rfl
    | some token' =>
        rw [Option.bind_some, Option.bind_some, List.getElem?_append_left (h.lt other token' htoken')]

end Visit

section VisitAll

variable {ω : Type} {keyOf : ω → κ} {touch : ω → ρ → ρ} {create : ω → Except ε ρ} {after : Pool κ ρ}

theorem visitAll_cons {entry : ω} {wanted : List ω}
    (h : visitAll keyOf touch create pool (entry :: wanted) = .ok after) :
    ∃ next, pool.visit (keyOf entry) (touch entry) (create entry) = .ok next ∧
      visitAll keyOf touch create next wanted = .ok after := by
  unfold visitAll at h
  rw [List.foldlM_cons] at h
  cases hvisit : pool.visit (keyOf entry) (touch entry) (create entry) with
  | error e =>
      rw [hvisit] at h
      cases h
  | ok next =>
      rw [hvisit] at h
      exact ⟨next, rfl, h⟩

theorem Sound.visitAll (h : pool.Sound) {wanted : List ω}
    (hvisit : visitAll keyOf touch create pool wanted = .ok after) : after.Sound := by
  induction wanted generalizing pool with
  | nil =>
      cases hvisit
      exact h
  | cons entry wanted ih =>
      obtain ⟨next, hnext, hrest⟩ := visitAll_cons hvisit
      exact ih (h.visit hnext) hrest

/-- What can be created is visited. -/
theorem exists_visitAll_ok (pool : Pool κ ρ) {wanted : List ω}
    (hcreate : ∀ entry ∈ wanted, ∃ resource, create entry = .ok resource) :
    ∃ after, visitAll keyOf touch create pool wanted = .ok after := by
  induction wanted generalizing pool with
  | nil => exact ⟨pool, rfl⟩
  | cons entry wanted ih =>
      have hvisit : ∃ next, pool.visit (keyOf entry) (touch entry) (create entry) = .ok next := by
        obtain ⟨resource, hresource⟩ := hcreate entry List.mem_cons_self
        rw [hresource]
        unfold visit
        cases pool.held.lookup (keyOf entry) with
        | none => exact ⟨_, rfl⟩
        | some token => exact ⟨_, rfl⟩
      obtain ⟨next, hnext⟩ := hvisit
      obtain ⟨after, hafter⟩ := ih next fun other hother => hcreate other (List.mem_cons_of_mem _ hother)
      refine ⟨after, ?_⟩
      unfold visitAll at hafter ⊢
      rw [List.foldlM_cons, hnext]
      exact hafter

/-- The keys that are not wanted are left. -/
theorem resource_visitAll_of_notMem (h : pool.Sound) {wanted : List ω}
    (hvisit : visitAll keyOf touch create pool wanted = .ok after) {key : κ}
    (hkey : ∀ entry ∈ wanted, keyOf entry ≠ key) : after.resource key = pool.resource key := by
  induction wanted generalizing pool with
  | nil =>
      cases hvisit
      rfl
  | cons entry wanted ih =>
      obtain ⟨next, hnext, hrest⟩ := visitAll_cons hvisit
      rw [ih (h.visit hnext) hrest fun other hother => hkey other (List.mem_cons_of_mem _ hother)]
      exact resource_visit_of_ne h (hkey entry List.mem_cons_self).symm hnext

/-- Each key that is wanted once is visited once. -/
theorem resource_visitAll (h : pool.Sound) {wanted : List ω}
    (hvisit : visitAll keyOf touch create pool wanted = .ok after)
    (hdistinct : (wanted.map keyOf).Nodup) {entry : ω} (hentry : entry ∈ wanted) :
    (∃ old, pool.resource (keyOf entry) = some old ∧
        after.resource (keyOf entry) = some (touch entry old)) ∨
      pool.resource (keyOf entry) = none ∧ ∃ resource, create entry = .ok resource ∧
        after.resource (keyOf entry) = some resource := by
  induction wanted generalizing pool with
  | nil => cases hentry
  | cons first wanted ih =>
      obtain ⟨next, hnext, hrest⟩ := visitAll_cons hvisit
      rw [List.map_cons, List.nodup_cons] at hdistinct
      rcases List.mem_cons.1 hentry with rfl | hentry
      · have hother : ∀ other ∈ wanted, keyOf other ≠ keyOf entry :=
          fun other hother heq => hdistinct.1 (List.mem_map.2 ⟨other, hother, heq⟩)
        rw [resource_visitAll_of_notMem (h.visit hnext) hrest hother]
        exact resource_visit h hnext
      · have hne : keyOf entry ≠ keyOf first :=
          fun heq => hdistinct.1 (List.mem_map.2 ⟨entry, hentry, heq⟩)
        rw [← resource_visit_of_ne h hne hnext]
        exact ih (h.visit hnext) hrest hdistinct.2 hentry

/-- A round of a pool: what is not kept is released, and what is wanted is visited. It is a round of what
the pool holds. -/
theorem resource_round (h : pool.Sound) (round : Round κ ρ) (touchKey : κ → ρ → ρ) {keep : κ → Bool}
    {wanted : List ω} (hvisit : visitAll keyOf touch create (pool.release keep) wanted = .ok after)
    (hdistinct : (wanted.map keyOf).Nodup)
    (hwanted : ∀ entry ∈ wanted, touchKey (keyOf entry) = touch entry ∧
      round (keyOf entry) = some ⟨keep (keyOf entry), (create entry).toOption⟩)
    (hunwanted : ∀ key, (∀ entry ∈ wanted, keyOf entry ≠ key) → round key = none ∧ keep key = false) :
    after.resource = reconcile touchKey round pool.resource ∧
      ∀ key, (round key).isSome → (after.resource key).isSome := by
  have hsound := h.release keep
  have hvisited : ∀ entry ∈ wanted, after.resource (keyOf entry) =
      reconcile touchKey round pool.resource (keyOf entry) ∧ (after.resource (keyOf entry)).isSome := by
    intro entry hentry
    obtain ⟨htouch, hround⟩ := hwanted entry hentry
    have hcases := resource_visitAll hsound hvisit hdistinct hentry
    rw [resource_release] at hcases
    rw [reconcile, hround, Option.bind_some, Request.answer, htouch]
    dsimp only
    rcases hcases with ⟨old, hold, hafter⟩ | ⟨hnone, resource, hcreate, hafter⟩
    · cases hkeep : keep (keyOf entry) with
      | false => simp [hkeep] at hold
      | true =>
          rw [hkeep, if_pos rfl] at hold
          simp [hafter, hold]
    · rw [hafter, hcreate]
      cases hkeep : keep (keyOf entry) with
      | false => simp [Except.toOption]
      | true =>
          rw [hkeep, if_pos rfl] at hnone
          simp [hnone, Except.toOption]
  have hrest : ∀ key, (∀ entry ∈ wanted, keyOf entry ≠ key) → after.resource key = none ∧
      round key = none := by
    intro key hnot
    obtain ⟨hround, hkeep⟩ := hunwanted key hnot
    rw [resource_visitAll_of_notMem hsound hvisit hnot, resource_release, hkeep]
    exact ⟨if_neg Bool.false_ne_true, hround⟩
  constructor
  · funext key
    by_cases hkey : ∃ entry ∈ wanted, keyOf entry = key
    · obtain ⟨entry, hentry, rfl⟩ := hkey
      exact (hvisited entry hentry).1
    · obtain ⟨hafter, hround⟩ := hrest key fun entry hentry heq => hkey ⟨entry, hentry, heq⟩
      rw [hafter, reconcile, hround, Option.bind_none]
  · intro key hsome
    by_cases hkey : ∃ entry ∈ wanted, keyOf entry = key
    · obtain ⟨entry, hentry, rfl⟩ := hkey
      exact (hvisited entry hentry).2
    · rw [(hrest key fun entry hentry heq => hkey ⟨entry, hentry, heq⟩).2] at hsome
      exact absurd hsome Bool.false_ne_true

end VisitAll

end Pool

end Ferron.Lib.Reconcile
