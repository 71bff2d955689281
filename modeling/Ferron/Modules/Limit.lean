import Ferron.Common.IpBlockList
import Ferron.Lib.Registry
import Ferron.Lib.Run
import Ferron.Lib.TokenBucket
import Mathlib.Data.NNRat.Defs

/-!
# Rate limits

Each client address has a token bucket. A request looks for the bucket under a read lock; when there is
none it makes one, waits for the write lock and puts it into the map. Then it waits for the lock of the
bucket and takes a token from it. The requests take these steps in any order, and any time may pass
before each of them.

`admitted_le` says that the rate limit holds, and that all requests of a client draw from one bucket,
in every run in which no request puts a bucket into the map after another one of its client has got one.
-/

set_option autoImplicit false

namespace Ferron.Modules.Limit

open Ferron.Common (IpAddr)
open Ferron.Lib.Registry Ferron.Lib.Run Ferron.Lib.TokenBucket

/-- Where a request is: it looks for its bucket, it waits for the write lock with a bucket that it has
made, it waits for the lock of a bucket, or it has been answered. -/
inductive Phase where
  | lookingUp
  | inserting (tokenBucket : Nat)
  | acquiring (tokenBucket : Nat)
  | answered (responseStatus : Option Nat)

/-- A request: the client address, and where its handler is. -/
structure Handler where
  remoteIp : IpAddr
  phase : Phase

/-- A request has asked a bucket for a token. -/
structure Acquisition where
  remoteIp : IpAddr
  tokenBucket : Nat
  time : ℚ
  admitted : Bool

/-- The map, all buckets that have been made, the requests so far, what they have asked for, and the
time. -/
structure State (β : Type) where
  tokenBuckets : HashMap IpAddr Nat
  buckets : List β
  handlers : List Handler
  acquisitions : List Acquisition
  now : ℚ

/-- A request arrives, or its handler goes on after some time, or it is dropped. -/
inductive Action where
  | request (remoteIp : IpAddr)
  | resume (index : Nat) (wait : ℚ≥0)
  | drop (index : Nat)

section Model

variable {β : Type} (library : Buckets ℚ β)

/-- A step of `request_handler`. -/
def handlerStep (state : State β) (index : Nat) (handler : Handler) : State β :=
  match handler.phase with
  | .lookingUp =>
      match state.tokenBuckets.lookup handler.remoteIp with
      | some tokenBucket =>
          { state with
            handlers := state.handlers.set index ⟨handler.remoteIp, .acquiring tokenBucket⟩ }
      | none =>
          -- the new bucket is not in the map yet
          { state with
            buckets := state.buckets ++ [library.new state.now]
            handlers := state.handlers.set index
              ⟨handler.remoteIp, .inserting state.buckets.length⟩ }
  | .inserting tokenBucket =>
      { state with
        tokenBuckets := state.tokenBuckets.insert handler.remoteIp tokenBucket
        handlers := state.handlers.set index ⟨handler.remoteIp, .acquiring tokenBucket⟩ }
  | .acquiring tokenBucket =>
      match state.buckets[tokenBucket]? with
      | none => state
      | some bucket =>
          let acquired := library.acquire bucket state.now 1
          { state with
            buckets := state.buckets.set tokenBucket acquired.2
            handlers := state.handlers.set index
              ⟨handler.remoteIp, .answered (if acquired.1 then none else some 429)⟩
            acquisitions := state.acquisitions ++
              [⟨handler.remoteIp, tokenBucket, state.now, acquired.1⟩] }
  | .answered _ => state

/-- The server after an action. -/
def step (state : State β) : Action → State β
  | .request remoteIp => { state with handlers := state.handlers ++ [⟨remoteIp, .lookingUp⟩] }
  | .resume index wait =>
      let state := { state with now := state.now + wait }
      match state.handlers[index]? with
      | none => state
      | some handler => handlerStep library state index handler
  | .drop index => { state with handlers := state.handlers.eraseIdx index }

end Model

/-- The server before the first request. -/
def init {β : Type} : State β := ⟨∅, [], [], [], 0⟩

variable {β : Type}

/-- The times at which requests of a client have been admitted. -/
def State.admissions (state : State β) (remoteIp : IpAddr) : List ℚ :=
  (state.acquisitions.filter fun acquisition =>
    acquisition.remoteIp = remoteIp ∧ acquisition.admitted).map Acquisition.time

/-- A request of a client has got the bucket: it waits for it or has drawn from it. -/
def State.HasGot (state : State β) (remoteIp : IpAddr) (tokenBucket : Nat) : Prop :=
  ⟨remoteIp, .acquiring tokenBucket⟩ ∈ state.handlers ∨
    ∃ acquisition ∈ state.acquisitions,
      acquisition.remoteIp = remoteIp ∧ acquisition.tokenBucket = tokenBucket

/-- A request puts a bucket into the map only when none of its client has got one. -/
def InsertsFirst (state : State β) : Action → Prop
  | .resume index _ => ∀ remoteIp tokenBucket,
      state.handlers[index]? = some ⟨remoteIp, .inserting tokenBucket⟩ →
        ∀ other, ¬state.HasGot remoteIp other
  | _ => True

/-! ## What every step keeps -/

section Invariant

variable {library : Buckets ℚ β} {rate burst : ℚ}

/-- The buckets in the map are those that the requests have got, and their levels are what the grants to
their clients have left. -/
structure Inv (meter : Meter library rate burst) (state : State β) : Prop where
  coherent : Coherent (fun remoteIp => state.tokenBuckets.lookup remoteIp) state.HasGot
  made : ∀ bucket ∈ state.buckets, meter.Made bucket
  inserted : ∀ remoteIp tokenBucket, ⟨remoteIp, .inserting tokenBucket⟩ ∈ state.handlers →
    tokenBucket < state.buckets.length
  metered : ∀ remoteIp tokenBucket, state.tokenBuckets.lookup remoteIp = some tokenBucket →
    ∃ bucket, state.buckets[tokenBucket]? = some bucket ∧
      Metered rate burst state.now (meter.level bucket state.now) (state.admissions remoteIp)

/-- A handler that is there after one of them has changed was there before, or is the changed one. -/
theorem hasGot_of_set (state : State β) {index : Nat} {handler : Handler} {remoteIp : IpAddr}
    {tokenBucket : Nat}
    (h : { state with handlers := state.handlers.set index handler }.HasGot remoteIp tokenBucket) :
    state.HasGot remoteIp tokenBucket ∨ handler = ⟨remoteIp, .acquiring tokenBucket⟩ := by
  rcases h with hwaits | hdrew
  · rcases List.mem_or_eq_of_mem_set hwaits with hold | hnew
    · exact Or.inl (Or.inl hold)
    · exact Or.inr hnew.symm
  · exact Or.inl (Or.inr hdrew)

/-- A client whose requests have got no bucket has not been admitted. -/
theorem admissions_eq_nil {state : State β} {remoteIp : IpAddr}
    (h : ∀ tokenBucket, ¬state.HasGot remoteIp tokenBucket) : state.admissions remoteIp = [] := by
  rw [State.admissions, List.map_eq_nil_iff, List.filter_eq_nil_iff]
  intro acquisition hmem
  simp only [decide_eq_true_eq, not_and]
  intro hremoteIp
  exact absurd (Or.inr ⟨acquisition, hmem, hremoteIp, rfl⟩) (h acquisition.tokenBucket)

namespace Inv

variable {meter : Meter library rate burst} {state : State β}

theorem init : Inv meter (init : State β) where
  coherent := by
    rintro remoteIp tokenBucket (hwaits | ⟨acquisition, hmem, -⟩)
    · exact absurd hwaits List.not_mem_nil
    · exact absurd hmem List.not_mem_nil
  made _ h := absurd h List.not_mem_nil
  inserted _ _ h := absurd h List.not_mem_nil
  metered _ _ h := absurd h (by simp [Limit.init])

/-- Time passes. -/
theorem wait (h : Inv meter state) (hrate : 0 ≤ rate) (wait : ℚ≥0) :
    Inv meter { state with now := state.now + wait } where
  coherent := h.coherent
  made := h.made
  inserted := h.inserted
  metered remoteIp tokenBucket hlookup := by
    obtain ⟨bucket, hbucket, hmetered⟩ := h.metered remoteIp tokenBucket hlookup
    have hmade := h.made bucket (List.mem_of_getElem? hbucket)
    have hlater : state.now ≤ state.now + wait := le_add_of_nonneg_right wait.2
    exact ⟨bucket, hbucket, hmetered.wait hrate hlater (meter.level_le _ _ hmade)
      (meter.level_wait _ _ _ hmade hlater)⟩

/-- Handlers may come and go, when none of them gets a bucket. -/
theorem of_handlers (h : Inv meter state) {handlers : List Handler}
    (hless : ∀ handler ∈ handlers, handler ∈ state.handlers ∨ handler.phase = .lookingUp) :
    Inv meter { state with handlers := handlers } where
  coherent := by
    apply h.coherent.mono
    rintro remoteIp tokenBucket (hwaits | hdrew)
    · rcases hless _ hwaits with hold | hnew
      · exact Or.inl hold
      · exact absurd hnew (by simp)
    · exact Or.inr hdrew
  made := h.made
  inserted remoteIp tokenBucket hmem := by
    rcases hless _ hmem with hold | hnew
    · exact h.inserted remoteIp tokenBucket hold
    · exact absurd hnew (by simp)
  metered := h.metered

/-- A request finds the bucket of its client. -/
theorem found (h : Inv meter state) (index : Nat) {remoteIp : IpAddr} {tokenBucket : Nat}
    (hlookup : state.tokenBuckets.lookup remoteIp = some tokenBucket) :
    Inv meter { state with
      handlers := state.handlers.set index ⟨remoteIp, .acquiring tokenBucket⟩ } where
  coherent := by
    apply h.coherent.take hlookup
    intro other otherBucket hgot
    rcases hasGot_of_set state hgot with hold | hnew
    · exact Or.inl hold
    · obtain ⟨rfl, hphase⟩ := Handler.mk.inj hnew
      exact Or.inr ⟨rfl, (Phase.acquiring.inj hphase).symm⟩
  made := h.made
  inserted other otherBucket hmem := by
    rcases List.mem_or_eq_of_mem_set hmem with hold | hnew
    · exact h.inserted other otherBucket hold
    · exact absurd (Handler.mk.inj hnew).2 (by simp)
  metered := h.metered

/-- A request finds no bucket and makes one. -/
theorem notFound (h : Inv meter state) (index : Nat) (remoteIp : IpAddr) :
    Inv meter { state with
      buckets := state.buckets ++ [library.new state.now]
      handlers := state.handlers.set index ⟨remoteIp, .inserting state.buckets.length⟩ } where
  coherent := by
    apply h.coherent.mono
    intro other otherBucket hgot
    rcases hasGot_of_set state hgot with hold | hnew
    · exact hold
    · exact absurd (Handler.mk.inj hnew).2 (by simp)
  made bucket hmem := by
    rcases List.mem_append.1 hmem with hold | hnew
    · exact h.made bucket hold
    · rw [List.mem_singleton.1 hnew]
      exact meter.made_new state.now
  inserted other otherBucket hmem := by
    rw [List.length_append, List.length_singleton]
    rcases List.mem_or_eq_of_mem_set hmem with hold | hnew
    · exact Nat.lt_succ_of_lt (h.inserted other otherBucket hold)
    · rw [Phase.inserting.inj (Handler.mk.inj hnew).2]
      exact Nat.lt_succ_self _
  metered other otherBucket hlookup := by
    obtain ⟨bucket, hbucket, hmetered⟩ := h.metered other otherBucket hlookup
    refine ⟨bucket, ?_, hmetered⟩
    exact List.getElem?_append_left (List.getElem?_eq_some_iff.1 hbucket).1 ▸ hbucket

/-- A request puts its bucket into the map before any other one of its client has got one. -/
theorem insert (h : Inv meter state) (hrate : 0 ≤ rate) (hburst : 0 ≤ burst) {index : Nat}
    {remoteIp : IpAddr} {tokenBucket : Nat}
    (hhandler : state.handlers[index]? = some ⟨remoteIp, .inserting tokenBucket⟩)
    (hfirst : ∀ other, ¬state.HasGot remoteIp other) :
    Inv meter { state with
      tokenBuckets := state.tokenBuckets.insert remoteIp tokenBucket
      handlers := state.handlers.set index ⟨remoteIp, .acquiring tokenBucket⟩ } where
  coherent := by
    apply h.coherent.register hfirst (AList.lookup_insert state.tokenBuckets)
    · intro other hother
      exact AList.lookup_insert_ne hother
    · intro other otherBucket hgot
      rcases hasGot_of_set state hgot with hold | hnew
      · exact Or.inl hold
      · obtain ⟨rfl, hphase⟩ := Handler.mk.inj hnew
        exact Or.inr ⟨rfl, (Phase.acquiring.inj hphase).symm⟩
  made := h.made
  inserted other otherBucket hmem := by
    rcases List.mem_or_eq_of_mem_set hmem with hold | hnew
    · exact h.inserted other otherBucket hold
    · exact absurd (Handler.mk.inj hnew).2 (by simp)
  metered other otherBucket hlookup := by
    by_cases hother : other = remoteIp
    · subst hother
      rw [AList.lookup_insert, Option.some.injEq] at hlookup
      subst hlookup
      have hlt := h.inserted other tokenBucket (List.mem_of_getElem? hhandler)
      have hnil : state.admissions other = [] := admissions_eq_nil hfirst
      refine ⟨state.buckets[tokenBucket], List.getElem?_eq_getElem hlt, ?_⟩
      change Metered rate burst state.now _ (state.admissions other)
      rw [hnil]
      exact Metered.start hrate hburst (meter.level_le _ _ (h.made _ (List.getElem_mem hlt)))
    · rw [AList.lookup_insert_ne hother] at hlookup
      exact h.metered other otherBucket hlookup

/-- What has been admitted after a bucket has been asked. -/
theorem admissions_append (state : State β) (acquisition : Acquisition) (remoteIp : IpAddr) :
    { state with acquisitions := state.acquisitions ++ [acquisition] }.admissions remoteIp =
      state.admissions remoteIp ++
        if acquisition.remoteIp = remoteIp ∧ acquisition.admitted then [acquisition.time] else [] := by
  simp only [State.admissions, List.filter_append, List.map_append]
  congr 1
  by_cases h : acquisition.remoteIp = remoteIp ∧ acquisition.admitted
  · rw [if_pos h, List.filter_cons_of_pos (by simpa using h)]
    rfl
  · rw [if_neg h, List.filter_cons_of_neg (by simpa using h)]
    rfl

/-- A request asks the bucket of its client. -/
theorem acquire (h : Inv meter state) (hrate : 0 ≤ rate) {index : Nat} {remoteIp : IpAddr}
    {tokenBucket : Nat} {bucket : β}
    (hhandler : state.handlers[index]? = some ⟨remoteIp, .acquiring tokenBucket⟩)
    (hbucket : state.buckets[tokenBucket]? = some bucket) (responseStatus : Option Nat) :
    Inv meter { state with
      buckets := state.buckets.set tokenBucket (library.acquire bucket state.now 1).2
      handlers := state.handlers.set index ⟨remoteIp, .answered responseStatus⟩
      acquisitions := state.acquisitions ++
        [⟨remoteIp, tokenBucket, state.now, (library.acquire bucket state.now 1).1⟩] } where
  coherent := by
    -- the request has got the bucket before
    apply h.coherent.mono
    rintro other otherBucket (hwaits | ⟨acquisition, hmem, hremoteIp, hsame⟩)
    · rcases List.mem_or_eq_of_mem_set hwaits with hold | hnew
      · exact Or.inl hold
      · exact absurd (Handler.mk.inj hnew).2 (by simp)
    · rcases List.mem_append.1 hmem with hold | hnew
      · exact Or.inr ⟨acquisition, hold, hremoteIp, hsame⟩
      · rw [List.mem_singleton.1 hnew] at hremoteIp hsame
        obtain rfl : remoteIp = other := hremoteIp
        obtain rfl : tokenBucket = otherBucket := hsame
        exact Or.inl (List.mem_of_getElem? hhandler)
  made other hmem := by
    rcases List.mem_or_eq_of_mem_set hmem with hold | rfl
    · exact h.made other hold
    · exact meter.made_acquire _ _ _ (h.made bucket (List.mem_of_getElem? hbucket))
  inserted other otherBucket hmem := by
    rw [List.length_set]
    rcases List.mem_or_eq_of_mem_set hmem with hold | hnew
    · exact h.inserted other otherBucket hold
    · exact absurd (Handler.mk.inj hnew).2 (by simp)
  metered other otherBucket hlookup := by
    obtain ⟨bucket', hbucket', hmetered⟩ := h.metered other otherBucket hlookup
    have hadmissions := admissions_append state
      ⟨remoteIp, tokenBucket, state.now, (library.acquire bucket state.now 1).1⟩ other
    by_cases hsame : tokenBucket = otherBucket
    · subst hsame
      obtain rfl : bucket = bucket' := Option.some.inj (hbucket.symm.trans hbucket')
      have hmade := h.made bucket (List.mem_of_getElem? hbucket)
      refine ⟨_, List.getElem?_set_self (List.getElem?_eq_some_iff.1 hbucket).1, ?_⟩
      change Metered rate burst state.now _ (State.admissions _ other)
      rw [State.admissions] at hadmissions ⊢
      rw [hadmissions]
      cases hgranted : (library.acquire bucket state.now 1).1 with
      | false =>
          simp only [Bool.false_eq_true, and_false, if_false, List.append_nil]
          exact hmetered.lower (meter.level_refused _ _ _ hmade hgranted)
      | true =>
          -- an admitted request takes its token from the level
          obtain ⟨hnonneg, hle⟩ := meter.level_granted _ _ _ hmade hgranted
          split
          · exact hmetered.grant hrate hnonneg hle
          · rw [List.append_nil]
            exact hmetered.lower (by linarith)
    · -- the bucket of another client
      have hother : remoteIp ≠ other := by
        rintro rfl
        have hgot := h.coherent remoteIp tokenBucket (Or.inl (List.mem_of_getElem? hhandler))
        exact hsame (Option.some.inj (hgot.symm.trans hlookup))
      refine ⟨bucket', by rw [List.getElem?_set_ne hsame]; exact hbucket', ?_⟩
      change Metered rate burst state.now _ (State.admissions _ other)
      rw [State.admissions] at hadmissions ⊢
      rw [hadmissions, if_neg fun hboth => hother hboth.1, List.append_nil]
      exact hmetered

/-- Every step keeps the invariant, when a request that puts a bucket into the map is the first one. -/
theorem step (h : Inv meter state) (hrate : 0 ≤ rate) (hburst : 0 ≤ burst) {action : Action}
    (hfirst : InsertsFirst state action) : Inv meter (Limit.step library state action) := by
  cases action with
  | request remoteIp =>
      apply h.of_handlers
      intro handler hmem
      rcases List.mem_append.1 hmem with hold | hnew
      · exact Or.inl hold
      · rw [List.mem_singleton.1 hnew]
        exact Or.inr rfl
  | drop index => exact h.of_handlers fun handler hmem => Or.inl (List.mem_of_mem_eraseIdx hmem)
  | resume index wait =>
      have hwait := h.wait hrate wait
      rw [Limit.step]
      dsimp only
      cases hhandler : state.handlers[index]? with
      | none => exact hwait
      | some handler =>
          obtain ⟨remoteIp, phase⟩ := handler
          dsimp only
          rw [handlerStep]
          cases phase with
          | lookingUp =>
              dsimp only
              cases hlookup : state.tokenBuckets.lookup remoteIp with
              | some tokenBucket => exact hwait.found index hlookup
              | none => exact hwait.notFound index remoteIp
          | inserting tokenBucket =>
              exact hwait.insert hrate hburst hhandler (hfirst remoteIp tokenBucket hhandler)
          | acquiring tokenBucket =>
              dsimp only
              cases hbucket : state.buckets[tokenBucket]? with
              | none => exact hwait
              | some bucket => exact hwait.acquire hrate hhandler hbucket _
          | answered responseStatus => exact hwait

end Inv

end Invariant

/-! ## The rate limit -/

/-- In any time span of a length the requests of a client that are admitted are no more than the burst
and what the rate gives in this time, and all requests of a client get the same bucket, in every run in
which no request puts a bucket into the map after another one of its client has got one. -/
theorem admitted_le (library : Buckets ℚ β) (rate burst : ℚ) (hrate : 0 ≤ rate) (hburst : 0 ≤ burst)
    (meter : Meter library rate burst) (actions : List Action)
    (hfirst : AllSteps (step library) InsertsFirst init actions) :
    ∀ remoteIp, (∀ first length : ℚ, 0 ≤ length →
        (grantedBetween ((run (step library) init actions).admissions remoteIp) first
          (first + length) : ℚ) ≤ burst + rate * length) ∧
      ∀ tokenBucket other, (run (step library) init actions).HasGot remoteIp tokenBucket →
        (run (step library) init actions).HasGot remoteIp other → tokenBucket = other := by
  have hinv : Inv meter (run (step library) init actions) := by
    apply run_invariant _ Inv.init hfirst
    intro state action hok h
    exact h.step hrate hburst hok
  intro remoteIp
  constructor
  · intro first length hlength
    have hspan : first + length - first = length := by ring
    cases hlookup : (run (step library) init actions).tokenBuckets.lookup remoteIp with
    | none =>
        have hnil : (run (step library) init actions).admissions remoteIp = [] := by
          apply admissions_eq_nil
          intro tokenBucket hgot
          have := hinv.coherent remoteIp tokenBucket hgot
          exact absurd (hlookup.symm.trans this) (by simp)
        rw [hnil]
        have hflow := mul_nonneg hrate hlength
        simp only [grantedBetween, List.countP_nil, Nat.cast_zero]
        linarith
    | some tokenBucket =>
        obtain ⟨bucket, -, hmetered⟩ := hinv.metered remoteIp tokenBucket hlookup
        have hbetween := hmetered.between first (first + length) (by linarith)
        rwa [hspan] at hbetween
  · intro tokenBucket other hgot hother
    exact hinv.coherent.unique hgot hother

/-- Two requests of a client. The second one finds the bucket of the first one, a second later. -/
def requestsInTurn : List Action :=
  [.request (.v4 1), .resume 0 0, .resume 0 0, .resume 0 0, .request (.v4 1), .resume 1 1, .resume 1 0]

theorem admitted_le_inTurn :
    (run (step (Bucket.buckets 1 1)) init requestsInTurn).admissions (.v4 1) = [0, 1] ∧
      (grantedBetween ((run (step (Bucket.buckets 1 1)) init requestsInTurn).admissions (.v4 1)) 0
        (0 + 1) : ℚ) ≤ 1 + 1 * 1 := by
  refine ⟨by decide +kernel, (admitted_le (Bucket.buckets 1 1) 1 1 (by decide) (by decide)
    (Bucket.meter (by decide) (by decide)) _ ?_ (.v4 1)).1 0 1 (by decide)⟩
  refine ⟨trivial, ?_, ?_, ?_, trivial, ?_, ?_, trivial⟩
  · rintro remoteIp tokenBucket ⟨⟩
  · rintro remoteIp tokenBucket ⟨⟩ other (hwaits | ⟨acquisition, hmem, -⟩)
    · rcases List.mem_singleton.1 hwaits with ⟨⟩
    · exact absurd hmem List.not_mem_nil
  · rintro remoteIp tokenBucket ⟨⟩
  -- the second request puts nothing into the map
  · rintro remoteIp tokenBucket ⟨⟩
  · rintro remoteIp tokenBucket ⟨⟩

/-- Two requests of a client look for the bucket before either of them puts one into the map. -/
def simultaneousRequests : List Action :=
  [.request (.v4 1), .request (.v4 1), .resume 0 0, .resume 1 0, .resume 0 0, .resume 1 0,
    .resume 0 0, .resume 1 0]

/-- Both are admitted at once, each by a bucket of its own, though the burst is one request. -/
theorem admitted_twice :
    (run (step (Bucket.buckets 1 1)) init simultaneousRequests).admissions (.v4 1) = [0, 0] ∧
      (run (step (Bucket.buckets 1 1)) init simultaneousRequests).HasGot (.v4 1) 0 ∧
      (run (step (Bucket.buckets 1 1)) init simultaneousRequests).HasGot (.v4 1) 1 ∧
      ¬(grantedBetween ((run (step (Bucket.buckets 1 1)) init simultaneousRequests).admissions
        (.v4 1)) 0 (0 + 0) : ℚ) ≤ 1 + 1 * 0 := by
  have hadmissions : (run (step (Bucket.buckets 1 1)) init simultaneousRequests).admissions (.v4 1) =
      [0, 0] := by decide +kernel
  refine ⟨hadmissions, ?_, ?_, ?_⟩
  · exact Or.inr ⟨_, List.mem_cons_self, rfl, rfl⟩
  · exact Or.inr ⟨_, List.mem_cons_of_mem _ List.mem_cons_self, rfl, rfl⟩
  · rw [hadmissions]
    decide +kernel

end Ferron.Modules.Limit
