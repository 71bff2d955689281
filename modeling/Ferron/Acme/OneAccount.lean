import Ferron.Acme.Provision
import Ferron.Lib.History
import Ferron.Lib.Run

/-!
# The account of a configuration

A call of `provision_certificate` takes the account out of the configuration and puts it back when the
certificate is still valid or at the end of a successful order. On every other path the account is lost, and
the next call has only the account cache, which may not have been written or may not be readable.

In the runs whose calls leave the account in one of the two places a second account is created only after the
server reported that the account does not exist (`oneAccount_of_keeps`).
-/

set_option autoImplicit false

namespace Ferron.Acme.Provision

open Ferron.Lib Ferron.Lib.History

/-! ## What a call leaves -/

section Condition

variable {F A R : Type} [DecidableEq F] (locate : PathBuf → F) (encoding : Encoding R)

/-- The account cache has credentials that can be read. -/
def Readable (config : AcmeConfig F A) : Prop := (cachedCredentials locate encoding config).isSome = true

/-- The order is placed, every authorization passes, and the order gets ready and is finalized. -/
def OrderSucceeds (config : AcmeConfig F A) (answers : Answers A R) : Prop :=
  answers.newOrder = .ok () ∧ (∀ authorization ∈ answers.authorizations, Passes config authorization) ∧
    answers.pollReady = .ok .ready ∧ answers.finalization.result = .ok ()

/-- The account is put back: the certificate is still valid or the order succeeds. -/
def PutsBack (config : AcmeConfig F A) (answers : Answers A R) : Prop :=
  answers.check = .ok true ∨ answers.check = .ok false ∧ OrderSucceeds config answers

/-- The account that the call uses can be read from the cache: from the beginning, or once it is created and
written there. -/
def CacheKeeps (config : AcmeConfig F A) (answers : Answers A R) : Prop :=
  Readable locate encoding config ∨ config.account = none ∧
    ∀ account credentials value, answers.create = .ok (account, credentials) →
      encoding.toVec credentials = .ok value →
      Readable locate encoding (setAccount locate config value answers.accountWrite)

/-- The credentials of an account that the call creates can be encoded. -/
def Encodes (config : AcmeConfig F A) (answers : Answers A R) : Prop :=
  config.account = none → ¬Readable locate encoding config → ∀ account credentials,
    answers.create = .ok (account, credentials) → ∃ value, encoding.toVec credentials = .ok value

/-- The call leaves the account in the configuration or in the cache, or the server reports that it does
not exist. -/
def KeepsAccount (config : AcmeConfig F A) (answers : Answers A R) : Prop :=
  Encodes locate encoding config answers ∧
    (PutsBack config answers ∨ answers.check = .ok false ∧ answers.ReportsMissing ∨
      CacheKeeps locate encoding config answers)

/-- The configuration behind a call. -/
def provisioned (config : AcmeConfig F A) (answers : Answers A R) : AcmeConfig F A :=
  (provisionCertificate locate encoding config answers).1

/-- There is an account in the configuration or in the cache. -/
def Holds (config : AcmeConfig F A) : Prop :=
  config.account.isSome = true ∨ Readable locate encoding config

end Condition

/-- After an account is created none is created until the server reports that it does not exist. -/
def OneAccount (events : List Event) : Prop :=
  AbsentUntil (· = .accountCreated) (· = .accountMissing) (· = .accountCreated) events

/-- An account that was created is held, or it was reported missing. -/
def Tracked (held : Prop) (events : List Event) : Prop :=
  Tracks (· = .accountCreated) (· = .accountMissing) (· = .accountCreated) held events

/-! ## The order -/

section Order

variable {F A R : Type}

theorem accountCreated_notMem_recordEvents (record : Option (Str × Bool)) :
    .accountCreated ∉ recordEvents record := by
  rcases record with - | ⟨found, _ | _⟩ <;> simp [recordEvents]

variable (locate : PathBuf → F) (encoding : Encoding R)

/-- What an order leaves: no account is created, the cache stays as it is, and the account is put back at
the end of an order that succeeds. -/
structure Leaves (config after : AcmeConfig F A) (putsBack : Prop) : Prop where
  events : ∃ events, after.events = config.events ++ events ∧ .accountCreated ∉ events
  readable_iff : Readable locate encoding after ↔ Readable locate encoding config
  account : putsBack → after.account.isSome = true

variable {locate encoding} {config after : AcmeConfig F A} {putsBack : Prop}

/-- Nothing has happened. -/
theorem leaves_self (hnot : ¬putsBack) : Leaves locate encoding config config putsBack :=
  ⟨⟨[], (List.append_nil _).symm, List.not_mem_nil⟩, Iff.rfl, fun h => absurd h hnot⟩

/-- Events may come before. -/
theorem Leaves.of_note {quiet : List Event} (h : Leaves locate encoding (config.note quiet) after putsBack)
    (hquiet : .accountCreated ∉ quiet) : Leaves locate encoding config after putsBack := by
  obtain ⟨events, hevents, hcreated⟩ := h.events
  refine ⟨⟨quiet ++ events, hevents.trans (List.append_assoc _ _ _), fun hmem => ?_⟩, h.readable_iff,
    h.account⟩
  rcases List.mem_append.1 hmem with hmem | hmem
  · exact hquiet hmem
  · exact hcreated hmem

/-- Events may come behind. -/
theorem Leaves.note {quiet : List Event} (h : Leaves locate encoding config after putsBack)
    (hquiet : .accountCreated ∉ quiet) : Leaves locate encoding config (after.note quiet) putsBack := by
  obtain ⟨events, hevents, hcreated⟩ := h.events
  refine ⟨⟨events ++ quiet, ?_, fun hmem => ?_⟩, h.readable_iff, h.account⟩
  · rw [AcmeConfig.note, hevents, List.append_assoc]
  · rcases List.mem_append.1 hmem with hmem | hmem
    · exact hcreated hmem
    · exact hquiet hmem

variable (locate encoding)

theorem finalizeClosure_leaves (config : AcmeConfig F A) (account : A) (finalization : Finalization) :
    Leaves locate encoding config (finalizeClosure config account finalization).1
      (finalization.result = .ok ()) := by
  unfold finalizeClosure
  cases finalization.result with
  | error err => exact leaves_self fun h => by cases h
  | ok _ => exact ⟨⟨[], (List.append_nil _).symm, List.not_mem_nil⟩, Iff.rfl, fun _ => rfl⟩

theorem finishOrder_leaves (config : AcmeConfig F A) (account : A) (answers : Answers A R)
    (dns01Identifiers : List Str) :
    Leaves locate encoding config (finishOrder config account answers dns01Identifiers).1
      (answers.pollReady = .ok .ready ∧ answers.finalization.result = .ok ()) := by
  have hfinalize := finalizeClosure_leaves locate encoding config account answers.finalization
  unfold finishOrder
  rcases answers.pollReady with err | _ | _ | _
  · exact leaves_self fun h => by cases h.1
  · have hdone : Leaves locate encoding config (finalizeClosure config account answers.finalization).1
        ((.ok .ready : Except Str OrderStatus) = .ok .ready ∧ answers.finalization.result = .ok ()) :=
      ⟨hfinalize.events, hfinalize.readable_iff, fun h => hfinalize.account h.2⟩
    dsimp only
    unfold cleanUp
    split
    · refine hdone.note fun hmem => ?_
      obtain ⟨identifier, -, heq⟩ := List.mem_map.1 hmem
      cases heq
    · exact hdone
  · exact leaves_self fun h => by cases h.1
  · exact leaves_self fun h => by cases h.1

theorem completeOrder_leaves (account : A) (answers : Answers A R)
    (authorizations : List (Except Str Authorization)) (config : AcmeConfig F A)
    (dns01Identifiers : List Str) :
    Leaves locate encoding config (completeOrder config account answers dns01Identifiers authorizations).1
      ((∀ authorization ∈ authorizations, Passes config authorization) ∧
        answers.pollReady = .ok .ready ∧ answers.finalization.result = .ok ()) := by
  induction authorizations generalizing config dns01Identifiers with
  | nil =>
      have hfinish := finishOrder_leaves locate encoding config account answers dns01Identifiers
      exact ⟨hfinish.events, hfinish.readable_iff, fun h => hfinish.account h.2⟩
  | cons authorization authorizations ih =>
      obtain ⟨result, hauthorize, hresult⟩ := authorize_eq config dns01Identifiers authorization
      have hsame := sameSettings_note config (recordEvents (recordOf config authorization))
      have hquiet := accountCreated_notMem_recordEvents (recordOf config authorization)
      rw [completeOrder, authorizeAll, hauthorize]
      rcases hresult with ⟨hpasses, rfl⟩ | ⟨hnot, err, rfl⟩
      · have hrest := ih (config.note (recordEvents (recordOf config authorization)))
          (dns01Identifiers ++ setIdentifiers (recordOf config authorization))
        refine Leaves.of_note ⟨hrest.events, hrest.readable_iff, fun h => hrest.account ⟨?_, h.2⟩⟩ hquiet
        exact fun other hother => (hsame.passes_iff other).2 (h.1 other (List.mem_cons_of_mem _ hother))
      · exact (leaves_self fun h => hnot (h.1 _ List.mem_cons_self)).note hquiet

theorem SameSettings.putsBack_iff {config later : AcmeConfig F A} (h : SameSettings config later)
    (answers : Answers A R) : PutsBack later answers ↔ PutsBack config answers := by
  unfold PutsBack OrderSucceeds
  simp only [h.passes_iff]

end Order

/-! ## The call -/

section Call

variable {F A R : Type} [DecidableEq F] (locate : PathBuf → F) (encoding : Encoding R)

/-- Events in which no account is created keep what is tracked. -/
theorem Tracked.append {held held' : Prop} {history events : List Event} (h : Tracked held history)
    (hquiet : .accountCreated ∉ events) (hheld : held → held' ∨ .accountMissing ∈ events) :
    Tracked held' (history ++ events) := by
  have hnone : ∀ event ∈ events, ¬event = .accountCreated := by
    rintro event hmem rfl
    exact hquiet hmem
  refine Tracks.append h hnone fun hwaits => ?_
  rcases hheld hwaits with hheld | hmissing
  · exact .inl ⟨hheld, hnone⟩
  · obtain ⟨before, rest, rfl⟩ := List.append_of_mem hmissing
    refine .inr ⟨before, .accountMissing, rest, rfl, rfl, fun event hmem => hnone event ?_⟩
    exact List.mem_append_left _ hmem

theorem Tracked.mono {held held' : Prop} {history : List Event} (h : Tracked held history)
    (himp : held → held') : Tracked held' history :=
  Tracks.mono h himp

/-- The check and the order keep the account where there is one. -/
theorem renew_tracked {held : Prop} {config : AcmeConfig F A} (h : Tracked held config.events) (account : A)
    (answers : Answers A R)
    (hkeeps : held → PutsBack config answers ∨ answers.check = .ok false ∧ answers.ReportsMissing ∨
      Readable locate encoding config) :
    Tracked (Holds locate encoding (renew locate config account answers).1)
      (renew locate config account answers).1.events := by
  rcases renew_cases locate config account answers with
    ⟨⟨err, hcheck⟩, hrenew⟩ | ⟨hcheck, hrenew⟩ | ⟨hcheck, horder, hrenew⟩ | ⟨hcheck, hmissing, hrenew⟩ |
      ⟨hcheck, horder, hmissing, hrenew⟩
  · rw [hrenew]
    refine h.mono fun hheld => .inr ?_
    rcases hkeeps hheld with (hback | hback) | hreports | hreadable
    · cases hcheck.symm.trans hback
    · cases hcheck.symm.trans hback.1
    · cases hcheck.symm.trans hreports.1
    · exact hreadable
  · rw [hrenew]
    exact h.mono fun _ => .inl rfl
  · have hleaves := completeOrder_leaves locate encoding account answers answers.authorizations config []
    obtain ⟨events, hevents, hcreated⟩ := hleaves.events
    rw [hrenew, hevents]
    refine h.append hcreated fun hheld => .inl ?_
    rcases hkeeps hheld with (hback | hback) | hreports | hreadable
    · cases hcheck.symm.trans hback
    · exact .inl (hleaves.account ⟨hback.2.2.1, hback.2.2.2⟩)
    · cases horder.symm.trans hreports.2
    · exact .inr (hleaves.readable_iff.2 hreadable)
  · obtain ⟨files, accountCache, hremove⟩ := removeAccount_eq locate config answers.accountRemoved
    rw [hrenew, hremove]
    refine h.append (fun hmem => ?_) fun _ => .inr (List.mem_singleton_self _)
    cases List.mem_singleton.1 hmem
  · rw [hrenew]
    refine h.mono fun hheld => .inr ?_
    rcases hkeeps hheld with (hback | hback) | hreports | hreadable
    · cases hcheck.symm.trans hback
    · exact absurd hback.2.1 horder
    · exact absurd hreports.2 hmissing
    · exact hreadable

/-- An account that is created is written to the cache, whatever was noted before. -/
theorem setAccount_note (config : AcmeConfig F A) (events : List Event) (value : Bytes) (write : Write) :
    setAccount locate (config.note events) value write =
      (setAccount locate config value write).note events := rfl

/-- A call that keeps the account keeps what is tracked. -/
theorem provisioned_tracked {config : AcmeConfig F A} {answers : Answers A R}
    (hkeeps : KeepsAccount locate encoding config answers)
    (h : Tracked (Holds locate encoding config) config.events) :
    Tracked (Holds locate encoding (provisioned locate encoding config answers))
      (provisioned locate encoding config answers).events := by
  obtain ⟨hencodes, hkeeps⟩ := hkeeps
  unfold provisioned provisionCertificate
  rcases acmeAccount_cases locate encoding config answers with
    ⟨account, haccount, hacme⟩ | ⟨hnone, hcached, hacme⟩ | ⟨hnone, hcached, err, hcreate, hacme⟩ |
      ⟨hnone, hcached, account, credentials, err, hcreate, hvalue, hacme⟩ |
      ⟨hnone, hcached, account, credentials, value, hcreate, hvalue, hacme⟩
  · -- the account is taken out of the configuration
    rw [hacme]
    have hsame : SameSettings config { config with account := none } := ⟨rfl, rfl⟩
    have hbefore : Tracked (Holds locate encoding config)
        ({ config with account := none } : AcmeConfig F A).events := h
    refine renew_tracked locate encoding hbefore account answers fun _ => ?_
    rw [hsame.putsBack_iff]
    refine hkeeps.imp_right (Or.imp_right fun hcache => ?_)
    rcases hcache with hreadable | ⟨hnone, -⟩
    · exact hreadable
    · cases haccount.symm.trans hnone
  · rw [hacme]
    cases answers.fromCredentials with
    | error err => exact h
    | ok account => exact renew_tracked locate encoding h account answers fun _ => .inr (.inr hcached)
  · rw [hacme]
    exact h
  · have hunreadable : ¬Readable locate encoding config := by
      rw [Readable, hcached]
      exact Bool.false_ne_true
    obtain ⟨value, hother⟩ := hencodes hnone hunreadable account credentials hcreate
    cases hvalue.symm.trans hother
  · -- nothing was held, and the new account is
    have hunreadable : ¬Readable locate encoding config := by
      rw [Readable, hcached]
      exact Bool.false_ne_true
    have hnothing : ¬Holds locate encoding config := by
      rintro (hsome | hreadable)
      · rw [hnone] at hsome
        exact Bool.false_ne_true hsome
      · exact hunreadable hreadable
    have hcreated : Tracked True (config.note [.accountCreated]).events :=
      Tracks.open (h.mono hnothing) fun _ => trivial
    obtain ⟨files, accountCache, hset⟩ :=
      setAccount_eq locate (config.note [.accountCreated]) value answers.accountWrite
    have hsame : SameSettings config
        (setAccount locate (config.note [.accountCreated]) value answers.accountWrite) := by
      rw [hset]
      exact ⟨rfl, rfl⟩
    have hbefore : Tracked True
        (setAccount locate (config.note [.accountCreated]) value answers.accountWrite).events := by
      rw [hset]
      exact hcreated
    rw [hacme]
    refine renew_tracked locate encoding hbefore account answers fun _ => ?_
    rw [hsame.putsBack_iff]
    refine hkeeps.imp_right (Or.imp_right fun hcache => ?_)
    rcases hcache with hreadable | ⟨-, hwritten⟩
    · exact absurd hreadable hunreadable
    · rw [setAccount_note]
      exact hwritten account credentials value hcreate hvalue

/-- **One account for a configuration**: in every run whose calls leave the account in the configuration or
in the cache, or are told that it does not exist, an account is created after another one only when the
server reported in between that the account does not exist. -/
theorem oneAccount_of_keeps (config : AcmeConfig F A) (hnew : config.events = [])
    (calls : List (Answers A R))
    (hkeeps : Run.AllSteps (provisioned locate encoding) (KeepsAccount locate encoding) config calls) :
    OneAccount (Run.run (provisioned locate encoding) config calls).events := by
  have hstart : Tracked (Holds locate encoding config) config.events := by
    rw [hnew]
    exact tracks_nil _
  have hstep : ∀ (state : AcmeConfig F A) (answers : Answers A R),
      KeepsAccount locate encoding state answers →
      Tracked (Holds locate encoding state) state.events →
      Tracked (Holds locate encoding (provisioned locate encoding state answers))
        (provisioned locate encoding state answers).events :=
    fun _ _ hkeeps h => provisioned_tracked locate encoding hkeeps h
  have htracked := Run.run_invariant hstep hstart hkeeps
  refine absentUntil_of_tracks htracked ?_
  rintro event rfl h
  cases h

end Call

/-! ## A cache that cannot be written -/

/-- Credentials are one byte. -/
def byteEncoding : Encoding Unit := ⟨fun bytes => if bytes = [1] then some () else none, fun _ => .ok [1]⟩

/-- A configuration without an account. -/
def newConfig (accountCache : AcmeCache) : AcmeConfig PathBuf Unit :=
  ⟨.http01, false, none, fun _ => none, accountCache, [], []⟩

/-- A call whose order is refused. -/
def refusedOrder (accountWrite : Write) : Answers Unit Unit where
  fromCredentials := .ok ()
  create := .ok ((), ())
  accountWrite := accountWrite
  accountRemoved := true
  check := .ok false
  newOrder := .error (.other "connection refused".toList)
  authorizations := []
  pollReady := .ok .ready
  finalization := ⟨.ok (), .ok (), .ok (), .ok (), .ok (), .ok ()⟩

/-- With a cache in memory the orders of two calls may be refused. -/
theorem oneAccount_memory :
    OneAccount (Run.run (provisioned id byteEncoding) (newConfig (.memory ∅))
      [refusedOrder .succeeds, refusedOrder .succeeds]).events := by
  refine oneAccount_of_keeps id byteEncoding _ rfl _ ⟨⟨fun _ _ _ _ _ => ⟨[1], rfl⟩, ?_⟩,
    ⟨fun _ _ _ _ _ => ⟨[1], rfl⟩, ?_⟩, trivial⟩
  · refine .inr (.inr (.inr ⟨rfl, fun _ _ value _ hvalue => ?_⟩))
    obtain rfl := Except.ok.inj hvalue
    rfl
  · exact .inr (.inr (.inl rfl))

/-- Where the directory cannot be written to, each of the two calls creates an account. -/
theorem refusedOrders_create_twice :
    (Run.run (provisioned id byteEncoding) (newConfig (.file "cache".toList))
        [refusedOrder (.fails "permission denied".toList none),
          refusedOrder (.fails "permission denied".toList none)]).events =
        [.accountCreated, .accountCreated] ∧
      ¬OneAccount (Run.run (provisioned id byteEncoding) (newConfig (.file "cache".toList))
        [refusedOrder (.fails "permission denied".toList none),
          refusedOrder (.fails "permission denied".toList none)]).events := by
  have hevents : (Run.run (provisioned id byteEncoding) (newConfig (.file "cache".toList))
      [refusedOrder (.fails "permission denied".toList none),
        refusedOrder (.fails "permission denied".toList none)]).events =
      [.accountCreated, .accountCreated] := by
    rfl
  refine ⟨hevents, fun h => ?_⟩
  obtain ⟨event, hmem, -⟩ := h [] .accountCreated [] .accountCreated [] hevents rfl rfl
  exact absurd hmem List.not_mem_nil

end Ferron.Acme.Provision
