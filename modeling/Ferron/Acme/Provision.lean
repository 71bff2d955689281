import Ferron.Acme.AcmeCache

/-!
# A call of `provision_certificate`

The call takes the account of the configuration, or gets it from the account cache or from the server. It
places an order, fulfils the challenge of each authorization, waits for the order and finalizes it. An error
ends the call where it occurs.

What the ACME server, the DNS provider, the clock and the libraries give is a record of answers, and what the
rest of the system sees of the call is a list of events.
-/

set_option autoImplicit false

namespace Ferron.Acme

/-- `ChallengeType`. -/
inductive ChallengeType where
  | http01
  | tlsAlpn01
  | dns01
  deriving DecidableEq

namespace Provision

/-! ## What the call is given -/

/-- `AuthorizationStatus`; the other ones are not told apart. -/
inductive AuthorizationStatus where
  | pending
  | valid
  | other
  deriving DecidableEq

/-- `OrderStatus`; the other ones are not told apart. -/
inductive OrderStatus where
  | ready
  | invalid
  | other
  deriving DecidableEq

/-- A challenge, with what its steps give. -/
structure Challenge where
  /-- The text of the identifier, if it is a host name or an IP address. -/
  identifier : Option Str
  /-- The making of the certificate for TLS-ALPN-01 and the loading of its key. -/
  certificate : Except Str Unit
  /-- `set_acme_txt_record`. -/
  setAcmeTxtRecord : Except Str Unit
  setReady : Except Str Unit

/-- An authorization, with its challenge of the type that is asked for. -/
structure Authorization where
  status : AuthorizationStatus
  challenge : Option Challenge

/-- An error of `new_order`: a problem document with its type, or another one. -/
inductive OrderError where
  | api (problem : Option Str)
  | other (err : Str)

/-- What the steps of the finalization give. -/
structure Finalization where
  finalize : Except Str Unit
  pollCertificate : Except Str Unit
  toVec : Except Str Unit
  certs : Except Str Unit
  privateKey : Except Str Unit
  loadPrivateKey : Except Str Unit

/-- What the steps of a call give, for accounts `A` with credentials `R`. -/
structure Answers (A R : Type) where
  fromCredentials : Except Str A
  create : Except Str (A × R)
  accountWrite : Write
  /-- Whether the file of the account could be removed. -/
  accountRemoved : Bool
  /-- `check_certificate_validity_or_install_cached`. -/
  check : Except Str Bool
  newOrder : Except OrderError Unit
  authorizations : List (Except Str Authorization)
  pollReady : Except Str OrderStatus
  finalization : Finalization

/-- The encoding of credentials. -/
structure Encoding (R : Type) where
  fromSlice : Bytes → Option R
  toVec : R → Except Str Bytes

/-- What the rest of the system sees. -/
inductive Event where
  | accountCreated
  /-- The server reported that the account does not exist. -/
  | accountMissing
  /-- `remove_acme_txt_record`. -/
  | removalRequested (identifier : Str)
  | recordSet (identifier : Str)
  deriving DecidableEq

/-- `AcmeConfig`, as far as the account and the challenges need it. -/
structure AcmeConfig (F A : Type) where
  challengeType : ChallengeType
  /-- Whether there is a `dns_provider`. -/
  dnsProvider : Bool
  account : Option A
  files : Files F
  accountCache : AcmeCache
  /-- `get_account_cache_key`. -/
  accountCacheKey : Str
  /-- A note of what the calls did. -/
  events : List Event

/-! ## The call -/

section Model

variable {F A R : Type} [DecidableEq F] (locate : PathBuf → F) (encoding : Encoding R)

/-- Notes events. -/
def AcmeConfig.note (config : AcmeConfig F A) (events : List Event) : AcmeConfig F A :=
  { config with events := config.events ++ events }

/-- The credentials in the account cache. -/
def cachedCredentials (config : AcmeConfig F A) : Option R :=
  (getFromCache locate config.files config.accountCache config.accountCacheKey).bind encoding.fromSlice

/-- `set_in_cache` for the account. -/
def setAccount (config : AcmeConfig F A) (value : Bytes) (write : Write) : AcmeConfig F A :=
  let (_, files, accountCache) :=
    setInCacheWith locate config.files config.accountCache config.accountCacheKey value write
  { config with files := files, accountCache := accountCache }

/-- `remove_from_cache` for the account. -/
def removeAccount (config : AcmeConfig F A) (removed : Bool) : AcmeConfig F A :=
  match config.accountCache, removed with
  | .file _, false => config
  | _, _ =>
      let (files, accountCache) :=
        removeFromCache locate config.files config.accountCache config.accountCacheKey
      { config with files := files, accountCache := accountCache }

/-- The account of the configuration, the one in the cache or a new one. -/
def acmeAccount (config : AcmeConfig F A) (answers : Answers A R) : AcmeConfig F A × Except Str A :=
  match config.account with
  | some account => ({ config with account := none }, .ok account)
  | none =>
      match cachedCredentials locate encoding config with
      | some _ => (config, answers.fromCredentials)
      | none =>
          match answers.create with
          | .error err => (config, .error err)
          | .ok (account, accountCredentials) =>
              let config := config.note [.accountCreated]
              match encoding.toVec accountCredentials with
              | .error err => (config, .error err)
              -- an error of the cache is only logged
              | .ok value => (setAccount locate config value answers.accountWrite, .ok account)

/-- The type of the problem that an account does not exist. -/
def accountDoesNotExist : Str := "urn:ietf:params:acme:error:accountDoesNotExist".toList

/-- The new order. -/
def newOrder (config : AcmeConfig F A) (answers : Answers A R) : AcmeConfig F A × Except OrderError Unit :=
  match answers.newOrder with
  | .ok () => (config, .ok ())
  | .error (.api problem) =>
      if problem = some accountDoesNotExist then
        ((removeAccount locate config answers.accountRemoved).note [.accountMissing], .error (.api problem))
      else (config, .error (.api problem))
  | .error (.other err) => (config, .error (.other err))

/-- What a challenge of the type needs before it is ready: the identifiers of the records that were set
get longer. -/
def prepare (config : AcmeConfig F A) (dns01Identifiers : List Str) (challenge : Challenge)
    (identifier : Str) : AcmeConfig F A × Except Str (List Str) :=
  match config.challengeType with
  | .tlsAlpn01 => (config, challenge.certificate.map fun _ => dns01Identifiers)
  | .http01 => (config, .ok dns01Identifiers)
  | .dns01 =>
      if config.dnsProvider then
        let config := config.note [.removalRequested identifier]
        match challenge.setAcmeTxtRecord with
        | .error err => (config, .error err)
        | .ok () => (config.note [.recordSet identifier], .ok (dns01Identifiers ++ [identifier]))
      else (config, .error "No DNS provider configured.".toList)

/-- One authorization. -/
def authorize (config : AcmeConfig F A) (dns01Identifiers : List Str) :
    Except Str Authorization → AcmeConfig F A × Except Str (List Str)
  | .error err => (config, .error err)
  | .ok authorization =>
      match authorization.status with
      | .valid => (config, .ok dns01Identifiers)
      | .other => (config, .error "Invalid ACME authorization status".toList)
      | .pending =>
          match authorization.challenge with
          | none => (config, .error "The ACME server doesn't support the requested challenge type".toList)
          | some challenge =>
              match challenge.identifier with
              | none => (config, .error "Unsupported ACME identifier type".toList)
              | some identifier =>
                  match prepare config dns01Identifiers challenge identifier with
                  | (config, .error err) => (config, .error err)
                  | (config, .ok dns01Identifiers) =>
                      (config, challenge.setReady.map fun _ => dns01Identifiers)

/-- The authorizations of an order. -/
def authorizeAll (config : AcmeConfig F A) (dns01Identifiers : List Str) :
    List (Except Str Authorization) → AcmeConfig F A × Except Str (List Str)
  | [] => (config, .ok dns01Identifiers)
  | authorization :: authorizations =>
      match authorize config dns01Identifiers authorization with
      | (config, .error err) => (config, .error err)
      | (config, .ok dns01Identifiers) => authorizeAll config dns01Identifiers authorizations

/-- The result of the steps of the finalization. -/
def Finalization.result (finalization : Finalization) : Except Str Unit := do
  finalization.finalize
  finalization.pollCertificate
  finalization.toVec
  finalization.certs
  finalization.privateKey
  finalization.loadPrivateKey

/-- `finalize_closure`: the account is put back at its end. -/
def finalizeClosure (config : AcmeConfig F A) (account : A) (finalization : Finalization) :
    AcmeConfig F A × Except Str Unit :=
  match finalization.result with
  | .error err => (config, .error err)
  | .ok () => ({ config with account := some account }, .ok ())

/-- The clean-up. -/
def cleanUp (config : AcmeConfig F A) (dns01Identifiers : List Str) : AcmeConfig F A :=
  if config.dnsProvider then config.note (dns01Identifiers.map .removalRequested) else config

/-- What follows the authorizations. -/
def finishOrder (config : AcmeConfig F A) (account : A) (answers : Answers A R)
    (dns01Identifiers : List Str) : AcmeConfig F A × Except Str Unit :=
  match answers.pollReady with
  | .error err => (config, .error err)
  | .ok .ready =>
      -- an error of the finalization waits for the clean-up
      let (config, result) := finalizeClosure config account answers.finalization
      (cleanUp config dns01Identifiers, result)
  | .ok .invalid => (config, .error "ACME order is invalid".toList)
  | .ok .other => (config, .error "ACME order is not ready".toList)

/-- The order that has been placed, from these authorizations on. -/
def completeOrder (config : AcmeConfig F A) (account : A) (answers : Answers A R)
    (dns01Identifiers : List Str) (authorizations : List (Except Str Authorization)) :
    AcmeConfig F A × Except Str Unit :=
  match authorizeAll config dns01Identifiers authorizations with
  | (config, .error err) => (config, .error err)
  | (config, .ok dns01Identifiers) => finishOrder config account answers dns01Identifiers

/-- What follows when there is an account. -/
def renew (config : AcmeConfig F A) (account : A) (answers : Answers A R) :
    AcmeConfig F A × Except (Str ⊕ OrderError) Unit :=
  match answers.check with
  | .error err => (config, .error (.inl err))
  | .ok true => ({ config with account := some account }, .ok ())
  | .ok false =>
      match newOrder locate config answers with
      | (config, .error err) => (config, .error (.inr err))
      | (config, .ok ()) =>
          let (config, result) := completeOrder config account answers [] answers.authorizations
          (config, result.mapError .inl)

/-- `provision_certificate`. -/
def provisionCertificate (config : AcmeConfig F A) (answers : Answers A R) :
    AcmeConfig F A × Except (Str ⊕ OrderError) Unit :=
  match acmeAccount locate encoding config answers with
  | (config, .error err) => (config, .error (.inl err))
  | (config, .ok account) => renew locate config account answers

end Model

/-! ## What the steps do -/

section Steps

variable {F A R : Type} {config : AcmeConfig F A}

@[simp] theorem note_nil : config.note [] = config := by
  rw [AcmeConfig.note, List.append_nil]

theorem note_note (first second : List Event) :
    (config.note first).note second = config.note (first ++ second) := by
  rw [AcmeConfig.note, AcmeConfig.note, AcmeConfig.note, List.append_assoc]

/-- The identifier whose record an authorization is about, and whether the record can be set. -/
def recordOf (config : AcmeConfig F A) : Except Str Authorization → Option (Str × Bool)
  | .ok ⟨.pending, some challenge⟩ =>
      if config.challengeType = .dns01 ∧ config.dnsProvider = true then
        challenge.identifier.map fun identifier => (identifier, challenge.setAcmeTxtRecord.isOk)
      else none
  | _ => none

/-- What an authorization does about its record. -/
def recordEvents : Option (Str × Bool) → List Event
  | none => []
  | some (identifier, false) => [.removalRequested identifier]
  | some (identifier, true) => [.removalRequested identifier, .recordSet identifier]

/-- The identifier of the record that is set. -/
def setIdentifiers : Option (Str × Bool) → List Str
  | some (identifier, true) => [identifier]
  | _ => []

/-- What a challenge of the type needs can be had. -/
def Prepares (config : AcmeConfig F A) (challenge : Challenge) : Prop :=
  match config.challengeType with
  | .tlsAlpn01 => challenge.certificate = .ok ()
  | .http01 => True
  | .dns01 => config.dnsProvider = true ∧ challenge.setAcmeTxtRecord = .ok ()

/-- The authorization is valid already, or its challenge gets ready. -/
def Passes (config : AcmeConfig F A) : Except Str Authorization → Prop
  | .ok ⟨.valid, _⟩ => True
  | .ok ⟨.pending, some challenge⟩ =>
      challenge.identifier.isSome = true ∧ Prepares config challenge ∧ challenge.setReady = .ok ()
  | _ => False

/-- Only DNS-01 challenges with a provider are about records. -/
theorem recordOf_of_not (h : ¬(config.challengeType = .dns01 ∧ config.dnsProvider = true))
    (authorization : Except Str Authorization) : recordOf config authorization = none := by
  unfold recordOf
  split
  · rw [if_neg h]
  · rfl

theorem recordOf_pending (hdns : config.challengeType = .dns01) (hprovider : config.dnsProvider = true)
    {challenge : Challenge} {identifier : Str} (hidentifier : challenge.identifier = some identifier) :
    recordOf config (.ok ⟨.pending, some challenge⟩) =
      some (identifier, challenge.setAcmeTxtRecord.isOk) := by
  unfold recordOf
  dsimp only
  rw [if_pos ⟨hdns, hprovider⟩, hidentifier, Option.map_some]

/-- The challenge is prepared: it gives an error, or the identifier of a record that was set. -/
theorem prepare_eq (config : AcmeConfig F A) (dns01Identifiers : List Str) {challenge : Challenge}
    {identifier : Str}
    (hidentifier : challenge.identifier = some identifier) :
    ∃ result, prepare config dns01Identifiers challenge identifier =
        (config.note (recordEvents (recordOf config (.ok ⟨.pending, some challenge⟩))), result) ∧
      (Prepares config challenge ∧ result = .ok (dns01Identifiers ++
          setIdentifiers (recordOf config (.ok ⟨.pending, some challenge⟩))) ∨
        ¬Prepares config challenge ∧ ∃ err, result = .error err) := by
  by_cases hdns : config.challengeType = .dns01 ∧ config.dnsProvider = true
  · rw [recordOf_pending hdns.1 hdns.2 hidentifier]
    unfold prepare Prepares
    rw [hdns.1]
    dsimp only
    rw [if_pos hdns.2]
    cases hset : challenge.setAcmeTxtRecord with
    | error err => exact ⟨_, rfl, .inr ⟨fun h => (by cases h.2), err, rfl⟩⟩
    | ok _ =>
        refine ⟨_, ?_, .inl ⟨⟨hdns.2, rfl⟩, rfl⟩⟩
        rw [note_note]
        rfl
  · rw [recordOf_of_not hdns]
    unfold prepare Prepares
    rw [recordEvents, setIdentifiers, note_nil, List.append_nil]
    · cases htype : config.challengeType with
      | http01 => exact ⟨_, rfl, .inl ⟨trivial, rfl⟩⟩
      | tlsAlpn01 =>
          cases hcertificate : challenge.certificate with
          | ok _ => exact ⟨_, rfl, .inl ⟨rfl, rfl⟩⟩
          | error err => exact ⟨_, rfl, .inr ⟨fun h => (by cases h), err, rfl⟩⟩
      | dns01 =>
          have hprovider : ¬config.dnsProvider = true := fun h => hdns ⟨htype, h⟩
          dsimp only
          rw [if_neg hprovider]
          exact ⟨_, rfl, .inr ⟨fun h => hprovider h.1, _, rfl⟩⟩
    · intro _ h
      cases h

/-- What an authorization does about its record, and when it passes. -/
theorem authorize_eq (config : AcmeConfig F A) (dns01Identifiers : List Str)
    (authorization : Except Str Authorization) :
    ∃ result, authorize config dns01Identifiers authorization =
        (config.note (recordEvents (recordOf config authorization)), result) ∧
      (Passes config authorization ∧
          result = .ok (dns01Identifiers ++ setIdentifiers (recordOf config authorization)) ∨
        ¬Passes config authorization ∧ ∃ err, result = .error err) := by
  rcases authorization with err | ⟨status, challenge⟩
  · exact ⟨_, congrArg (·, _) note_nil.symm, .inr ⟨id, _, rfl⟩⟩
  · cases status with
    | valid => exact ⟨_, congrArg (·, _) note_nil.symm,
        .inl ⟨trivial, congrArg Except.ok (List.append_nil _).symm⟩⟩
    | other => exact ⟨_, congrArg (·, _) note_nil.symm, .inr ⟨id, _, rfl⟩⟩
    | pending =>
        cases challenge with
        | none => exact ⟨_, congrArg (·, _) note_nil.symm, .inr ⟨id, _, rfl⟩⟩
        | some challenge =>
            unfold authorize Passes
            dsimp only
            cases hidentifier : challenge.identifier with
            | none =>
                have hrecord : recordOf config (.ok ⟨.pending, some challenge⟩) = none := by
                  unfold recordOf
                  dsimp only
                  rw [hidentifier, Option.map_none, ite_self]
                rw [hrecord]
                refine ⟨_, congrArg (·, _) note_nil.symm, .inr ⟨fun h => ?_, _, rfl⟩⟩
                exact absurd h.1 Bool.false_ne_true
            | some identifier =>
                dsimp only
                obtain ⟨result, hprepare, hresult⟩ := prepare_eq config dns01Identifiers hidentifier
                rw [hprepare]
                rcases hresult with ⟨hprepares, rfl⟩ | ⟨hnot, err, rfl⟩
                · cases hready : challenge.setReady with
                  | ok _ => exact ⟨_, rfl, .inl ⟨⟨rfl, hprepares, rfl⟩, rfl⟩⟩
                  | error err => exact ⟨_, rfl, .inr ⟨fun h => (by cases h.2.2), err, rfl⟩⟩
                · exact ⟨_, rfl, .inr ⟨fun h => hnot h.2.1, err, rfl⟩⟩

/-- The part of the configuration that calls do not change. -/
structure SameSettings (config later : AcmeConfig F A) : Prop where
  challengeType : later.challengeType = config.challengeType
  dnsProvider : later.dnsProvider = config.dnsProvider

theorem SameSettings.recordOf_eq {later : AcmeConfig F A} (h : SameSettings config later)
    (authorization : Except Str Authorization) :
    recordOf later authorization = recordOf config authorization := by
  unfold recordOf
  rw [h.challengeType, h.dnsProvider]

theorem SameSettings.passes_iff {later : AcmeConfig F A} (h : SameSettings config later)
    (authorization : Except Str Authorization) :
    Passes later authorization ↔ Passes config authorization := by
  unfold Passes Prepares
  rw [h.challengeType, h.dnsProvider]

theorem sameSettings_note (config : AcmeConfig F A) (events : List Event) :
    SameSettings config (config.note events) := ⟨rfl, rfl⟩

variable [DecidableEq F] (locate : PathBuf → F) (encoding : Encoding R)

/-- Writing the account changes the files and the cache. -/
theorem setAccount_eq (config : AcmeConfig F A) (value : Bytes) (write : Write) :
    ∃ files accountCache, setAccount locate config value write =
      { config with files := files, accountCache := accountCache } := ⟨_, _, rfl⟩

/-- Removing the account changes the files and the cache. -/
theorem removeAccount_eq (config : AcmeConfig F A) (removed : Bool) :
    ∃ files accountCache, removeAccount locate config removed =
      { config with files := files, accountCache := accountCache } := by
  unfold removeAccount
  split <;> exact ⟨_, _, rfl⟩

/-- Where the account comes from. -/
theorem acmeAccount_cases (config : AcmeConfig F A) (answers : Answers A R) :
    (∃ account, config.account = some account ∧
      acmeAccount locate encoding config answers = ({ config with account := none }, .ok account)) ∨
    (config.account = none ∧ (cachedCredentials locate encoding config).isSome = true ∧
      acmeAccount locate encoding config answers = (config, answers.fromCredentials)) ∨
    (config.account = none ∧ cachedCredentials locate encoding config = none ∧
      ∃ err, answers.create = .error err ∧
        acmeAccount locate encoding config answers = (config, .error err)) ∨
    (config.account = none ∧ cachedCredentials locate encoding config = none ∧
      ∃ account credentials err, answers.create = .ok (account, credentials) ∧
        encoding.toVec credentials = .error err ∧
        acmeAccount locate encoding config answers = (config.note [.accountCreated], .error err)) ∨
    (config.account = none ∧ cachedCredentials locate encoding config = none ∧
      ∃ account credentials value, answers.create = .ok (account, credentials) ∧
        encoding.toVec credentials = .ok value ∧
        acmeAccount locate encoding config answers =
          (setAccount locate (config.note [.accountCreated]) value answers.accountWrite, .ok account)) := by
  unfold acmeAccount
  cases haccount : config.account with
  | some account => exact .inl ⟨account, rfl, rfl⟩
  | none =>
      refine .inr ?_
      cases hcached : cachedCredentials locate encoding config with
      | some credentials => exact .inl ⟨rfl, rfl, rfl⟩
      | none =>
          refine .inr ?_
          cases hcreate : answers.create with
          | error err => exact .inl ⟨rfl, rfl, err, rfl, rfl⟩
          | ok created =>
              refine .inr ?_
              cases hvalue : encoding.toVec created.2 with
              | error err =>
                  refine .inl ⟨rfl, rfl, created.1, created.2, err, rfl, hvalue, ?_⟩
                  dsimp only
                  rw [hvalue]
              | ok value =>
                  refine .inr ⟨rfl, rfl, created.1, created.2, value, rfl, hvalue, ?_⟩
                  dsimp only
                  rw [hvalue]

/-- The server reports that the account does not exist. -/
def Answers.ReportsMissing (answers : Answers A R) : Prop :=
  answers.newOrder = .error (.api (some accountDoesNotExist))

/-- A new order is placed, or there is none and the account stays or is removed. -/
theorem newOrder_cases (config : AcmeConfig F A) (answers : Answers A R) :
    (answers.newOrder = .ok () ∧ newOrder locate config answers = (config, .ok ())) ∨
    (answers.ReportsMissing ∧ ∃ err, newOrder locate config answers =
      ((removeAccount locate config answers.accountRemoved).note [.accountMissing], .error err)) ∨
    (answers.newOrder ≠ .ok () ∧ ¬answers.ReportsMissing ∧
      ∃ err, newOrder locate config answers = (config, .error err)) := by
  unfold newOrder Answers.ReportsMissing
  cases answers.newOrder with
  | ok _ => exact .inl ⟨rfl, rfl⟩
  | error err =>
      refine .inr ?_
      have hnot : (Except.error err : Except OrderError Unit) ≠ .ok () := fun h => by cases h
      cases err with
      | other err => exact .inr ⟨hnot, fun h => (by cases h), _, rfl⟩
      | api problem =>
          by_cases hproblem : problem = some accountDoesNotExist
          · refine .inl ⟨by rw [hproblem], .api problem, ?_⟩
            dsimp only
            rw [if_pos hproblem]
          · refine .inr ⟨hnot, fun h => hproblem ?_, .api problem, ?_⟩
            · exact OrderError.api.inj (Except.error.inj h)
            · dsimp only
              rw [if_neg hproblem]

/-- The configuration behind the check and the order. -/
theorem renew_cases (config : AcmeConfig F A) (account : A) (answers : Answers A R) :
    ((∃ err, answers.check = .error err) ∧ (renew locate config account answers).1 = config) ∨
    (answers.check = .ok true ∧
      (renew locate config account answers).1 = { config with account := some account }) ∨
    (answers.check = .ok false ∧ answers.newOrder = .ok () ∧ (renew locate config account answers).1 =
      (completeOrder config account answers [] answers.authorizations).1) ∨
    (answers.check = .ok false ∧ answers.ReportsMissing ∧ (renew locate config account answers).1 =
      (removeAccount locate config answers.accountRemoved).note [.accountMissing]) ∨
    (answers.check = .ok false ∧ answers.newOrder ≠ .ok () ∧ ¬answers.ReportsMissing ∧
      (renew locate config account answers).1 = config) := by
  unfold renew
  rcases answers.check with err | _ | _
  · exact .inl ⟨⟨err, rfl⟩, rfl⟩
  · refine .inr (.inr ?_)
    rcases newOrder_cases locate config answers with
      ⟨hplaced, horder⟩ | ⟨hmissing, err, horder⟩ | ⟨hnot, hmissing, err, horder⟩
    · refine .inl ⟨rfl, hplaced, ?_⟩
      rw [horder]
    · refine .inr (.inl ⟨rfl, hmissing, ?_⟩)
      rw [horder]
    · refine .inr (.inr ⟨rfl, hnot, hmissing, ?_⟩)
      rw [horder]
  · exact .inr (.inl ⟨rfl, rfl⟩)

end Steps

end Provision

end Ferron.Acme
