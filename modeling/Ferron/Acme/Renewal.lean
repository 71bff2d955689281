import Ferron.Acme.AcmeCache
import Ferron.Lib.History
import Ferron.Lib.Run

/-!
# The renewal of certificates

`provision_certificate` is called every ten seconds. It judges the certificate in use, and then the one
in the cache, by the renewal information that the configuration holds, or by its own validity without
any, and orders a new one when both are due.

The renewal information that is held is asked for again only when its retry instant has passed, and a
new certificate does not discard it, so a certificate may be judged by the information of the one before
it. `run_converges_iff` says in which runs every certificate is judged by its own and orders are placed
only for certificates that are due.

The model keeps two notes that nothing reads: the certificate for which the renewal information was
obtained, and what the calls did.
-/

set_option autoImplicit false

namespace Ferron.Acme.Renewal

open Ferron.Lib Ferron.Lib.History

/-- `SECONDS_BEFORE_RENEWAL`: 1 day before expiration. -/
def secondsBeforeRenewal : Nat := 86400

/-- `RenewalInfo`: the start of the suggested window. -/
structure RenewalInfo where
  start : Int
  deriving DecidableEq

/-- The validity of a certificate: the time to its expiration at a point in time, when it is valid
there, and the whole seconds between its ends, when the difference is defined. Times and durations are
in nanoseconds. -/
structure Validity where
  timeToExpiration : Int → Option Nat
  validSeconds : Option Int

/-- What is kept in the cache for certificates. -/
structure CertificateCacheData where
  certificateChainPem : Str
  privateKeyPem : Str

/-- What the certificate, encoding and key libraries do. -/
structure Library (C D K : Type) where
  /-- `CertificateIdentifier::try_from`, whether it gives one. -/
  hasIdentifier : C → Bool
  /-- `X509Certificate::from_der` and `validity`. -/
  validity : C → Except Str Validity
  /-- `serde_json::from_slice`. -/
  fromSlice : Bytes → Option CertificateCacheData
  /-- `serde_json::to_vec`. -/
  toVec : CertificateCacheData → Except Str Bytes
  /-- `CertificateDer::pem_slice_iter`, collected. -/
  certificates : Str → Option (List C)
  /-- `PrivateKeyDer::from_pem_slice`. -/
  privateKey : Str → Option D
  /-- `load_private_key` of the default provider. -/
  loadPrivateKey : D → Except Str K

/-- `CertifiedKey`. -/
structure CertifiedKey (C K : Type) where
  cert : List C
  key : K

/-- The renewal information of the configuration: the information, its retry instant, and the
certificate for which it was obtained. -/
structure HeldRenewalInfo (C : Type) where
  info : RenewalInfo
  instant : Int
  /-- A note: the server has no such field. -/
  certificate : C

/-- What a call did: it judged a certificate by the renewal information of a certificate, if there was
any, it placed an order, or it installed the certificates that it had obtained. -/
inductive Event (C : Type) where
  | judged (certificate : C) (by_ : Option C) (valid : Except Str Bool)
  | ordered
  | obtained (certificates : List C)

/-- `AcmeConfig`, as far as the renewal changes it. -/
structure AcmeConfig (F C K : Type) where
  certifiedKey : Option (CertifiedKey C K)
  files : Files F
  certificateCache : AcmeCache
  /-- `get_certificate_cache_key`. -/
  certificateCacheKey : Str
  renewalInfo : Option (HeldRenewalInfo C)
  /-- A note of what the calls did. -/
  events : List (Event C)

/-- What the clocks and the ACME server say while a certificate is judged. -/
structure Query where
  /-- Whether there is an account to ask with. -/
  account : Bool
  /-- The instant at which `elapsed` is called. -/
  elapsedAt : Int
  /-- The answer of the server to the query for the certificate. -/
  renewalInfo : Option (RenewalInfo × Nat)
  /-- The instant behind the answer. -/
  fetchedAt : Int
  /-- `SystemTime::now`. -/
  systemTime : Int

section Model

variable {F C D K : Type} [DecidableEq F] (locate : PathBuf → F) (library : Library C D K)

/-- `check_certificate_validity`. -/
def checkCertificateValidity (certificate : C) (renewalInfo : Option RenewalInfo) (systemTime : Int) :
    Except Str Bool :=
  match renewalInfo with
  | some renewalInfo => .ok (decide (systemTime < renewalInfo.start))
  | none =>
      match library.validity certificate with
      | .error err => .error err
      | .ok validity =>
          match validity.timeToExpiration systemTime with
          | none => .ok false
          | some timeToExpiration =>
              let timeBeforeExpiration :=
                match validity.validSeconds with
                | some validSeconds => min (validSeconds.natAbs / 2) secondsBeforeRenewal
                | none => secondsBeforeRenewal
              .ok (decide (timeBeforeExpiration * 1000000000 ≤ timeToExpiration))

/-- The retry instant has passed, or there is no renewal information. -/
def isDue (renewalInfo : Option (HeldRenewalInfo C)) (elapsedAt : Int) : Bool :=
  renewalInfo.all fun held => held.instant < elapsedAt

/-- The renewal information of a certificate is asked for when it is due. The retry instant is made of
the instant behind the answer. -/
def refresh (retryInstant : Int → Nat → Int) (config : AcmeConfig F C K) (certificate : C)
    (query : Query) : AcmeConfig F C K :=
  if query.account && isDue config.renewalInfo query.elapsedAt && library.hasIdentifier certificate then
    match query.renewalInfo with
    | some (info, retryAfter) =>
        { config with
          renewalInfo := some ⟨info, retryInstant query.fetchedAt retryAfter, certificate⟩ }
    | none => config
  else config

/-- Judges a certificate by the renewal information that is held. -/
def judge (config : AcmeConfig F C K) (certificate : C) (systemTime : Int) :
    AcmeConfig F C K × Except Str Bool :=
  let valid := checkCertificateValidity library certificate
    (config.renewalInfo.map HeldRenewalInfo.info) systemTime
  ({ config with
    events := config.events ++
      [.judged certificate (config.renewalInfo.map HeldRenewalInfo.certificate) valid] }, valid)

/-- The certificate in use. -/
def AcmeConfig.live (config : AcmeConfig F C K) : Option C :=
  config.certifiedKey.bind fun certifiedKey => certifiedKey.cert.head?

/-- The data in the cache, when their certificates are not corrupted, and the first certificate. -/
def cachedCertificates (config : AcmeConfig F C K) : Option (CertificateCacheData × List C × C) :=
  ((getFromCache locate config.files config.certificateCache config.certificateCacheKey).bind
    library.fromSlice).bind fun data =>
      (library.certificates data.certificateChainPem).bind fun certs =>
        certs.head?.map fun certificate => (data, certs, certificate)

/-- The second half of `check_certificate_validity_or_install_cached`. -/
def installCached (config : AcmeConfig F C K) (query : Query) : AcmeConfig F C K × Except Str Bool :=
  match cachedCertificates locate library config with
  | none => (config, .ok false)
  | some (data, certs, certificate) =>
      -- here the retry instant lies before the answer
      let config := refresh library (fun fetchedAt retryAfter => fetchedAt - retryAfter) config
        certificate query
      match judge library config certificate query.systemTime with
      | (config, .error err) => (config, .error err)
      | (config, .ok false) => (config, .ok false)
      | (config, .ok true) =>
          match library.privateKey data.privateKeyPem with
          | none => (config, .ok false)
          | some privateKey =>
              match library.loadPrivateKey privateKey with
              | .error err => (config, .error err)
              | .ok key => ({ config with certifiedKey := some ⟨certs, key⟩ }, .ok true)

/-- `check_certificate_validity_or_install_cached`. -/
def checkCertificateValidityOrInstallCached (config : AcmeConfig F C K) (live cached : Query) :
    AcmeConfig F C K × Except Str Bool :=
  match config.live with
  | none => installCached locate library config cached
  | some certificate =>
      let config := refresh library (fun fetchedAt retryAfter => fetchedAt + retryAfter) config
        certificate live
      match judge library config certificate live.systemTime with
      | (config, .error err) => (config, .error err)
      | (config, .ok true) => (config, .ok true)
      | (config, .ok false) => installCached locate library config cached

/-- Notes an event. -/
def AcmeConfig.note (config : AcmeConfig F C K) (event : Event C) : AcmeConfig F C K :=
  { config with events := config.events ++ [event] }

/-- What `provision_certificate` does with the certificate chain and the private key of an order. -/
def installOrdered (config : AcmeConfig F C K) (data : CertificateCacheData) (write : Write) :
    AcmeConfig F C K :=
  match library.toVec data with
  | .error _ => config
  | .ok bytes =>
      -- an error of the cache is only logged
      let (_, files, certificateCache) :=
        setInCacheWith locate config.files config.certificateCache config.certificateCacheKey bytes write
      let config := { config with files := files, certificateCache := certificateCache }
      match library.certificates data.certificateChainPem,
        (library.privateKey data.privateKeyPem).map library.loadPrivateKey with
      | some certs, some (.ok key) =>
          { config with certifiedKey := some ⟨certs, key⟩ }.note (.obtained certs)
      | _, _ => config

/-- A use of the configuration: the check before the loop, which has no account, or a call of
`provision_certificate`. The call has no effect when it gets no account, and `order` has the certificate
chain and the private key when the order succeeds, with what writing them to the cache comes to. -/
inductive Action where
  | preload (live cached : Query)
  | provision (account : Bool) (live cached : Query) (order : Option (CertificateCacheData × Write))

/-- One use of the configuration. -/
def step (config : AcmeConfig F C K) : Action → AcmeConfig F C K
  | .preload live cached =>
      (checkCertificateValidityOrInstallCached locate library config
        { live with account := false } { cached with account := false }).1
  | .provision false _ _ _ => config
  | .provision true live cached order =>
      match checkCertificateValidityOrInstallCached locate library config
        { live with account := true } { cached with account := true } with
      | (config, .error _) => config
      | (config, .ok true) => config
      | (config, .ok false) =>
          let config := config.note .ordered
          match order with
          | none => config
          | some (data, write) => installOrdered locate library config data write

/-- The configuration before its first use. -/
def AcmeConfig.initial (files : Files F) (certificateCache : AcmeCache) (certificateCacheKey : Str) :
    AcmeConfig F C K :=
  ⟨none, files, certificateCache, certificateCacheKey, none, []⟩

end Model

/-! ## What the renewal is for -/

variable {F C D K : Type}

/-- A certificate that is judged is judged by its own renewal information, or without any. -/
def Event.IsOwn : Event C → Prop
  | .judged certificate of _ => ∀ other ∈ of, other = certificate
  | _ => True

/-- A certificate is obtained. -/
def Event.Obtains (certificate : C) : Event C → Prop
  | .obtained certs => certs.head? = some certificate
  | _ => False

/-- A certificate is not valid any more, by its own renewal information or by its own validity. -/
def Event.CallsForRenewal (certificate : C) : Event C → Prop
  | .judged other of valid => other = certificate ∧ valid = .ok false ∧ ∀ held ∈ of, held = certificate
  | _ => False

def Event.IsOrder : Event C → Prop
  | .ordered => True
  | _ => False

/-- The renewal converges: a certificate is judged by its own renewal information, and after it is
obtained no order is placed until it calls for renewal. -/
structure Converges (events : List (Event C)) : Prop where
  judgedByOwn : ∀ event ∈ events, event.IsOwn
  orderedWhenDue : ∀ certificate, AbsentUntil (Event.Obtains certificate)
    (Event.CallsForRenewal certificate) Event.IsOrder events

/-- When a certificate is judged, the renewal information that is held is its own, or it is due and
the server gives that of the certificate. -/
def OwnAt (library : Library C D K) (config : AcmeConfig F C K) (certificate : C) (query : Query) :
    Prop :=
  (∀ held ∈ config.renewalInfo, held.certificate = certificate) ∨
    query.account = true ∧ isDue config.renewalInfo query.elapsedAt = true ∧
      library.hasIdentifier certificate = true ∧ query.renewalInfo.isSome = true

/-- The configuration after the server was asked for the renewal information of the certificate in
use. -/
def askedForLive (library : Library C D K) (config : AcmeConfig F C K) (live : Query) :
    AcmeConfig F C K :=
  match config.live with
  | none => config
  | some certificate =>
      refresh library (fun fetchedAt retryAfter => fetchedAt + retryAfter) config certificate live

/-- The certificate in use, if there is one, is not valid any more. -/
def LiveIsDue (library : Library C D K) (config : AcmeConfig F C K) (live : Query) : Prop :=
  ∀ certificate ∈ config.live, checkCertificateValidity library certificate
    ((askedForLive library config live).renewalInfo.map HeldRenewalInfo.info) live.systemTime = .ok false

section Condition

variable [DecidableEq F] (locate : PathBuf → F) (library : Library C D K)

/-- The renewal information is not that of another certificate, neither for the certificate in use nor
for the one in the cache, when that one is judged. -/
def Fresh (config : AcmeConfig F C K) (live cached : Query) : Prop :=
  (∀ certificate ∈ config.live, OwnAt library config certificate live) ∧
    (LiveIsDue library config live → ∀ found ∈ cachedCertificates locate library config,
      OwnAt library (askedForLive library config live) found.2.2 cached)

/-- A use of the configuration in which the renewal information is not that of another certificate. -/
def FreshStep (config : AcmeConfig F C K) : Action → Prop
  | .preload live cached =>
      Fresh locate library config { live with account := false } { cached with account := false }
  | .provision false _ _ _ => True
  | .provision true live cached _ =>
      Fresh locate library config { live with account := true } { cached with account := true }

end Condition

/-! ## Asking and judging -/

section Proofs

variable (library : Library C D K)

/-- The renewal information after the server was asked is that of the certificate exactly when it was
before, or when the server gave it. -/
theorem refresh_own_iff (retryInstant : Int → Nat → Int) (config : AcmeConfig F C K) (certificate : C)
    (query : Query) :
    (∀ held ∈ (refresh library retryInstant config certificate query).renewalInfo,
      held.certificate = certificate) ↔ OwnAt library config certificate query := by
  rw [refresh, OwnAt]
  by_cases hasks : (query.account && isDue config.renewalInfo query.elapsedAt &&
      library.hasIdentifier certificate) = true
  · rw [if_pos hasks]
    rw [Bool.and_eq_true, Bool.and_eq_true] at hasks
    cases hanswer : query.renewalInfo with
    | none => simp
    | some answer => simp [hasks]
  · rw [if_neg hasks]
    rw [Bool.and_eq_true, Bool.and_eq_true] at hasks
    refine ⟨Or.inl, ?_⟩
    rintro (hown | ⟨haccount, hdue, hidentifier, -⟩)
    · exact hown
    · exact absurd ⟨⟨haccount, hdue⟩, hidentifier⟩ hasks

/-- Asking changes the renewal information only. -/
theorem refresh_eq (retryInstant : Int → Nat → Int) (config : AcmeConfig F C K) (certificate : C)
    (query : Query) :
    ∃ renewalInfo, refresh library retryInstant config certificate query =
      { config with renewalInfo := renewalInfo } := by
  rw [refresh]
  by_cases hasks : (query.account && isDue config.renewalInfo query.elapsedAt &&
      library.hasIdentifier certificate) = true
  · rw [if_pos hasks]
    cases query.renewalInfo with
    | none => exact ⟨config.renewalInfo, rfl⟩
    | some answer => exact ⟨_, rfl⟩
  · rw [if_neg hasks]
    exact ⟨config.renewalInfo, rfl⟩

/-- The events that a check notes are judgements, and they are by the certificates' own renewal
information when `own` says so. -/
structure Notes (config result : AcmeConfig F C K) (own : Prop) (judged : List (Event C)) : Prop where
  events : result.events = config.events ++ judged
  judgement : ∀ event ∈ judged, ∃ certificate of valid, event = .judged certificate of valid
  own_iff : (∀ event ∈ judged, event.IsOwn) ↔ own

theorem notes_nil (config : AcmeConfig F C K) {own : Prop} (hown : own) :
    Notes config config own [] where
  events := (List.append_nil _).symm
  judgement := fun _ hevent => absurd hevent List.not_mem_nil
  own_iff := ⟨fun _ => hown, fun _ _ hevent => absurd hevent List.not_mem_nil⟩

/-- A certificate is judged after the server was asked. -/
theorem notes_judge (retryInstant : Int → Nat → Int) (config : AcmeConfig F C K) (certificate : C)
    (query : Query) (systemTime : Int) :
    ∃ of, Notes config
      (judge library (refresh library retryInstant config certificate query) certificate systemTime).1
      (OwnAt library config certificate query)
      [.judged certificate of
        (judge library (refresh library retryInstant config certificate query) certificate
          systemTime).2] := by
  refine ⟨(refresh library retryInstant config certificate query).renewalInfo.map
    HeldRenewalInfo.certificate, ?_, ?_, ?_⟩
  · obtain ⟨renewalInfo, heq⟩ := refresh_eq library retryInstant config certificate query
    rw [heq]
    rfl
  · intro event hevent
    exact ⟨_, _, _, List.mem_singleton.mp hevent⟩
  · rw [← refresh_own_iff library retryInstant]
    simp [Event.IsOwn]

/-- One check after the other. -/
theorem Notes.trans {config middle result : AcmeConfig F C K} {own own' : Prop}
    {judged judged' : List (Event C)} (h : Notes config middle own judged)
    (h' : Notes middle result own' judged') : Notes config result (own ∧ own') (judged ++ judged') where
  events := by rw [h'.events, h.events, List.append_assoc]
  judgement := by
    intro event hevent
    rcases List.mem_append.mp hevent with hevent | hevent
    · exact h.judgement event hevent
    · exact h'.judgement event hevent
  own_iff := by rw [List.forall_mem_append, h.own_iff, h'.own_iff]

variable (locate : PathBuf → F)

/-- What is noted for the certificate in the cache. -/
theorem notes_installCached (config : AcmeConfig F C K) (query : Query) :
    ∃ judged, Notes config (installCached locate library config query).1
      (∀ found ∈ cachedCertificates locate library config, OwnAt library config found.2.2 query)
      judged := by
  rw [installCached]
  cases hfound : cachedCertificates locate library config with
  | none => exact ⟨[], notes_nil config (fun _ h => absurd h (by simp))⟩
  | some found =>
      obtain ⟨data, certs, certificate⟩ := found
      obtain ⟨of, hjudged⟩ := notes_judge library (fun fetchedAt retryAfter => fetchedAt - retryAfter)
        config certificate query query.systemTime
      refine ⟨_, ?_, hjudged.judgement, ?_⟩
      · -- installing the certificate notes nothing more
        rw [← hjudged.events]
        dsimp only
        rcases judge library _ certificate query.systemTime with ⟨judged, _ | _ | _⟩
        · rfl
        · rfl
        · dsimp only
          cases library.privateKey data.privateKeyPem with
          | none => rfl
          | some privateKey =>
              dsimp only
              cases library.loadPrivateKey privateKey <;> rfl
      · rw [hjudged.own_iff]
        simp

/-- What is noted by a check, and the certificate in use after it: one that was in use before still is,
or it was judged not to be valid any more. -/
theorem notes_check (config : AcmeConfig F C K) (live cached : Query) :
    ∃ judged, Notes config
        (checkCertificateValidityOrInstallCached locate library config live cached).1
        (Fresh locate library config live cached) judged ∧
      ∀ certificate, config.live = some certificate →
        ((checkCertificateValidityOrInstallCached locate library config live cached).1.live =
            some certificate ∧
          (checkCertificateValidityOrInstallCached locate library config live cached).2 ≠ .ok false) ∨
        ∃ of, Event.judged certificate of (.ok false) ∈ judged := by
  rw [checkCertificateValidityOrInstallCached, Fresh, LiveIsDue, askedForLive]
  cases hlive : config.live with
  | none =>
      obtain ⟨judged, hjudged⟩ := notes_installCached library locate config cached
      refine ⟨judged, ⟨hjudged.events, hjudged.judgement, ?_⟩, by simp⟩
      rw [hjudged.own_iff]
      simp
  | some certificate =>
      obtain ⟨of, hjudged⟩ := notes_judge library (fun fetchedAt retryAfter => fetchedAt + retryAfter)
        config certificate live live.systemTime
      dsimp only
      set asked := refresh library (fun fetchedAt retryAfter => fetchedAt + retryAfter) config
        certificate live with hasked
      obtain ⟨renewalInfo, heq⟩ : ∃ renewalInfo, asked = { config with renewalInfo := renewalInfo } :=
        refresh_eq library _ config certificate live
      rw [judge] at hjudged ⊢
      dsimp only at hjudged ⊢
      have hlive' : asked.live = some certificate := by
        rw [heq]
        exact hlive
      -- the certificate in the cache is judged in the case that the one in use is due
      cases hvalid : checkCertificateValidity library certificate
        (asked.renewalInfo.map HeldRenewalInfo.info) live.systemTime with
      | error err =>
          rw [hvalid] at hjudged
          refine ⟨_, ⟨hjudged.events, hjudged.judgement, ?_⟩, ?_⟩
          · rw [hjudged.own_iff]
            simp [hvalid]
          · intro other hother
            rw [← hother]
            exact Or.inl ⟨hlive', by simp⟩
      | ok valid =>
          rw [hvalid] at hjudged
          cases valid with
          | true =>
              refine ⟨_, ⟨hjudged.events, hjudged.judgement, ?_⟩, ?_⟩
              · rw [hjudged.own_iff]
                simp [hvalid]
              · intro other hother
                rw [← hother]
                exact Or.inl ⟨hlive', by simp⟩
          | false =>
              obtain ⟨judged, hcached⟩ := notes_installCached library locate
                { asked with events := asked.events ++ [Event.judged certificate
                    (asked.renewalInfo.map HeldRenewalInfo.certificate) (.ok false)] } cached
              have hboth := hjudged.trans hcached
              refine ⟨_, ⟨hboth.events, hboth.judgement, ?_⟩, ?_⟩
              · rw [hboth.own_iff]
                have hdue : ∀ other ∈ some certificate, checkCertificateValidity library other
                    (asked.renewalInfo.map HeldRenewalInfo.info) live.systemTime = .ok false := by
                  intro other hother
                  rw [← Option.some.inj hother]
                  exact hvalid
                have hsame : cachedCertificates locate library asked =
                    cachedCertificates locate library config := by
                  rw [heq]
                  rfl
                rw [← hsame]
                refine and_congr ?_ ⟨fun h _ => h, fun h => h hdue⟩
                simp
              · intro other hother
                rw [← Option.some.inj hother]
                exact Or.inr ⟨of, List.mem_append_left _ List.mem_cons_self⟩

/-- After a check an obtained certificate waits for its renewal when it is in use and the check did
not find that one is needed. -/
theorem tracks_check (config : AcmeConfig F C K) (live cached : Query)
    (hfresh : Fresh locate library config live cached) (certificate : C)
    (h : Tracks (Event.Obtains certificate) (Event.CallsForRenewal certificate) Event.IsOrder
      (config.live = some certificate) config.events) :
    Tracks (Event.Obtains certificate) (Event.CallsForRenewal certificate) Event.IsOrder
      ((checkCertificateValidityOrInstallCached locate library config live cached).1.live =
          some certificate ∧
        (checkCertificateValidityOrInstallCached locate library config live cached).2 ≠ .ok false)
      (checkCertificateValidityOrInstallCached locate library config live cached).1.events := by
  obtain ⟨judged, hnotes, hlive⟩ := notes_check library locate config live cached
  rw [hnotes.events]
  refine h.append ?_ ?_
  · intro event hevent
    obtain ⟨other, of, valid, rfl⟩ := hnotes.judgement event hevent
    exact id
  · intro hcertificate
    rcases hlive certificate hcertificate with hkept | ⟨of, hdue⟩
    · refine Or.inl ⟨hkept, fun event hevent => ?_⟩
      obtain ⟨other, of, valid, rfl⟩ := hnotes.judgement event hevent
      exact id
    · -- all events before it are judgements too
      obtain ⟨before, after, heq⟩ := List.append_of_mem hdue
      have hown := hnotes.own_iff.mpr hfresh _ hdue
      refine Or.inr ⟨before, _, after, heq, ⟨rfl, rfl, hown⟩, fun event hevent => ?_⟩
      have hmem : event ∈ judged := by
        rw [heq]
        exact List.mem_append_left _ hevent
      obtain ⟨other, of, valid, rfl⟩ := hnotes.judgement event hmem
      exact id

/-! ## Runs -/

variable [DecidableEq F]

/-- When the certificates of an order are installed they are in use. -/
theorem installOrdered_events (config : AcmeConfig F C K) (data : CertificateCacheData) (write : Write) :
    (installOrdered locate library config data write).events = config.events ∨
      ∃ certs, (installOrdered locate library config data write).events =
          config.events ++ [.obtained certs] ∧
        (installOrdered locate library config data write).live = certs.head? := by
  rw [installOrdered]
  cases library.toVec data with
  | error err => exact Or.inl rfl
  | ok bytes =>
      dsimp only
      cases library.certificates data.certificateChainPem with
      | none => exact Or.inl rfl
      | some certs =>
          cases (library.privateKey data.privateKeyPem).map library.loadPrivateKey with
          | none => exact Or.inl rfl
          | some key =>
              cases key with
              | error err => exact Or.inl rfl
              | ok key => exact Or.inr ⟨certs, rfl, rfl⟩

/-- What one use of the configuration notes: the certificates are judged by their own renewal
information exactly when it is fresh. -/
theorem step_events (config : AcmeConfig F C K) (action : Action) :
    ∃ events, (step locate library config action).events = config.events ++ events ∧
      ((∀ event ∈ events, event.IsOwn) ↔ FreshStep locate library config action) := by
  cases action with
  | preload live cached =>
      obtain ⟨judged, hnotes, -⟩ := notes_check library locate config
        { live with account := false } { cached with account := false }
      exact ⟨judged, hnotes.events, hnotes.own_iff⟩
  | provision account live cached order =>
      cases account with
      | false => exact ⟨[], (List.append_nil _).symm, by simp [FreshStep]⟩
      | true =>
          obtain ⟨judged, hnotes, -⟩ := notes_check library locate config
            { live with account := true } { cached with account := true }
          rw [step, FreshStep, ← hnotes.own_iff]
          rcases hcheck : checkCertificateValidityOrInstallCached locate library config
            { live with account := true } { cached with account := true } with ⟨checked, result⟩
          have hevents : checked.events = config.events ++ judged := by
            rw [← hnotes.events, hcheck]
          rcases result with err | _ | _
          · exact ⟨judged, hevents, Iff.rfl⟩
          · cases order with
            | none =>
                refine ⟨judged ++ [.ordered], ?_, by simp [or_imp, forall_and, Event.IsOwn]⟩
                rw [← List.append_assoc, ← hevents]
                rfl
            | some order =>
                dsimp only
                rcases installOrdered_events library locate (checked.note .ordered) order.1 order.2 with
                  h | ⟨certs, h, -⟩
                · refine ⟨judged ++ [.ordered], ?_, by simp [or_imp, forall_and, Event.IsOwn]⟩
                  rw [h, ← List.append_assoc, ← hevents]
                  rfl
                · refine ⟨judged ++ [.ordered] ++ [.obtained certs], ?_,
                    by simp [or_imp, forall_and, Event.IsOwn]⟩
                  rw [h, ← List.append_assoc, ← List.append_assoc, ← hevents]
                  rfl
          · exact ⟨judged, hevents, Iff.rfl⟩

/-- One use of the configuration, with renewal information that is fresh: an obtained certificate that
is in use waits for its renewal. -/
theorem step_tracks (config : AcmeConfig F C K) (action : Action)
    (hfresh : FreshStep locate library config action) (certificate : C)
    (h : Tracks (Event.Obtains certificate) (Event.CallsForRenewal certificate) Event.IsOrder
      (config.live = some certificate) config.events) :
    Tracks (Event.Obtains certificate) (Event.CallsForRenewal certificate) Event.IsOrder
      ((step locate library config action).live = some certificate)
      (step locate library config action).events := by
  cases action with
  | preload live cached =>
      exact (tracks_check library locate config _ _ hfresh certificate h).mono fun hwaits => hwaits.1
  | provision account live cached order =>
      cases account with
      | false => exact h
      | true =>
          have hchecked := tracks_check library locate config _ _ hfresh certificate h
          rw [step]
          rcases hcheck : checkCertificateValidityOrInstallCached locate library config
            { live with account := true } { cached with account := true } with ⟨checked, result⟩
          rw [hcheck] at hchecked
          rcases result with err | _ | _
          · exact hchecked.mono fun hwaits => hwaits.1
          · -- an order is placed when nothing waits
            have hordered : Tracks (Event.Obtains certificate) (Event.CallsForRenewal certificate)
                Event.IsOrder False (checked.events ++ [.ordered]) := by
              refine hchecked.append ?_ fun hwaits => absurd rfl hwaits.2
              intro event hevent
              rw [List.mem_singleton.mp hevent]
              exact id
            cases order with
            | none => exact hordered.mono False.elim
            | some order =>
                dsimp only
                rcases installOrdered_events library locate (checked.note .ordered) order.1 order.2 with
                  hsame | ⟨certs, hevents, hlive⟩
                · rw [hsame]
                  exact hordered.mono False.elim
                · rw [hevents, hlive]
                  exact hordered.open fun hobtains => hobtains
          · exact hchecked.mono fun hwaits => hwaits.1

/-- The certificates of a run are judged by their own renewal information exactly when it is fresh at
every step. -/
theorem run_own_iff (config : AcmeConfig F C K) (actions : List Action) :
    (∀ event ∈ (Run.run (step locate library) config actions).events, event.IsOwn) ↔
      (∀ event ∈ config.events, event.IsOwn) ∧
        Run.AllSteps (step locate library) (FreshStep locate library) config actions := by
  induction actions generalizing config with
  | nil => simp [Run.AllSteps]
  | cons action actions ih =>
      obtain ⟨events, hevents, hown⟩ := step_events library locate config action
      rw [Run.run_cons, ih, hevents, List.forall_mem_append, hown, and_assoc]
      rfl

/-- Renewal converges in exactly the runs in which the renewal information, whenever a certificate is
judged by it, is not that of another certificate. -/
theorem run_converges_iff (files : Files F) (certificateCache : AcmeCache) (certificateCacheKey : Str)
    (actions : List Action) :
    Converges (Run.run (step locate library)
        (AcmeConfig.initial files certificateCache certificateCacheKey) actions).events ↔
      Run.AllSteps (step locate library) (FreshStep locate library)
        (AcmeConfig.initial files certificateCache certificateCacheKey) actions := by
  have hinitial : ∀ event ∈ (AcmeConfig.initial (C := C) (K := K) files certificateCache
      certificateCacheKey).events, event.IsOwn := fun _ hevent => absurd hevent List.not_mem_nil
  constructor
  · intro h
    exact ((run_own_iff library locate _ actions).mp h.judgedByOwn).2
  · intro hall
    refine ⟨(run_own_iff library locate _ actions).mpr ⟨hinitial, hall⟩, fun certificate => ?_⟩
    have htracks := Run.run_invariant
      (fun config action hfresh => step_tracks library locate config action hfresh certificate)
      (tracks_nil _) hall
    refine absentUntil_of_tracks htracks fun event hcalls horder => ?_
    cases event with
    | judged other of valid => exact horder
    | ordered => exact hcalls
    | obtained certs => exact horder

end Proofs

/-! ## A certificate that is judged by the information of the one before it -/

/-- Seconds, in nanoseconds. -/
def seconds (n : Nat) : Int := n * 1000000000

/-- Certificates and keys are what stands in the PEM data. The data in the cache are the lengths of the
two in front of them. -/
def pemLibrary : Library Str Str Str where
  hasIdentifier _ := true
  validity _ := .ok ⟨fun now => if now < seconds 7776000 then some (seconds 7776000 - now).toNat else none,
    some 7776000⟩
  fromSlice
    | n :: bytes =>
        let text := bytes.map fun byte => Char.ofNat byte.toNat
        some ⟨text.take n.toNat, text.drop n.toNat⟩
    | [] => none
  toVec data := .ok (UInt8.ofNat data.certificateChainPem.length ::
    (data.certificateChainPem ++ data.privateKeyPem).map fun c => UInt8.ofNat c.toNat)
  certificates pem := some [pem]
  privateKey pem := some pem
  loadPrivateKey key := .ok key

/-- What is said at a point in time: the window of a certificate that is asked about starts an hour
later, and the server is to be asked again after six hours. -/
def queryAt (now : Nat) : Query where
  account := true
  elapsedAt := seconds now
  renewalInfo := some (⟨seconds (now + 3600)⟩, 21600000000000)
  fetchedAt := seconds now
  systemTime := seconds now

/-- A certificate is obtained, its renewal information is asked for ten seconds later, the window
starts, a second certificate is obtained, and ten seconds later the certificates are judged again. -/
def staleRun : List Action := [
  .provision true (queryAt 0) (queryAt 0) (some (⟨"first".toList, "key".toList⟩, .succeeds)),
  .provision true (queryAt 10) (queryAt 10) none,
  .provision true (queryAt 3610) (queryAt 3610) (some (⟨"second".toList, "key".toList⟩, .succeeds)),
  .provision true (queryAt 3620) (queryAt 3620) none]

theorem staleRun_events :
    (Run.run (step (fun _ => ()) pemLibrary)
      (AcmeConfig.initial (fun _ => none) (.memory ∅) "certificate_".toList) staleRun).events =
      [.ordered, .obtained ["first".toList],
        .judged "first".toList (some "first".toList) (.ok true),
        .judged "first".toList (some "first".toList) (.ok false),
        .judged "first".toList (some "first".toList) (.ok false),
        .ordered, .obtained ["second".toList],
        .judged "second".toList (some "first".toList) (.ok false),
        .judged "second".toList (some "first".toList) (.ok false),
        .ordered] := by
  rfl

/-- The second certificate is judged by the information of the first one, and it is ordered again. -/
theorem staleRun_not_converges :
    ¬Converges (Run.run (step (fun _ => ()) pemLibrary)
      (AcmeConfig.initial (fun _ => none) (.memory ∅) "certificate_".toList) staleRun).events := by
  intro h
  have hdue := h.orderedWhenDue "second".toList
  rw [staleRun_events] at hdue
  obtain ⟨event, hevent, hcalls⟩ := hdue
    [.ordered, .obtained ["first".toList],
      .judged "first".toList (some "first".toList) (.ok true),
      .judged "first".toList (some "first".toList) (.ok false),
      .judged "first".toList (some "first".toList) (.ok false), .ordered]
    (.obtained ["second".toList])
    [.judged "second".toList (some "first".toList) (.ok false),
      .judged "second".toList (some "first".toList) (.ok false)] .ordered [] rfl rfl trivial
  have hstale : event = .judged "second".toList (some "first".toList) (.ok false) := by
    simpa using hevent
  rw [hstale] at hcalls
  exact absurd (hcalls.2.2 _ rfl) (by decide)

end Ferron.Acme.Renewal
