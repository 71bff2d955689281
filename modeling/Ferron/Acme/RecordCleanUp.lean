import Ferron.Acme.Provision

/-!
# The records that a call of `provision_certificate` leaves

A call sets TXT records for DNS-01 challenges and requests their removal at its end. The errors between the
two return at once, so the removal is requested only when the order gets ready, or when a later authorization
for the same identifier comes to its own removal (`removalsRequested_iff`).
-/

set_option autoImplicit false

namespace Ferron.Acme.Provision

/-! ## What is cleaned up -/

/-- The removal of each record is requested after it was set. -/
def RemovalsRequested (events : List Event) : Prop :=
  ∀ before identifier after, events = before ++ .recordSet identifier :: after →
    .removalRequested identifier ∈ after

theorem removalsRequested_nil : RemovalsRequested [] :=
  fun _ _ _ h => absurd h (List.append_ne_nil_of_right_ne_nil _ (List.cons_ne_nil _ _)).symm

theorem removalsRequested_cons (event : Event) (events : List Event) :
    RemovalsRequested (event :: events) ↔
      (∀ identifier, event = .recordSet identifier → .removalRequested identifier ∈ events) ∧
        RemovalsRequested events := by
  constructor
  · intro h
    refine ⟨?_, fun before identifier after heq => ?_⟩
    · rintro identifier rfl
      exact h [] identifier events rfl
    · exact h (event :: before) identifier after (congrArg (event :: ·) heq)
  · rintro ⟨hfirst, hrest⟩ before identifier after heq
    cases before with
    | nil =>
        obtain ⟨rfl, rfl⟩ := List.cons.inj heq
        exact hfirst identifier rfl
    | cons head before =>
        obtain ⟨-, rfl⟩ := List.cons.inj heq
        exact hrest before identifier after rfl

/-- Events that set no record may come before. -/
theorem removalsRequested_append_iff {quiet : List Event}
    (hquiet : ∀ identifier, .recordSet identifier ∉ quiet) (events : List Event) :
    RemovalsRequested (quiet ++ events) ↔ RemovalsRequested events := by
  induction quiet with
  | nil => rfl
  | cons event quiet ih =>
      have htail : ∀ identifier, Event.recordSet identifier ∉ quiet := fun identifier h =>
        hquiet identifier (List.mem_cons_of_mem _ h)
      rw [List.cons_append, removalsRequested_cons, ih htail, and_iff_right]
      rintro identifier rfl
      exact absurd List.mem_cons_self (hquiet identifier)

theorem removalsRequested_of_quiet {quiet : List Event}
    (hquiet : ∀ identifier, .recordSet identifier ∉ quiet) : RemovalsRequested quiet := by
  have h := (removalsRequested_append_iff hquiet []).2 removalsRequested_nil
  rwa [List.append_nil] at h

section Condition

variable {F A R : Type} [DecidableEq F] (locate : PathBuf → F) (encoding : Encoding R)

/-- The call gets to an authorization that removes the record of the identifier first, or to the clean-up at
its end. -/
def RemovalReached (config : AcmeConfig F A) (pollReady : Except Str OrderStatus) (identifier : Str) :
    List (Except Str Authorization) → Prop
  | [] => pollReady = .ok .ready
  | authorization :: authorizations =>
      (recordOf config authorization).map Prod.fst = some identifier ∨
        Passes config authorization ∧ RemovalReached config pollReady identifier authorizations

/-- From each authorization that sets a record the call gets to its removal. -/
def CleanUpReached (config : AcmeConfig F A) (pollReady : Except Str OrderStatus) :
    List (Except Str Authorization) → Prop
  | [] => True
  | authorization :: authorizations =>
      (∀ identifier, recordOf config authorization = some (identifier, true) →
          Passes config authorization ∧ RemovalReached config pollReady identifier authorizations) ∧
        (Passes config authorization → CleanUpReached config pollReady authorizations)

/-- The call gets an account: it has one, the credentials in the cache are accepted, or it creates one. -/
def HasAccount (config : AcmeConfig F A) (answers : Answers A R) : Prop :=
  config.account.isSome = true ∨
    config.account = none ∧ (cachedCredentials locate encoding config).isSome = true ∧
      answers.fromCredentials.isOk = true ∨
    config.account = none ∧ cachedCredentials locate encoding config = none ∧
      ∃ account credentials, answers.create = .ok (account, credentials) ∧
        (encoding.toVec credentials).isOk = true

/-- The call places an order. -/
def PlacesOrder (config : AcmeConfig F A) (answers : Answers A R) : Prop :=
  HasAccount locate encoding config answers ∧ answers.check = .ok false ∧ answers.newOrder = .ok ()

end Condition

/-! ## The order -/

section Order

variable {F A R : Type}

theorem mem_recordEvents_removal {record : Option (Str × Bool)} {identifier : Str} :
    .removalRequested identifier ∈ recordEvents record ↔ record.map Prod.fst = some identifier := by
  rcases record with - | ⟨found, _ | _⟩
  · simp [recordEvents]
  · simp [recordEvents, eq_comm]
  · simp [recordEvents, eq_comm]

theorem removalsRequested_recordEvents_append (record : Option (Str × Bool)) (events : List Event) :
    RemovalsRequested (recordEvents record ++ events) ↔
      (∀ identifier, record = some (identifier, true) → .removalRequested identifier ∈ events) ∧
        RemovalsRequested events := by
  rcases record with - | ⟨found, _ | _⟩
  · simp [recordEvents]
  · simp [recordEvents, removalsRequested_cons]
  · simp [recordEvents, removalsRequested_cons]

/-- A record is set when there is a provider. -/
theorem dnsProvider_of_recordOf {config : AcmeConfig F A} {authorization : Except Str Authorization}
    {record : Str × Bool} (h : recordOf config authorization = some record) : config.dnsProvider = true := by
  by_contra hprovider
  rw [recordOf_of_not fun hdns => hprovider hdns.2] at h
  cases h

/-- What follows the authorizations sets no record, and it removes those that were set when the order is
ready. -/
theorem finishOrder_events (config : AcmeConfig F A) (account : A) (answers : Answers A R)
    (dns01Identifiers : List Str) :
    ∃ events, (finishOrder config account answers dns01Identifiers).1.events = config.events ++ events ∧
      (∀ identifier, .recordSet identifier ∉ events) ∧
      ∀ identifier ∈ dns01Identifiers, config.dnsProvider = true →
        (.removalRequested identifier ∈ events ↔ answers.pollReady = .ok .ready) := by
  have hfinalize : (finalizeClosure config account answers.finalization).1.events = config.events ∧
      (finalizeClosure config account answers.finalization).1.dnsProvider = config.dnsProvider := by
    unfold finalizeClosure
    split <;> exact ⟨rfl, rfl⟩
  unfold finishOrder
  rcases answers.pollReady with err | _ | _ | _
  · refine ⟨[], (List.append_nil _).symm, fun _ h => absurd h List.not_mem_nil, fun _ _ _ => ?_⟩
    exact iff_of_false List.not_mem_nil fun h => by cases h
  · dsimp only
    unfold cleanUp
    rw [hfinalize.2]
    cases hprovider : config.dnsProvider with
    | false =>
        refine ⟨[], hfinalize.1.trans (List.append_nil _).symm, fun _ h => absurd h List.not_mem_nil,
          fun _ _ h => absurd h Bool.false_ne_true⟩
    | true =>
        refine ⟨dns01Identifiers.map .removalRequested, congrArg (· ++ _) hfinalize.1, fun _ h => ?_,
          fun _ h _ => iff_of_true (List.mem_map_of_mem h) rfl⟩
        obtain ⟨found, -, heq⟩ := List.mem_map.1 h
        cases heq
  · refine ⟨[], (List.append_nil _).symm, fun _ h => absurd h List.not_mem_nil, fun _ _ _ => ?_⟩
    exact iff_of_false List.not_mem_nil fun h => by cases h
  · refine ⟨[], (List.append_nil _).symm, fun _ h => absurd h List.not_mem_nil, fun _ _ _ => ?_⟩
    exact iff_of_false List.not_mem_nil fun h => by cases h

theorem SameSettings.removalReached_iff {config later : AcmeConfig F A} (h : SameSettings config later)
    (pollReady : Except Str OrderStatus) (identifier : Str)
    (authorizations : List (Except Str Authorization)) :
    RemovalReached later pollReady identifier authorizations ↔
      RemovalReached config pollReady identifier authorizations := by
  induction authorizations with
  | nil => rfl
  | cons authorization authorizations ih =>
      rw [RemovalReached, RemovalReached, h.recordOf_eq, h.passes_iff, ih]

theorem SameSettings.cleanUpReached_iff {config later : AcmeConfig F A} (h : SameSettings config later)
    (pollReady : Except Str OrderStatus) (authorizations : List (Except Str Authorization)) :
    CleanUpReached later pollReady authorizations ↔ CleanUpReached config pollReady authorizations := by
  induction authorizations with
  | nil => rfl
  | cons authorization authorizations ih =>
      rw [CleanUpReached, CleanUpReached, h.recordOf_eq, h.passes_iff, ih]
      simp only [h.removalReached_iff]

/-- An order cleans up when from each authorization that sets a record it gets to its removal. -/
theorem completeOrder_events (answers : Answers A R) (account : A)
    (authorizations : List (Except Str Authorization)) (config : AcmeConfig F A)
    (dns01Identifiers : List Str) :
    ∃ events, (completeOrder config account answers dns01Identifiers authorizations).1.events =
        config.events ++ events ∧
      (RemovalsRequested events ↔ CleanUpReached config answers.pollReady authorizations) ∧
      ∀ identifier ∈ dns01Identifiers, config.dnsProvider = true →
        (.removalRequested identifier ∈ events ↔
          RemovalReached config answers.pollReady identifier authorizations) := by
  induction authorizations generalizing config dns01Identifiers with
  | nil =>
      obtain ⟨events, hevents, hquiet, hremoved⟩ := finishOrder_events config account answers dns01Identifiers
      exact ⟨events, hevents, iff_of_true (removalsRequested_of_quiet hquiet) trivial, hremoved⟩
  | cons authorization authorizations ih =>
      obtain ⟨result, hauthorize, hresult⟩ := authorize_eq config dns01Identifiers authorization
      have hsame := sameSettings_note config (recordEvents (recordOf config authorization))
      rw [completeOrder, authorizeAll, hauthorize, CleanUpReached]
      rcases hresult with ⟨hpasses, rfl⟩ | ⟨hnot, err, rfl⟩
      · obtain ⟨events, hevents, hclean, hremoved⟩ :=
          ih (config.note (recordEvents (recordOf config authorization)))
            (dns01Identifiers ++ setIdentifiers (recordOf config authorization))
        refine ⟨recordEvents (recordOf config authorization) ++ events, ?_, ?_,
          fun identifier hmem hprovider => ?_⟩
        · exact hevents.trans (List.append_assoc _ _ _)
        · rw [removalsRequested_recordEvents_append, hclean, hsame.cleanUpReached_iff]
          refine and_congr (forall_congr' fun identifier => forall_congr' fun hrecord => ?_)
            ⟨fun h _ => h, fun h => h hpasses⟩
          have hset : identifier ∈ setIdentifiers (recordOf config authorization) := by
            rw [hrecord]
            exact List.mem_singleton_self _
          rw [hremoved identifier (List.mem_append_right _ hset) (dnsProvider_of_recordOf hrecord),
            hsame.removalReached_iff, and_iff_right hpasses]
        · rw [List.mem_append, mem_recordEvents_removal, RemovalReached,
            hremoved identifier (List.mem_append_left _ hmem) hprovider, hsame.removalReached_iff,
            and_iff_right hpasses]
      · refine ⟨recordEvents (recordOf config authorization), rfl, ?_, fun identifier _ _ => ?_⟩
        · have hrecords := removalsRequested_recordEvents_append (recordOf config authorization) []
          rw [List.append_nil] at hrecords
          rw [hrecords, and_iff_left removalsRequested_nil, and_iff_left fun h => absurd h hnot]
          exact forall_congr' fun identifier => forall_congr' fun _ =>
            iff_of_false List.not_mem_nil fun h => hnot h.1
        · rw [mem_recordEvents_removal, RemovalReached, or_iff_left fun h => hnot h.1]

end Order

/-! ## The call -/

section Call

variable {F A R : Type} [DecidableEq F] (locate : PathBuf → F) (encoding : Encoding R)

theorem isOk_iff {ε α : Type} {result : Except ε α} : result.isOk = true ↔ ∃ value, result = .ok value := by
  cases result <;> simp [Except.isOk, Except.toBool]

/-- Getting an account sets no record. -/
theorem acmeAccount_events (config : AcmeConfig F A) (answers : Answers A R) :
    ∃ before result quiet, acmeAccount locate encoding config answers = (before, result) ∧
      SameSettings config before ∧ before.events = config.events ++ quiet ∧
      (∀ identifier, .recordSet identifier ∉ quiet) ∧
      (HasAccount locate encoding config answers ↔ ∃ account, result = .ok account) := by
  have hnil : ∀ identifier, Event.recordSet identifier ∉ ([] : List Event) := fun _ => List.not_mem_nil
  have hcreated : ∀ identifier, Event.recordSet identifier ∉ [Event.accountCreated] := by
    intro identifier h
    cases List.mem_singleton.1 h
  unfold HasAccount
  rcases acmeAccount_cases locate encoding config answers with
    ⟨account, haccount, hacme⟩ | ⟨hnone, hcached, hacme⟩ | ⟨hnone, hcached, err, hcreate, hacme⟩ |
      ⟨hnone, hcached, account, credentials, err, hcreate, hvalue, hacme⟩ |
      ⟨hnone, hcached, account, credentials, value, hcreate, hvalue, hacme⟩
  · refine ⟨_, _, [], hacme, ⟨rfl, rfl⟩, (List.append_nil _).symm, hnil, ?_⟩
    exact iff_of_true (.inl (by rw [haccount]; rfl)) ⟨account, rfl⟩
  · refine ⟨_, _, [], hacme, ⟨rfl, rfl⟩, (List.append_nil _).symm, hnil, ?_⟩
    have hother : cachedCredentials locate encoding config ≠ none := Option.isSome_iff_ne_none.1 hcached
    simp [hnone, hother, hcached, isOk_iff]
  · refine ⟨_, _, [], hacme, ⟨rfl, rfl⟩, (List.append_nil _).symm, hnil, ?_⟩
    simp [hnone, hcached, hcreate]
  · refine ⟨_, _, [.accountCreated], hacme, sameSettings_note _ _, rfl, hcreated, ?_⟩
    simp [hnone, hcached, hcreate, hvalue, isOk_iff]
  · obtain ⟨files, accountCache, hset⟩ :=
      setAccount_eq locate (config.note [.accountCreated]) value answers.accountWrite
    rw [hset] at hacme
    refine ⟨_, _, [.accountCreated], hacme, ⟨rfl, rfl⟩, rfl, hcreated, ?_⟩
    simp [hnone, hcached, hcreate, hvalue, isOk_iff]

/-- **A call requests the removal of each record that it sets** if and only if, when it places an order, it
gets from each authorization that sets a record to a removal of that record: a later authorization for the
same identifier comes to its own, or all later ones pass and the order gets ready. -/
theorem removalsRequested_iff (config : AcmeConfig F A) (answers : Answers A R) :
    RemovalsRequested (provisionCertificate locate encoding { config with events := [] } answers).1.events ↔
      (PlacesOrder locate encoding config answers →
        CleanUpReached config answers.pollReady answers.authorizations) := by
  obtain ⟨before, result, quiet, hacme, hsettings, hevents, hquiet, haccount⟩ :=
    acmeAccount_events locate encoding { config with events := [] } answers
  have hsame : SameSettings config before := ⟨hsettings.challengeType, hsettings.dnsProvider⟩
  have hno : ¬PlacesOrder locate encoding config answers → ∀ events : List Event,
      (∀ identifier, .recordSet identifier ∉ events) → (RemovalsRequested events ↔
        (PlacesOrder locate encoding config answers →
          CleanUpReached config answers.pollReady answers.authorizations)) :=
    fun hplaced events hevents => iff_of_true (removalsRequested_of_quiet hevents) fun h => absurd h hplaced
  rw [List.nil_append] at hevents
  unfold provisionCertificate
  rw [hacme]
  cases result with
  | error err =>
      dsimp only
      rw [hevents]
      refine hno (fun h => ?_) quiet hquiet
      obtain ⟨account, hresult⟩ := haccount.1 h.1
      cases hresult
  | ok account =>
      dsimp only
      rcases renew_cases locate before account answers with
        ⟨⟨err, hcheck⟩, hrenew⟩ | ⟨hcheck, hrenew⟩ | ⟨hcheck, horder, hrenew⟩ | ⟨hcheck, hmissing, hrenew⟩ |
          ⟨hcheck, horder, -, hrenew⟩
      · rw [hrenew, hevents]
        exact hno (fun h => by cases hcheck.symm.trans h.2.1) quiet hquiet
      · rw [hrenew]
        dsimp only
        rw [hevents]
        exact hno (fun h => by cases hcheck.symm.trans h.2.1) quiet hquiet
      · obtain ⟨events, hafter, hclean, -⟩ :=
          completeOrder_events answers account answers.authorizations before []
        rw [hrenew, hafter, hevents, removalsRequested_append_iff hquiet, hclean, hsame.cleanUpReached_iff]
        have hplaced : PlacesOrder locate encoding config answers :=
          ⟨haccount.2 ⟨account, rfl⟩, hcheck, horder⟩
        exact ⟨fun h _ => h, fun h => h hplaced⟩
      · obtain ⟨files, accountCache, hremove⟩ := removeAccount_eq locate before answers.accountRemoved
        rw [hrenew, hremove]
        refine hno (fun h => by cases hmissing.symm.trans h.2.2) _ fun identifier hmem => ?_
        rcases List.mem_append.1 hmem with hmem | hmem
        · exact hquiet identifier (hevents ▸ hmem)
        · cases List.mem_singleton.1 hmem
      · rw [hrenew, hevents]
        exact hno (fun h => horder h.2.2) quiet hquiet

end Call

/-- A configuration with a provider and an account. -/
def dnsConfig : AcmeConfig PathBuf Unit := ⟨.dns01, true, some (), fun _ => none, .memory ∅, [], []⟩

/-- A record is set, and the order gets invalid. -/
def invalidOrder : Answers Unit Unit where
  fromCredentials := .ok ()
  create := .ok ((), ())
  accountWrite := .succeeds
  accountRemoved := true
  check := .ok false
  newOrder := .ok ()
  authorizations := [.ok ⟨.pending, some ⟨some "example.com".toList, .ok (), .ok (), .ok ()⟩⟩]
  pollReady := .ok .invalid
  finalization := ⟨.ok (), .ok (), .ok (), .ok (), .ok (), .ok ()⟩

/-- The record of an order that gets invalid stays. -/
theorem invalidOrder_leaves :
    (provisionCertificate id ⟨fun _ => none, fun _ => .ok []⟩ dnsConfig invalidOrder).1.events =
        [.removalRequested "example.com".toList, .recordSet "example.com".toList] ∧
      ¬RemovalsRequested
        (provisionCertificate id ⟨fun _ => none, fun _ => .ok []⟩ dnsConfig invalidOrder).1.events := by
  have hevents : (provisionCertificate id ⟨fun _ => none, fun _ => .ok []⟩ dnsConfig invalidOrder).1.events =
      [.removalRequested "example.com".toList, .recordSet "example.com".toList] := rfl
  refine ⟨hevents, fun h => ?_⟩
  have hremoved := h [.removalRequested "example.com".toList] "example.com".toList [] hevents
  exact List.not_mem_nil hremoved

end Ferron.Acme.Provision
