import Ferron.Common.Conditions
import Ferron.Common.Config
import Ferron.Common.HeaderPlaceholders
import Ferron.Common.TtlCache
import Ferron.Lib.AttemptLimit
import Ferron.Lib.Run
import Ferron.Rust.Utf8

/-!
# Brute-force protection

The status codes module answers some requests by itself: it redirects them, it demands a user name and a
password, or it gives a status. The failed attempts of each client are counted in a cache whose entries
live for a while after the last attempt. A handler looks at the count under a read lock, verifies the
password in another thread, and counts the failure under the write lock. The handlers of other requests
go on in between.

`failures_le` says that a client fails at most ten times in any time span of the lifetime, and that the
counter loses no attempt, in every run in which the attempts that are being verified would not exhaust the
limit, each attempt verifies one password hash at most and no attempt is dropped.
-/

set_option autoImplicit false

namespace Ferron.Modules.BruteForce

open Ferron.Common Ferron.Http Ferron.Lib.AttemptLimit Ferron.Lib.Run

/-! ## Codes and requests -/

/-- `NonStandardCode`. -/
structure NonStandardCode where
  statusCode : Nat
  url : Option Str
  regex : Option Regex
  location : Option Str
  realm : Option Str
  disableBruteForceProtection : Bool
  userList : Option (List Str)
  users : Option IpBlockList
  body : Option Str
  notAllowed : Option IpBlockList

/-- A request, with its configuration and the codes of it. -/
structure AuthRequest where
  requestParts : Parts
  socketData : SocketData
  config : ServerConfiguration
  nonStandardCodesList : List NonStandardCode

/-- What other libraries do: regular expressions, which may give up, base64, and password hashes. -/
structure Library where
  find : Regex → Str → Option (Option Str)
  replace : Regex → Str → Str → Str
  decode : Str → Option Bytes
  verifyPassword : Str → Str → Bool

/-- What a handler answers: a response, a status with headers, the request with the authorized user, or an
error. When placeholders are replaced forever there is no answer. -/
inductive Answer where
  | response (status : Nat) (headers : HeaderMap) (body : Option Str)
  | status (status : Nat) (headers : HeaderMap)
  | passed (authUser : Option Str)
  | failed
  | never

/-- The key under which the attempts of a client are counted. -/
def AuthRequest.bruteForceDbKey (request : AuthRequest) : Str :=
  displayIp request.socketData.remoteAddr.ip

/-- `request_url`. -/
def AuthRequest.requestUrl (request : AuthRequest) : Str :=
  request.requestParts.uri.path ++ displayQuery request.requestParts.uri.query

/-! ## Which code applies -/

/-- Whether a code applies to a URL, and the URL that it redirects to if it has one. -/
inductive CodeMatch where
  | unmatched
  | matched (redirectUrl : Option Str)
  | failed
  | never

/-- The status codes of redirects. -/
def isRedirect (statusCode : Nat) : Bool :=
  statusCode == 301 || statusCode == 302 || statusCode == 307 || statusCode == 308

section Codes

variable (library : Library) (request : AuthRequest)

/-- A code that does not apply to the client. -/
def notApplicable (code : NonStandardCode) : Bool :=
  code.users.any (fun allowed => allowed.isBlocked request.socketData.remoteAddr.ip) ||
    !code.notAllowed.all fun notAllowed => notAllowed.isBlocked request.socketData.remoteAddr.ip

/-- A matched code. When it redirects, the placeholders of its location are replaced. -/
def matchedCode (code : NonStandardCode) (location : Option Str) (suffix : Str) : CodeMatch :=
  match isRedirect code.statusCode, location with
  | true, some location =>
      match replaceHeaderPlaceholders request.requestParts (some request.socketData) location with
      | some url => .matched (some (url ++ suffix))
      | none => .never
  | _, _ => .matched none

/-- The URL of a code is looked at when its regular expression has found nothing. -/
def matchUrl (code : NonStandardCode) : CodeMatch :=
  if code.url = some request.requestParts.uri.path then
    matchedCode request code code.location (displayQuery request.requestParts.uri.query)
  else .unmatched

/-- Whether a code applies to the request. -/
def matchCode (code : NonStandardCode) : CodeMatch :=
  if notApplicable request code then .unmatched
  else
    match code.regex with
    | none =>
        if code.url.isNone then matchedCode request code code.location [] else matchUrl request code
    | some regex =>
        match library.find regex request.requestUrl with
        | none => .failed
        | some none => matchUrl request code
        | some (some matchedText) =>
            matchedCode request code (code.location.map (library.replace regex matchedText)) []

/-! ## Credentials -/

/-- `parse_basic_auth`. -/
def parseBasicAuth (authStr : Str) : Option (Str × Str) :=
  if "Basic ".toList.isPrefixOf authStr then
    ((library.decode (authStr.drop 6)).bind Utf8.fromUtf8).bind fun decodedStr =>
      if decodedStr.contains ':' then
        some (decodedStr.takeWhile (· ≠ ':'), (decodedStr.dropWhile (· ≠ ':')).drop 1)
      else none
  else none

/-- The password hashes that are tried for a user name: those of the users of that name, if the code lets
it in. -/
def passwordHashes (code : NonStandardCode) (username : Str) : List Str :=
  if code.userList.all fun userList => userList.contains username then
    ((request.config.getEntries "user".toList).map fun users =>
      (users.inner.filter fun user =>
        user.values[0]?.bind ServerConfigurationValue.asStr = some username).filterMap fun user =>
          user.values[1]?.bind ServerConfigurationValue.asStr).getD []
  else []

/-- The password hashes that an attempt verifies at most. -/
def attemptHashes (code : NonStandardCode) : List Str :=
  match ((request.requestParts.headers.get "authorization".toList).bind toStr).bind
      (parseBasicAuth library) with
  | some (username, _) => passwordHashes request code username
  | none => []

/-- A text in a quoted string. -/
def escapeQuoted (text : Str) : Str :=
  (text.flatMap fun c => if c = Char.ofNat 0x5c then [c, c] else [c]).flatMap fun c =>
    if c = Char.ofNat 0x22 then [Char.ofNat 0x5c, c] else [c]

/-- The demand for authorization. -/
def challenge (code : NonStandardCode) : Option HeaderValue :=
  headerValue <| "Basic realm=\"".toList ++
    escapeQuoted (code.realm.getD "Ferron HTTP Basic Authorization".toList) ++
    "\", charset=\"UTF-8\"".toList

/-- The answer to a request without authorization. -/
def unauthorized (code : NonStandardCode) (challenge : HeaderValue) : Answer :=
  match code.body with
  | some body => .response 401 [("www-authenticate".toList, challenge)] (some body)
  | none => .status 401 [("www-authenticate".toList, challenge)]

/-- The answer of a redirect, if its location may be a header value. -/
def redirect (code : NonStandardCode) (redirectUrl : Option Str) : Answer :=
  match headerValue (redirectUrl.getD request.requestUrl) with
  | some location => .response code.statusCode [("location".toList, location)] code.body
  | none => .failed

/-- The answer of a code that neither redirects nor demands authorization. -/
def plainAnswer (code : NonStandardCode) : Answer :=
  if code.statusCode < 100 ∨ 999 < code.statusCode then .failed
  else
    match code.body with
    | some body => .response code.statusCode [] (some body)
    | none => .status code.statusCode []

/-! ## Handlers -/

/-- Where a handler is: it waits for the read lock at a protected code, a password is verified in another
thread, it waits for the write lock, or it has answered. It goes on with the codes behind this one. -/
inductive Phase where
  | checking (code : NonStandardCode) (codes : List NonStandardCode)
  | verifying (code : NonStandardCode) (codes : List NonStandardCode) (challenge : HeaderValue)
      (username password hash : Str) (hashes : List Str)
  | counting (code : NonStandardCode) (challenge : HeaderValue)
  | answered (answer : Answer)

/-- The loop over the password hashes, at its head. -/
def verifyNext (code : NonStandardCode) (codes : List NonStandardCode) (challenge : HeaderValue)
    (username password : Str) : List Str → Phase
  | hash :: hashes => .verifying code codes challenge username password hash hashes
  | [] =>
      if code.disableBruteForceProtection then .answered (unauthorized code challenge)
      else .counting code challenge

/-- A request for which the limit is not exceeded. -/
def attempt (code : NonStandardCode) (codes : List NonStandardCode) : Phase :=
  match challenge code with
  | none => .answered .failed
  | some challenge =>
      match request.requestParts.headers.get "authorization".toList with
      | none => .answered (unauthorized code challenge)
      | some authorizationHeaderValue =>
          match toStr authorizationHeaderValue with
          | none => .answered (.status 400 [])
          | some authorizationStr =>
              match parseBasicAuth library authorizationStr with
              | none => .answered (unauthorized code challenge)
              | some (username, password) =>
                  verifyNext code codes challenge username password
                    (passwordHashes request code username)

/-- The loop over the codes, up to the next lock or verification. -/
def nextPhase (authUser : Option Str) : List NonStandardCode → Phase
  | [] => .answered (.passed authUser)
  | code :: codes =>
      match matchCode library request code with
      | .unmatched => nextPhase authUser codes
      | .failed => .answered .failed
      | .never => .answered .never
      | .matched redirectUrl =>
          if isRedirect code.statusCode then .answered (redirect request code redirectUrl)
          else if code.statusCode = 401 then
            if code.disableBruteForceProtection then attempt library request code codes
            else .checking code codes
          else .answered (plainAnswer code)

end Codes

/-! ## Runs -/

/-- The handler of a request. -/
structure Handler where
  request : AuthRequest
  phase : Phase

/-- An update of a counter. -/
structure Update where
  key : Str
  time : Nat
  before : UInt8
  after : UInt8

/-- The time, the counters, the handlers of all requests so far, and the failed verifications for
protected codes and the updates so far. -/
structure State where
  now : Nat
  bruteForceDb : TtlCache Str UInt8
  handlers : List Handler
  failures : List (Str × Nat)
  updates : List Update

/-- Time passes, a request arrives, its handler goes on (the thread of a verification may crash), or its
handler is dropped. -/
inductive Action where
  | wait (time : Nat)
  | request (request : AuthRequest)
  | resume (index : Nat) (crashed : Bool)
  | drop (index : Nat)

/-- The lifetime of the counters, in nanoseconds. -/
def window : Nat := 300000000000

namespace State

/-- The count of a client that a check reads. -/
def currentAttempts (state : State) (key : Str) : UInt8 :=
  (state.bruteForceDb.get state.now key).getD 0

/-- A handler goes on. -/
def setPhase (state : State) (index : Nat) (handler : Handler) (phase : Phase) : State :=
  { state with handlers := state.handlers.set index { handler with phase := phase } }

/-- A verification for a code has failed. -/
def fail (state : State) (key : Str) (code : NonStandardCode) : State :=
  if code.disableBruteForceProtection then state
  else { state with failures := state.failures ++ [(key, state.now)] }

/-- The counter of a client is raised, with the write lock held. -/
def count (state : State) (key : Str) : State :=
  let bruteForceDb := state.bruteForceDb.cleanup state.now
  let currentAttempts := (bruteForceDb.get state.now key).getD 0
  { state with
    bruteForceDb := bruteForceDb.insert state.now key (currentAttempts + 1)
    updates := state.updates ++ [⟨key, state.now, currentAttempts, currentAttempts + 1⟩] }

end State

section Step

variable (library : Library)

/-- A step of `request_handler`. -/
def handlerStep (state : State) (index : Nat) (handler : Handler) (crashed : Bool) : State :=
  let request := handler.request
  let key := request.bruteForceDbKey
  match handler.phase with
  | .checking code codes =>
      if 10 ≤ state.currentAttempts key then
        state.setPhase index handler (.answered (.status 429 []))
      else state.setPhase index handler (attempt library request code codes)
  | .verifying code codes challenge username password hash hashes =>
      if crashed then state.setPhase index handler (.answered .failed)
      else if library.verifyPassword password hash then
        state.setPhase index handler (nextPhase library request (some username) codes)
      else
        (state.fail key code).setPhase index handler
          (verifyNext code codes challenge username password hashes)
  | .counting code challenge =>
      (state.count key).setPhase index handler (.answered (unauthorized code challenge))
  | .answered _ => state

/-- A handler is dropped. The thread that verifies its password is not stopped. -/
def dropStep (state : State) (index : Nat) (handler : Handler) : State :=
  match handler.phase with
  | .verifying code _ _ _ password hash _ =>
      (if library.verifyPassword password hash then state
        else state.fail handler.request.bruteForceDbKey code).setPhase index handler
          (.answered .failed)
  | .answered _ => state
  | _ => state.setPhase index handler (.answered .failed)

/-- The server after an action. -/
def step (state : State) : Action → State
  | .wait time => { state with now := state.now + time }
  | .request request =>
      { state with
        handlers := state.handlers ++
          [⟨request, nextPhase library request none request.nonStandardCodesList⟩] }
  | .resume index crashed =>
      match state.handlers[index]? with
      | none => state
      | some handler => handlerStep library state index handler crashed
  | .drop index =>
      match state.handlers[index]? with
      | none => state
      | some handler => dropStep library state index handler

end Step

/-- The server before the first request. -/
def init : State := ⟨0, .new window, [], [], []⟩

/-! ## The attempts of a client -/

/-- A password is verified for a protected code. -/
def Phase.isRunning : Phase → Bool
  | verifying code _ _ _ _ _ _ => !code.disableBruteForceProtection
  | _ => false

/-- A failure is going to be counted. -/
def Phase.isEnded : Phase → Bool
  | counting _ _ => true
  | _ => false

namespace State

/-- The running attempts of a client. -/
def running (state : State) (key : Str) : Nat :=
  state.handlers.countP fun handler =>
    handler.request.bruteForceDbKey = key && handler.phase.isRunning

/-- The attempts of a client that have ended and are not counted yet. -/
def ended (state : State) (key : Str) : Nat :=
  state.handlers.countP fun handler =>
    handler.request.bruteForceDbKey = key && handler.phase.isEnded

/-- The times of the failures of a client. -/
def failuresOf (state : State) (key : Str) : List Nat :=
  (state.failures.filter fun failure => failure.1 = key).map Prod.snd

/-- The times at which the counter of a client was raised. -/
def updatesOf (state : State) (key : Str) : List Nat :=
  (state.updates.filter fun update => update.key = key).map Update.time

/-- The attempts of a client. -/
def ledger (state : State) (key : Str) : Ledger where
  now := state.now
  count := (state.currentAttempts key).toNat
  running := state.running key
  ended := state.ended key
  failures := state.failuresOf key
  counts := state.updatesOf key

end State

/-- A check only lets an attempt go on when the attempts that are under way leave room for it and it
verifies one password hash at most, and no handler is dropped between its check and its count. -/
def WithinLimit (library : Library) (state : State) : Action → Prop
  | .resume index _ => ∀ request code codes,
      state.handlers[index]? = some ⟨request, .checking code codes⟩ →
        state.currentAttempts request.bruteForceDbKey < 10 →
          (state.currentAttempts request.bruteForceDbKey).toNat +
              state.running request.bruteForceDbKey + state.ended request.bruteForceDbKey < 10 ∧
            (attemptHashes library request code).length ≤ 1
  | .drop index => ∀ handler, state.handlers[index]? = some handler →
      handler.phase.isRunning = false ∧ handler.phase.isEnded = false
  | _ => True

/-- The code for which a handler is about to check the count. -/
def Phase.checked : Phase → Option NonStandardCode
  | checking code _ => some code
  | _ => none

instance (library : Library) (state : State) :
    (action : Action) → Decidable (WithinLimit library state action)
  | .wait _ => .isTrue trivial
  | .request _ => .isTrue trivial
  | .drop index => inferInstanceAs (Decidable (∀ handler ∈ state.handlers[index]?,
      handler.phase.isRunning = false ∧ handler.phase.isEnded = false))
  | .resume index _ =>
      decidable_of_iff (∀ handler ∈ state.handlers[index]?, ∀ code ∈ handler.phase.checked,
        state.currentAttempts handler.request.bruteForceDbKey < 10 →
          (state.currentAttempts handler.request.bruteForceDbKey).toNat +
              state.running handler.request.bruteForceDbKey +
                state.ended handler.request.bruteForceDbKey < 10 ∧
            (attemptHashes library handler.request code).length ≤ 1) (by
        constructor
        · intro h request code codes hhandler
          exact h _ hhandler code rfl
        · rintro h ⟨request, phase⟩ hhandler code hcode
          cases phase with
          | checking checked codes =>
              obtain rfl := Option.some.inj hcode
              exact h request _ codes hhandler
          | _ => cases hcode)

/-! ## Phases -/

/-- A handler that checks does so for a protected code, and one that verifies a password for a protected
code has no other hash to try. -/
def Phase.Ready : Phase → Prop
  | checking code _ => code.disableBruteForceProtection = false
  | verifying code _ _ _ _ _ hashes => code.disableBruteForceProtection = false → hashes = []
  | _ => True

/-- A handler that has nothing to do with the limit, for the time being. -/
structure Phase.Idle (phase : Phase) : Prop where
  ready : phase.Ready
  running : phase.isRunning = false
  ended : phase.isEnded = false

theorem idle_answered (answer : Answer) : (Phase.answered answer).Idle := ⟨trivial, rfl, rfl⟩

section Phases

variable {library : Library} {request : AuthRequest} {code : NonStandardCode}
  {codes : List NonStandardCode} {challenge : HeaderValue} {username password : Str}
  {hashes : List Str}

/-- Without protection nothing is counted. -/
theorem idle_verifyNext (h : code.disableBruteForceProtection = true) :
    (verifyNext code codes challenge username password hashes).Idle := by
  cases hashes with
  | nil =>
      rw [verifyNext, if_pos h]
      exact idle_answered _
  | cons hash hashes =>
      exact ⟨fun hfalse => absurd (h.symm.trans hfalse) (by simp), by simp [verifyNext, Phase.isRunning, h],
        rfl⟩

/-- An attempt is over at once, or it verifies the hashes that there are. -/
theorem attempt_cases (library : Library) (request : AuthRequest) (code : NonStandardCode)
    (codes : List NonStandardCode) :
    (∃ answer, attempt library request code codes = .answered answer) ∨
      ∃ challenge username password, attempt library request code codes =
        verifyNext code codes challenge username password (attemptHashes library request code) := by
  rw [attempt, attemptHashes]
  cases BruteForce.challenge code with
  | none => exact Or.inl ⟨_, rfl⟩
  | some challenge =>
      cases request.requestParts.headers.get "authorization".toList with
      | none => exact Or.inl ⟨_, rfl⟩
      | some value =>
          rw [Option.bind_some]
          dsimp only
          cases toStr value with
          | none => exact Or.inl ⟨_, rfl⟩
          | some authorizationStr =>
              rw [Option.bind_some]
              dsimp only
              cases parseBasicAuth library authorizationStr with
              | none => exact Or.inl ⟨_, rfl⟩
              | some credentials => exact Or.inr ⟨challenge, credentials.1, credentials.2, rfl⟩

theorem idle_attempt (h : code.disableBruteForceProtection = true) :
    (attempt library request code codes).Idle := by
  rcases attempt_cases library request code codes with ⟨answer, heq⟩ | ⟨_, _, _, heq⟩
  · rw [heq]
    exact idle_answered answer
  · rw [heq]
    exact idle_verifyNext h

/-- Between the codes a handler has nothing to do with the limit. -/
theorem idle_nextPhase (authUser : Option Str) (codes : List NonStandardCode) :
    (nextPhase library request authUser codes).Idle := by
  induction codes with
  | nil => exact idle_answered _
  | cons code codes ih =>
      rw [nextPhase]
      split
      · exact ih
      · exact idle_answered _
      · exact idle_answered _
      · split
        · exact idle_answered _
        · split
          · split
            · rename_i hdisabled
              exact idle_attempt hdisabled
            · rename_i hprotected
              exact ⟨by simpa [Phase.Ready] using hprotected, rfl, rfl⟩
          · exact idle_answered _

end Phases

/-! ## The attempts of a client after a step -/

section Ledger

variable {state : State} {index : Nat} {handler : Handler}

/-- Another client's attempts are left as they are. -/
theorem ledger_setPhase_of_ne (hhandler : state.handlers[index]? = some handler) (phase : Phase)
    {key : Str} (hkey : handler.request.bruteForceDbKey ≠ key) :
    (state.setPhase index handler phase).ledger key = state.ledger key := by
  have hrunning := countP_set (fun other : Handler =>
    other.request.bruteForceDbKey = key && other.phase.isRunning) hhandler ⟨handler.request, phase⟩
  have hended := countP_set (fun other : Handler =>
    other.request.bruteForceDbKey = key && other.phase.isEnded) hhandler ⟨handler.request, phase⟩
  simp only [hkey, decide_false, Bool.false_and, Bool.false_eq_true, if_false, Nat.add_zero]
    at hrunning hended
  simp only [State.ledger, State.running, State.ended, State.setPhase, hrunning, hended]
  rfl

/-- A handler's attempt runs or has ended by its phase. -/
theorem ledger_setPhase (hhandler : state.handlers[index]? = some handler) (phase : Phase) :
    ∃ running ended, (state.setPhase index handler phase).ledger handler.request.bruteForceDbKey =
        { state.ledger handler.request.bruteForceDbKey with running := running, ended := ended } ∧
      running + (if handler.phase.isRunning then 1 else 0) =
        state.running handler.request.bruteForceDbKey + (if phase.isRunning then 1 else 0) ∧
      ended + (if handler.phase.isEnded then 1 else 0) =
        state.ended handler.request.bruteForceDbKey + if phase.isEnded then 1 else 0 := by
  have hrunning := countP_set (fun other : Handler =>
    other.request.bruteForceDbKey = handler.request.bruteForceDbKey && other.phase.isRunning)
    hhandler ⟨handler.request, phase⟩
  have hended := countP_set (fun other : Handler =>
    other.request.bruteForceDbKey = handler.request.bruteForceDbKey && other.phase.isEnded)
    hhandler ⟨handler.request, phase⟩
  simp only [decide_true, Bool.true_and] at hrunning hended
  exact ⟨_, _, rfl, hrunning, hended⟩

theorem running_fail (state : State) (key key' : Str) (code : NonStandardCode) :
    (state.fail key code).running key' = state.running key' := by
  rw [State.fail]
  split <;> rfl

theorem ended_fail (state : State) (key key' : Str) (code : NonStandardCode) :
    (state.fail key code).ended key' = state.ended key' := by
  rw [State.fail]
  split <;> rfl

/-- A failure for a protected code is one of the client's. -/
theorem ledger_fail (state : State) (key : Str) {code : NonStandardCode}
    (h : code.disableBruteForceProtection = false) (key' : Str) :
    (state.fail key code).ledger key' =
      if key = key' then
        { state.ledger key' with failures := (state.ledger key').failures ++ [state.now] }
      else state.ledger key' := by
  rw [State.fail, h]
  by_cases hkey : key = key'
  · simp [State.ledger, State.failuresOf, State.running, State.ended, State.updatesOf,
      State.currentAttempts, hkey]
  · simp [State.ledger, State.failuresOf, State.running, State.ended, State.updatesOf,
      State.currentAttempts, hkey]

/-- The counter of a client is raised by one; those of other clients are left as they are. -/
theorem ledger_count (state : State) (hwindow : 0 < state.bruteForceDb.ttl) (key : Str)
    (hroom : (state.currentAttempts key).toNat < 255) (key' : Str) :
    (state.count key).ledger key' =
      if key = key' then
        { state.ledger key' with
          count := (state.ledger key').count + 1
          counts := (state.ledger key').counts ++ [state.now] }
      else state.ledger key' := by
  have hsucc : (state.currentAttempts key + 1).toNat = (state.currentAttempts key).toNat + 1 := by
    rw [UInt8.toNat_add]
    exact Nat.mod_eq_of_lt (by simpa using Nat.succ_lt_succ hroom)
  by_cases hkey : key = key'
  · subst hkey
    have hcount : ((state.count key).currentAttempts key).toNat =
        (state.currentAttempts key).toNat + 1 := by
      rw [← hsucc, State.currentAttempts, State.count]
      dsimp only
      rw [TtlCache.get_insert_self (by simpa using hwindow), TtlCache.get_cleanup_self,
        Option.getD_some, State.currentAttempts]
    rw [if_pos rfl]
    simp only [State.ledger, hcount]
    simp [State.failuresOf, State.running, State.ended, State.updatesOf, State.count]
  · have hcount : (state.count key).currentAttempts key' = state.currentAttempts key' := by
      rw [State.currentAttempts, State.currentAttempts, State.count]
      dsimp only
      rw [TtlCache.get_insert_ne (Ne.symm hkey), TtlCache.get_cleanup_self]
    rw [if_neg hkey]
    simp only [State.ledger, hcount]
    simp [State.failuresOf, State.running, State.ended, State.updatesOf, State.count, hkey]

end Ledger

/-! ## What every step keeps -/

/-- What holds of the counters and of each handler by itself. -/
structure Proper (state : State) : Prop where
  ttl : state.bruteForceDb.ttl = window
  /-- An entry is as young as the last update of its counter. -/
  timestamps : ∀ update ∈ state.updates, ∀ value timestamp,
    state.bruteForceDb.cache.lookup update.key = some (value, timestamp) → update.time ≤ timestamp
  past : ∀ update ∈ state.updates, update.time ≤ state.now
  increments : ∀ update ∈ state.updates, update.after.toNat = update.before.toNat + 1
  ready : ∀ handler ∈ state.handlers, handler.phase.Ready

/-- The invariant of the server. -/
structure Inv (state : State) : Prop extends Proper state where
  sound : ∀ key, Sound 10 window (state.ledger key)

namespace Proper

variable {state : State}

theorem setPhase (h : Proper state) (index : Nat) (handler : Handler) {phase : Phase}
    (hready : phase.Ready) : Proper (state.setPhase index handler phase) where
  ttl := h.ttl
  timestamps := h.timestamps
  past := h.past
  increments := h.increments
  ready other hother := by
    rcases List.mem_or_eq_of_mem_set hother with hold | hnew
    · exact h.ready other hold
    · rw [hnew]
      exact hready

theorem fail (h : Proper state) (key : Str) (code : NonStandardCode) : Proper (state.fail key code) := by
  rw [State.fail]
  split
  · exact h
  · exact ⟨h.ttl, h.timestamps, h.past, h.increments, h.ready⟩

/-- A counter that has room is raised. -/
theorem count (h : Proper state) {key : Str} (hroom : (state.currentAttempts key).toNat < 255) :
    Proper (state.count key) where
  ttl := h.ttl
  timestamps update hupdate value timestamp hlookup := by
    rw [State.count, TtlCache.insert] at hlookup
    dsimp only at hlookup
    by_cases hkey : update.key = key
    · -- the entry has been made just now
      rw [hkey, AList.lookup_insert, Option.some.injEq] at hlookup
      rw [← (Prod.mk.inj hlookup).2]
      rcases List.mem_append.1 hupdate with hold | hnew
      · exact h.past update hold
      · rw [List.mem_singleton.1 hnew]
    · rw [AList.lookup_insert_ne hkey] at hlookup
      rcases List.mem_append.1 hupdate with hold | hnew
      · exact h.timestamps update hold value timestamp (TtlCache.lookup_of_lookup_cleanup hlookup)
      · rw [List.mem_singleton.1 hnew] at hkey
        exact absurd rfl hkey
  past update hupdate := by
    rcases List.mem_append.1 hupdate with hold | hnew
    · exact h.past update hold
    · rw [List.mem_singleton.1 hnew]
      exact Nat.le_refl _
  increments update hupdate := by
    rcases List.mem_append.1 hupdate with hold | hnew
    · exact h.increments update hold
    · rw [List.mem_singleton.1 hnew, TtlCache.get_cleanup_self]
      rw [State.currentAttempts] at hroom
      dsimp only
      rw [UInt8.toNat_add]
      exact Nat.mod_eq_of_lt (by simpa using Nat.succ_lt_succ hroom)
  ready := h.ready

end Proper

namespace Inv

variable {state : State}

theorem init : Inv init where
  ttl := rfl
  sound _ := Sound.start 0
  timestamps := by simp [BruteForce.init]
  past := by simp [BruteForce.init]
  increments := by simp [BruteForce.init]
  ready := by simp [BruteForce.init]

/-- Time passes. A counter is lost a whole window after its last update. -/
theorem wait (h : Inv state) (time : Nat) : Inv { state with now := state.now + time } where
  ttl := h.ttl
  sound key := by
    apply (h.sound key).wait time
    rw [State.ledger, State.currentAttempts, State.currentAttempts, TtlCache.get, TtlCache.get, h.ttl]
    cases hlookup : state.bruteForceDb.cache.lookup key with
    | none => exact Or.inl rfl
    | some entry =>
        obtain ⟨value, timestamp⟩ := entry
        dsimp only [Option.bind_some]
        by_cases halive : TtlCache.elapsed timestamp (state.now + time) < window
        · rw [if_pos halive, if_pos]
          · exact Or.inl rfl
          · rw [TtlCache.elapsed] at halive ⊢
            omega
        · rw [if_neg halive]
          refine Or.inr ⟨rfl, fun counted hcounted => ?_⟩
          obtain ⟨update, hupdate, rfl⟩ := List.mem_map.1 hcounted
          obtain ⟨hmem, hkey⟩ := List.mem_filter.1 hupdate
          rw [← of_decide_eq_true hkey] at hlookup
          have hold := h.timestamps update hmem value timestamp hlookup
          rw [TtlCache.elapsed] at halive
          have hwindow : 0 < window := by decide
          omega
  timestamps := h.timestamps
  past update hupdate := Nat.le_add_right_of_le (h.past update hupdate)
  increments := h.increments
  ready := h.ready

/-- A request arrives. -/
theorem request (h : Inv state) (request : AuthRequest) {phase : Phase} (hidle : phase.Idle) :
    Inv { state with handlers := state.handlers ++ [⟨request, phase⟩] } where
  ttl := h.ttl
  sound key := by
    have hledger : State.ledger { state with handlers := state.handlers ++ [⟨request, phase⟩] } key =
        state.ledger key := by
      simp [State.ledger, State.running, State.ended, State.failuresOf, State.updatesOf,
        State.currentAttempts, List.countP_append, hidle.running, hidle.ended]
    rw [hledger]
    exact h.sound key
  timestamps := h.timestamps
  past := h.past
  increments := h.increments
  ready handler hhandler := by
    rcases List.mem_append.1 hhandler with hold | hnew
    · exact h.ready handler hold
    · rw [List.mem_singleton.1 hnew]
      exact hidle.ready

section Handlers

variable {library : Library} {index : Nat} {handler : Handler}

/-- A handler goes on, and its client's attempts stay within the limit. -/
theorem setPhase (h : Inv state) (hhandler : state.handlers[index]? = some handler) {phase : Phase}
    (hready : phase.Ready)
    (hsound : Sound 10 window ((state.setPhase index handler phase).ledger
      handler.request.bruteForceDbKey)) : Inv (state.setPhase index handler phase) where
  toProper := h.toProper.setPhase index handler hready
  sound key := by
    by_cases hkey : handler.request.bruteForceDbKey = key
    · rw [← hkey]
      exact hsound
    · rw [ledger_setPhase_of_ne hhandler phase hkey]
      exact h.sound key

/-- A handler whose attempt has not ended goes on without an attempt. -/
theorem idle (h : Inv state) (hhandler : state.handlers[index]? = some handler)
    (hended : handler.phase.isEnded = false) {phase : Phase} (hidle : phase.Idle) :
    Inv (state.setPhase index handler phase) := by
  apply h.setPhase hhandler hidle.ready
  obtain ⟨running, ended, hledger, hrunning, hcount⟩ := ledger_setPhase hhandler phase
  rw [hidle.running] at hrunning
  rw [hidle.ended, hended] at hcount
  simp only [Bool.false_eq_true, if_false, Nat.add_zero] at hrunning hcount
  rw [hledger, hcount]
  refine (h.sound handler.request.bruteForceDbKey).succeed ?_
  change running ≤ state.running handler.request.bruteForceDbKey
  omega

/-- A check lets an attempt go on for which there is room. -/
theorem attempt (h : Inv state) {request : AuthRequest} {code : NonStandardCode}
    {codes : List NonStandardCode}
    (hhandler : state.handlers[index]? = some ⟨request, .checking code codes⟩)
    (hroom : (state.currentAttempts request.bruteForceDbKey).toNat +
      state.running request.bruteForceDbKey + state.ended request.bruteForceDbKey < 10)
    (hhashes : (attemptHashes library request code).length ≤ 1) :
    Inv (state.setPhase index ⟨request, .checking code codes⟩
      (BruteForce.attempt library request code codes)) := by
  have hprotected : code.disableBruteForceProtection = false :=
    h.ready _ (List.mem_of_getElem? hhandler)
  have hsound := (h.sound request.bruteForceDbKey).attempt hroom
  rcases attempt_cases library request code codes with ⟨answer, heq⟩ | ⟨challenge, username, password, heq⟩
  · rw [heq]
    exact h.idle hhandler rfl (idle_answered answer)
  · rw [heq]
    match hlist : attemptHashes library request code with
    | [] =>
        -- nothing is verified, and the attempt is counted next
        rw [verifyNext, hprotected, if_neg Bool.false_ne_true]
        apply h.setPhase hhandler
        · exact trivial
        obtain ⟨running, ended, hledger, hrunning, hended⟩ :=
          ledger_setPhase hhandler (.counting code challenge)
        simp only [Phase.isRunning, Phase.isEnded, Bool.false_eq_true, if_false, if_true,
          Nat.add_zero] at hrunning hended
        rw [hledger, hrunning, hended]
        exact hsound.giveUp rfl
    | [hash] =>
        rw [verifyNext]
        apply h.setPhase hhandler
        · exact fun _ => rfl
        obtain ⟨running, ended, hledger, hrunning, hended⟩ :=
          ledger_setPhase hhandler (.verifying code codes challenge username password hash [])
        simp only [Phase.isRunning, Phase.isEnded, hprotected, Bool.not_false, Bool.false_eq_true,
          if_false, if_true, Nat.add_zero] at hrunning hended
        rw [hledger, hrunning, hended]
        exact hsound
    | _ :: _ :: _ =>
        rw [hlist] at hhashes
        exact absurd hhashes (by simp)

/-- A verification fails. -/
theorem fail (h : Inv state) {request : AuthRequest} {code : NonStandardCode}
    {codes : List NonStandardCode} {challenge : HeaderValue} {username password hash : Str}
    {hashes : List Str}
    (hhandler : state.handlers[index]? =
      some ⟨request, .verifying code codes challenge username password hash hashes⟩) :
    Inv ((state.fail request.bruteForceDbKey code).setPhase index
      ⟨request, .verifying code codes challenge username password hash hashes⟩
      (verifyNext code codes challenge username password hashes)) := by
  cases hdisabled : code.disableBruteForceProtection with
  | true =>
      rw [State.fail, if_pos hdisabled]
      exact h.idle hhandler rfl (idle_verifyNext hdisabled)
  | false =>
      -- there is no other hash, so the failure is counted next
      have hnil : hashes = [] := h.ready _ (List.mem_of_getElem? hhandler) hdisabled
      have hhandlers : (state.fail request.bruteForceDbKey code).handlers = state.handlers := by
        rw [State.fail, hdisabled, if_neg Bool.false_ne_true]
      rw [← hhandlers] at hhandler
      rw [hnil, verifyNext, hdisabled, if_neg Bool.false_ne_true]
      rw [hnil] at hhandler
      refine ⟨(h.toProper.fail _ _).setPhase _ _ trivial, fun key => ?_⟩
      by_cases hkey : request.bruteForceDbKey = key
      · subst hkey
        obtain ⟨running, ended, hledger, hrunning, hended⟩ :=
          ledger_setPhase hhandler (.counting code challenge)
        simp only [Phase.isRunning, Phase.isEnded, hdisabled, Bool.not_false, Bool.false_eq_true,
          if_false, if_true, Nat.add_zero, running_fail, ended_fail] at hrunning hended
        rw [hledger, ledger_fail state _ hdisabled, if_pos rfl, hended]
        exact (h.sound request.bruteForceDbKey).fail hrunning.symm
      · rw [ledger_setPhase_of_ne hhandler _ hkey, ledger_fail state _ hdisabled, if_neg hkey]
        exact h.sound key

/-- A failure is counted. -/
theorem count (h : Inv state) {request : AuthRequest} {code : NonStandardCode}
    {challenge : HeaderValue} (answer : Answer)
    (hhandler : state.handlers[index]? = some ⟨request, .counting code challenge⟩) :
    Inv ((state.count request.bruteForceDbKey).setPhase index ⟨request, .counting code challenge⟩
      (.answered answer)) := by
  obtain ⟨running, ended, hledger, hrunning, hended⟩ :=
    @ledger_setPhase (state.count request.bruteForceDbKey) index _ hhandler (.answered answer)
  simp only [Phase.isRunning, Phase.isEnded, Bool.false_eq_true, if_false, if_true,
    Nat.add_zero] at hrunning hended
  have hcount : ended + 1 = state.ended request.bruteForceDbKey := hended
  have hroom : (state.currentAttempts request.bruteForceDbKey).toNat < 255 := by
    have hbounded := (h.sound request.bruteForceDbKey).bounded
    simp only [State.ledger] at hbounded
    omega
  have hwindow : 0 < state.bruteForceDb.ttl := by
    rw [h.ttl]
    decide
  refine ⟨(h.toProper.count hroom).setPhase _ _ trivial, fun key => ?_⟩
  by_cases hkey : request.bruteForceDbKey = key
  · subst hkey
    rw [hledger, ledger_count state hwindow _ hroom, if_pos rfl, hrunning]
    exact (h.sound request.bruteForceDbKey).count hcount.symm
  · rw [@ledger_setPhase_of_ne (state.count request.bruteForceDbKey) index _ hhandler _ _ hkey,
      ledger_count state hwindow _ hroom, if_neg hkey]
    exact h.sound key

/-- A handler goes on. -/
theorem handlerStep (h : Inv state) (hhandler : state.handlers[index]? = some handler)
    (crashed : Bool) (hwithin : WithinLimit library state (.resume index crashed)) :
    Inv (handlerStep library state index handler crashed) := by
  obtain ⟨request, phase⟩ := handler
  cases phase with
  | checking code codes =>
      rw [BruteForce.handlerStep]
      dsimp only
      split
      · exact h.idle hhandler rfl (idle_answered _)
      · rename_i hroom
        obtain ⟨hlimit, hhashes⟩ := hwithin request code codes hhandler (UInt8.not_le.1 hroom)
        exact h.attempt hhandler hlimit hhashes
  | verifying code codes challenge username password hash hashes =>
      rw [BruteForce.handlerStep]
      dsimp only
      split
      · exact h.idle hhandler rfl (idle_answered _)
      · split
        · exact h.idle hhandler rfl (idle_nextPhase (some username) codes)
        · exact h.fail hhandler
  | counting code challenge => exact h.count _ hhandler
  | answered answer => exact h

/-- A handler without an attempt is dropped. -/
theorem dropStep (h : Inv state) (hhandler : state.handlers[index]? = some handler)
    (hrunning : handler.phase.isRunning = false) (hended : handler.phase.isEnded = false) :
    Inv (dropStep library state index handler) := by
  obtain ⟨request, phase⟩ := handler
  cases phase with
  | checking code codes => exact h.idle hhandler rfl (idle_answered _)
  | verifying code codes challenge username password hash hashes =>
      have hdisabled : code.disableBruteForceProtection = true := by
        simpa [Phase.isRunning] using hrunning
      have hfail : state.fail request.bruteForceDbKey code = state := by
        rw [State.fail, if_pos hdisabled]
      rw [BruteForce.dropStep]
      dsimp only
      rw [hfail, ite_self]
      exact h.idle hhandler rfl (idle_answered _)
  | counting code challenge => exact absurd hended (by simp [Phase.isEnded])
  | answered answer => exact h

end Handlers

/-- Every step within the limit keeps the invariant. -/
theorem step (library : Library) (h : Inv state) (action : Action)
    (hwithin : WithinLimit library state action) : Inv (step library state action) := by
  cases action with
  | wait time => exact h.wait time
  | request request => exact h.request request (idle_nextPhase none _)
  | resume index crashed =>
      rw [BruteForce.step]
      split
      · exact h
      · rename_i handler hhandler
        exact h.handlerStep hhandler crashed hwithin
  | drop index =>
      rw [BruteForce.step]
      split
      · exact h
      · rename_i handler hhandler
        obtain ⟨hrunning, hended⟩ := hwithin handler hhandler
        exact h.dropStep hhandler hrunning hended

end Inv

/-! ## Every run -/

/-- In every run within the limit a client fails at most ten times in each span of the lifetime, every
failure is counted and no count is lost within its lifetime, and a client with ten counted attempts is
refused. -/
theorem failures_le (library : Library) (actions : List Action)
    (hwithin : AllSteps (step library) (WithinLimit library) init actions) :
    (∀ remoteIp first, within ((run (step library) init actions).failuresOf (displayIp remoteIp)) first
        (first + window) ≤ 10) ∧
      (∀ update ∈ (run (step library) init actions).updates,
        update.after.toNat = update.before.toNat + 1) ∧
      (∀ remoteIp first, (run (step library) init actions).now < first + window →
        since ((run (step library) init actions).updatesOf (displayIp remoteIp)) first ≤
          ((run (step library) init actions).currentAttempts (displayIp remoteIp)).toNat) ∧
      ∀ index request code codes crashed first,
        (run (step library) init actions).handlers[index]? = some ⟨request, .checking code codes⟩ →
        (run (step library) init actions).now < first + window →
        10 ≤ since ((run (step library) init actions).updatesOf request.bruteForceDbKey) first →
          (step library (run (step library) init actions) (.resume index crashed)).handlers[index]? =
            some ⟨request, .answered (.status 429 [])⟩ := by
  have hinv : Inv (run (step library) init actions) :=
    run_invariant (fun _ action hok h => h.step library action hok) Inv.init hwithin
  refine ⟨fun remoteIp first => (hinv.sound _).within_le first, hinv.increments,
    fun remoteIp first hfirst => (hinv.sound _).counted first hfirst, ?_⟩
  intro index request code codes crashed first hhandler hfirst hten
  have hcounted := (hinv.sound request.bruteForceDbKey).counted first hfirst
  have hfull : 10 ≤ (run (step library) init actions).currentAttempts request.bruteForceDbKey :=
    UInt8.le_iff_toNat_le.2 (hten.trans hcounted)
  rw [step, hhandler]
  dsimp only [handlerStep]
  rw [if_pos hfull, State.setPhase]
  exact List.getElem?_set_self (List.getElem?_eq_some_iff.1 hhandler).1

/-! ## Attempts at the same time -/

/-- A library that decodes one pair of credentials, with a password that is always wrong. -/
def wrongPassword : Library where
  find _ _ := some none
  replace _ text _ := text
  decode text := if text = "dTpw".toList then some (asciiBytes "u:p".toList) else none
  verifyPassword _ _ := false

/-- A code that demands authorization. -/
def protectedCode : NonStandardCode := ⟨401, none, none, none, none, false, none, none, none, none⟩

/-- A configuration with one user. -/
def oneUser : ServerConfiguration where
  entries := AList.insert "user".toList ⟨[⟨[.string ['u'], .string "hash".toList], ∅⟩]⟩ ∅
  filters := ⟨true, none, none, none, none, none⟩

/-- A request with a user name and a password. -/
def guess : AuthRequest where
  requestParts := ⟨⟨.get, ⟨['/'], none, rootPath_no_question⟩,
    [("authorization".toList, asciiBytes "Basic dTpw".toList)]⟩, .http11, none, none⟩
  socketData := ⟨⟨.v4 0x0a000001, 1000⟩, ⟨.v4 0x0a000002, 443⟩, true⟩
  config := oneUser
  nonStandardCodesList := [protectedCode]

/-- Eleven requests arrive, and all of them are checked before one of them is verified. -/
def elevenGuesses : List Action :=
  List.replicate 11 (.request guess) ++ (List.range 11).map (fun index => .resume index false) ++
    (List.range 11).map fun index => .resume index false

/-- Eleven verifications fail at one time. -/
theorem failures_eleven :
    within ((run (step wrongPassword) init elevenGuesses).failuresOf guess.bruteForceDbKey) 0 window =
      11 := by
  decide +kernel

/-- A client's password is verified, the failure is counted, and the client tries again. -/
def guessesInTurn : List Action :=
  [.request guess, .resume 0 false, .resume 0 false, .resume 0 false, .request guess, .resume 1 false]

theorem failures_le_inTurn :
    (run (step wrongPassword) init guessesInTurn).currentAttempts guess.bruteForceDbKey = 1 ∧
      within ((run (step wrongPassword) init guessesInTurn).failuresOf (displayIp (.v4 0x0a000001))) 0
        (0 + window) ≤ 10 :=
  ⟨by decide +kernel, (failures_le wrongPassword guessesInTurn (by decide +kernel)).1 _ 0⟩

end Ferron.Modules.BruteForce
