import Ferron.Modules.BruteForce

/-!
# Basic authentication

A code with the status 401 demands authorization. A handler goes behind it only with the name and the
password of a user that the code lets in; otherwise it answers with a refusal, whatever the handlers of
other requests do in between (`basicAuth_sound`).
-/

set_option autoImplicit false

namespace Ferron.Modules.BruteForce

open Ferron.Common Ferron.Http Ferron.Lib.Run

/-! ## What authorization is -/

section Authorization

variable (library : Library) (request : AuthRequest) (code : NonStandardCode)

/-- The regular expression or the URL of a code is that of the request. A code with neither is for every
request. -/
def UrlMatches : Prop :=
  match code.regex with
  | none => code.url = none ∨ code.url = some request.requestParts.uri.path
  | some regex =>
      (∃ text, library.find regex request.requestUrl = some (some text)) ∨
        library.find regex request.requestUrl = some none ∧
          code.url = some request.requestParts.uri.path

/-- The code demands authorization of the request. -/
structure Demands : Prop where
  statusCode : code.statusCode = 401
  applicable : notApplicable request code = false
  urlMatches : UrlMatches library request code

/-- The request has the name and the password of a user that the code lets in. -/
structure AuthorizedAs (username : Str) : Prop where
  header : ∃ value encoded decoded password,
    request.requestParts.headers.get "authorization".toList = some value ∧
      toStr value = some ("Basic ".toList ++ encoded) ∧
      library.decode encoded = some decoded ∧
      Utf8.fromUtf8 decoded = some (username ++ ':' :: password) ∧ ':' ∉ username ∧
      ∃ users ∈ request.config.getEntries "user".toList, ∃ user ∈ users.inner, ∃ hash,
        user.values[0]?.bind ServerConfigurationValue.asStr = some username ∧
          user.values[1]?.bind ServerConfigurationValue.asStr = some hash ∧
          library.verifyPassword password hash = true
  listed : ∀ userList ∈ code.userList, username ∈ userList

/-- A handler goes behind a code that is not for its request, or for which it is authorized. -/
def Passes : Prop :=
  matchCode library request code = .unmatched ∨
    Demands library request code ∧ ∃ username, AuthorizedAs library request code username

/-- How a handler answers a request that a code does not let pass. -/
inductive Refusal (interrupted : Prop) : Answer → Prop
  | unauthorized {value : HeaderValue} (hchallenge : challenge code = some value) :
      Refusal interrupted (unauthorized code value)
  | tooManyRequests : Refusal interrupted (.status 429 [])
  | badRequest {value : HeaderValue}
      (hheader : request.requestParts.headers.get "authorization".toList = some value)
      (hvalue : toStr value = none) : Refusal interrupted (.status 400 [])
  | failed (hfailed : challenge code = none ∨ interrupted) : Refusal interrupted .failed

/-- The name and the password of a request. -/
def credentials : Option (Str × Str) :=
  ((request.requestParts.headers.get "authorization".toList).bind toStr).bind (parseBasicAuth library)

variable {library request code}

/-- The codes that demand authorization are the matched ones with the status 401. -/
theorem demands_iff :
    Demands library request code ↔
      code.statusCode = 401 ∧ ∃ redirectUrl, matchCode library request code = .matched redirectUrl := by
  have hmatched : code.statusCode = 401 → ∀ location suffix,
      matchedCode request code location suffix = .matched none := by
    intro h401 location suffix
    rw [matchedCode.eq_def, h401]
    rfl
  constructor
  · rintro ⟨h401, happlicable, hurl⟩
    refine ⟨h401, none, ?_⟩
    rw [matchCode, happlicable, if_neg Bool.false_ne_true]
    rw [UrlMatches] at hurl
    cases hregex : code.regex with
    | none =>
        rw [hregex] at hurl
        dsimp only at hurl ⊢
        split
        · exact hmatched h401 _ _
        · rename_i hsome
          have hpath := hurl.resolve_left fun h => hsome (by rw [h]; rfl)
          rw [matchUrl, if_pos hpath, hmatched h401]
    | some regex =>
        rw [hregex] at hurl
        dsimp only at hurl ⊢
        rcases hurl with ⟨text, htext⟩ | ⟨hnone, hpath⟩
        · rw [htext]
          exact hmatched h401 _ _
        · rw [hnone]
          dsimp only
          rw [matchUrl, if_pos hpath, hmatched h401]
  · rintro ⟨h401, redirectUrl, hmatch⟩
    have hurlMatched : matchUrl request code = .matched redirectUrl →
        code.url = some request.requestParts.uri.path := by
      intro h
      rw [matchUrl] at h
      split at h
      · rename_i hpath
        exact hpath
      · exact nomatch h
    rw [matchCode] at hmatch
    split at hmatch
    · exact nomatch hmatch
    rename_i happlicable
    refine ⟨h401, Bool.eq_false_iff.2 happlicable, ?_⟩
    -- a pattern that is found, or else the path
    rw [UrlMatches]
    cases hregex : code.regex with
    | none =>
        rw [hregex] at hmatch
        dsimp only at hmatch ⊢
        split at hmatch
        · rename_i hnone
          exact .inl (Option.isNone_iff_eq_none.1 hnone)
        · exact .inr (hurlMatched hmatch)
    | some regex =>
        rw [hregex] at hmatch
        dsimp only at hmatch ⊢
        cases hfind : library.find regex request.requestUrl with
        | none =>
            rw [hfind] at hmatch
            exact nomatch hmatch
        | some found =>
            rw [hfind] at hmatch
            cases found with
            | none => exact .inr ⟨rfl, hurlMatched hmatch⟩
            | some text => exact .inl ⟨text, rfl⟩

theorem dropWhile_of_mem {c : Char} {text : Str} (h : c ∈ text) :
    ∃ rest, text.dropWhile (fun d => decide (d ≠ c)) = c :: rest := by
  induction text with
  | nil => exact absurd h List.not_mem_nil
  | cons d text ih =>
      by_cases hd : d = c
      · exact ⟨text, by rw [List.dropWhile_cons, hd]; simp⟩
      · obtain ⟨rest, hrest⟩ := ih ((List.mem_cons.1 h).resolve_left (Ne.symm hd))
        exact ⟨rest, by rw [List.dropWhile_cons, if_pos (decide_eq_true hd), hrest]⟩

/-- What a header with a name and a password is. -/
theorem credentials_eq_some {username password : Str}
    (h : credentials library request = some (username, password)) :
    ∃ value encoded decoded,
      request.requestParts.headers.get "authorization".toList = some value ∧
        toStr value = some ("Basic ".toList ++ encoded) ∧
        library.decode encoded = some decoded ∧
        Utf8.fromUtf8 decoded = some (username ++ ':' :: password) ∧ ':' ∉ username := by
  obtain ⟨authStr, hauthStr, hparse⟩ := Option.bind_eq_some_iff.1 h
  obtain ⟨value, hvalue, hstr⟩ := Option.bind_eq_some_iff.1 hauthStr
  rw [parseBasicAuth] at hparse
  split at hparse
  · rename_i hbasic
    obtain ⟨text, htext, hsplit⟩ := Option.bind_eq_some_iff.1 hparse
    obtain ⟨decoded, hdecoded, hutf8⟩ := Option.bind_eq_some_iff.1 htext
    split at hsplit
    · rename_i hcolon
      obtain ⟨rfl, rfl⟩ := Prod.mk.inj (Option.some.inj hsplit)
      obtain ⟨encoded, rfl⟩ := List.isPrefixOf_iff_prefix.1 hbasic
      refine ⟨value, encoded, decoded, hvalue, hstr, hdecoded, ?_, ?_⟩
      · obtain ⟨password, hrest⟩ := dropWhile_of_mem (List.contains_iff_mem.1 hcolon)
        rw [hutf8, hrest, List.drop_succ_cons, List.drop_zero, ← hrest, List.takeWhile_append_dropWhile]
      · intro hmem
        exact absurd (List.mem_takeWhile_imp hmem) (by simp)
    · exact nomatch hsplit
  · exact nomatch hparse

/-- A verified password authorizes. -/
theorem authorizedAs_of_verified {username password hash : Str}
    (hcredentials : credentials library request = some (username, password))
    (hhash : hash ∈ passwordHashes request code username)
    (hverified : library.verifyPassword password hash = true) :
    AuthorizedAs library request code username := by
  obtain ⟨value, encoded, decoded, hvalue, hstr, hdecoded, hutf8, hcolon⟩ :=
    credentials_eq_some hcredentials
  rw [passwordHashes] at hhash
  split at hhash
  · rename_i hlisted
    cases husers : request.config.getEntries "user".toList with
    | none =>
        rw [husers] at hhash
        exact absurd hhash List.not_mem_nil
    | some users =>
        rw [husers] at hhash
        obtain ⟨user, huser, hvalues⟩ := List.mem_filterMap.1 hhash
        obtain ⟨hmem, hname⟩ := List.mem_filter.1 huser
        refine ⟨⟨value, encoded, decoded, password, hvalue, hstr, hdecoded, hutf8, hcolon, users, husers,
          user, hmem, hash, of_decide_eq_true hname, hvalues, hverified⟩, ?_⟩
        intro userList hlist
        rw [hlist] at hlisted
        exact List.contains_iff_mem.1 hlisted
  · exact absurd hhash List.not_mem_nil

end Authorization

/-! ## Where a handler is -/

/-- A handler is at the first of the codes that it has not gone behind, or it has answered there. -/
def Phase.StandsAt (library : Library) (request : AuthRequest) (interrupted : Prop) :
    Phase → List NonStandardCode → Prop
  | .checking code codes, rest => rest = code :: codes ∧ Demands library request code
  | .verifying code codes value username password hash hashes, rest =>
      rest = code :: codes ∧ Demands library request code ∧ challenge code = some value ∧
        credentials library request = some (username, password) ∧
        ∀ tried ∈ hash :: hashes, tried ∈ passwordHashes request code username
  | .counting code value, rest =>
      ∃ codes, rest = code :: codes ∧ Demands library request code ∧ challenge code = some value
  | .answered (.passed _), rest => rest = []
  | .answered answer, rest =>
      ∃ code codes, rest = code :: codes ∧
        (Demands library request code → Refusal request code interrupted answer)

/-- The user that a handler has authorized. -/
def Phase.authUser : Phase → Option Str
  | .answered (.passed authUser) => authUser
  | _ => none

/-- A handler has gone behind the codes that let its request pass, and it stands at the next one. -/
def Phase.Sound (library : Library) (request : AuthRequest) (interrupted : Prop) (phase : Phase) :
    Prop :=
  ∃ passed rest, request.nonStandardCodesList = passed ++ rest ∧
    (∀ code ∈ passed, Passes library request code) ∧
    phase.StandsAt library request interrupted rest ∧
    ∀ username ∈ phase.authUser, ∃ code ∈ passed, Demands library request code ∧
      AuthorizedAs library request code username

section Phases

variable {library : Library} {request : AuthRequest} {interrupted : Prop}

/-- An answer that is no pass is one of the code at which the handler stands. -/
theorem Phase.Sound.answered {code : NonStandardCode} {codes passed : List NonStandardCode}
    {answer : Answer} (hcodes : request.nonStandardCodesList = passed ++ code :: codes)
    (hpassed : ∀ code ∈ passed, Passes library request code)
    (hanswer : ∀ authUser, answer ≠ .passed authUser)
    (hrefusal : Demands library request code → Refusal request code interrupted answer) :
    (Phase.answered answer).Sound library request interrupted := by
  refine ⟨passed, code :: codes, hcodes, hpassed, ?_, ?_⟩
  · cases answer with
    | passed authUser => exact absurd rfl (hanswer authUser)
    | response status headers body => exact ⟨code, codes, rfl, hrefusal⟩
    | status status headers => exact ⟨code, codes, rfl, hrefusal⟩
    | failed => exact ⟨code, codes, rfl, hrefusal⟩
    | never => exact ⟨code, codes, rfl, hrefusal⟩
  · cases answer with
    | passed authUser => exact absurd rfl (hanswer authUser)
    | response status headers body => exact fun _ h => nomatch h
    | status status headers => exact fun _ h => nomatch h
    | failed => exact fun _ h => nomatch h
    | never => exact fun _ h => nomatch h

theorem unauthorized_ne_passed (code : NonStandardCode) (value : HeaderValue)
    (authUser : Option Str) : unauthorized code value ≠ .passed authUser := by
  rw [unauthorized]
  cases code.body <;> exact fun h => nomatch h

/-- Some of the password hashes are to be tried. -/
theorem sound_verifyNext {code : NonStandardCode} {codes passed : List NonStandardCode}
    (hcodes : request.nonStandardCodesList = passed ++ code :: codes)
    (hpassed : ∀ code ∈ passed, Passes library request code)
    (hdemands : Demands library request code) {value : HeaderValue}
    (hchallenge : challenge code = some value) {username password : Str}
    (hcredentials : credentials library request = some (username, password)) {hashes : List Str}
    (hhashes : ∀ hash ∈ hashes, hash ∈ passwordHashes request code username) :
    (verifyNext code codes value username password hashes).Sound library request interrupted := by
  cases hashes with
  | cons hash hashes =>
      exact ⟨passed, code :: codes, hcodes, hpassed,
        ⟨rfl, hdemands, hchallenge, hcredentials, hhashes⟩, (by intro _ h; cases h)⟩
  | nil =>
      rw [verifyNext]
      split
      · exact .answered hcodes hpassed (unauthorized_ne_passed code value)
          fun _ => .unauthorized hchallenge
      · exact ⟨passed, code :: codes, hcodes, hpassed, ⟨codes, rfl, hdemands, hchallenge⟩,
          (by intro _ h; cases h)⟩

/-- An attempt for a code that demands authorization. -/
theorem sound_attempt {code : NonStandardCode} {codes passed : List NonStandardCode}
    (hcodes : request.nonStandardCodesList = passed ++ code :: codes)
    (hpassed : ∀ code ∈ passed, Passes library request code)
    (hdemands : Demands library request code) :
    (attempt library request code codes).Sound library request interrupted := by
  rw [attempt]
  cases hchallenge : challenge code with
  | none =>
      exact .answered hcodes hpassed (by intro _ h; cases h) fun _ => .failed (.inl hchallenge)
  | some value =>
      dsimp only
      have hrefused : (Phase.answered (unauthorized code value)).Sound library request interrupted :=
        .answered hcodes hpassed (unauthorized_ne_passed code value) fun _ => .unauthorized hchallenge
      cases hheader : request.requestParts.headers.get "authorization".toList with
      | none => exact hrefused
      | some header =>
          dsimp only
          cases hstr : toStr header with
          | none =>
              exact .answered hcodes hpassed (by intro _ h; cases h) fun _ => .badRequest hheader hstr
          | some authorizationStr =>
              dsimp only
              cases hparse : parseBasicAuth library authorizationStr with
              | none => exact hrefused
              | some pair =>
                  obtain ⟨username, password⟩ := pair
                  have hcredentials : credentials library request = some (username, password) := by
                    rw [credentials, hheader, Option.bind_some, hstr, Option.bind_some, hparse]
                  exact sound_verifyNext hcodes hpassed hdemands hchallenge hcredentials fun _ h => h

/-- A handler that goes on behind the codes that it has passed. -/
theorem sound_nextPhase (codes : List NonStandardCode) {passed : List NonStandardCode}
    {authUser : Option Str} (hcodes : request.nonStandardCodesList = passed ++ codes)
    (hpassed : ∀ code ∈ passed, Passes library request code)
    (huser : ∀ username ∈ authUser, ∃ code ∈ passed, Demands library request code ∧
      AuthorizedAs library request code username) :
    (nextPhase library request authUser codes).Sound library request interrupted := by
  induction codes generalizing passed with
  | nil => exact ⟨passed, [], hcodes, hpassed, rfl, huser⟩
  | cons code codes ih =>
      have hunmatched : ∀ {answer}, (∀ authUser, answer ≠ .passed authUser) →
          (Demands library request code → False) →
          (Phase.answered answer).Sound library request interrupted := fun hanswer hno =>
        .answered hcodes hpassed hanswer fun h => absurd (hno h) id
      rw [nextPhase]
      cases hmatch : matchCode library request code with
      | unmatched =>
          have hnext : request.nonStandardCodesList = (passed ++ [code]) ++ codes := by
            rw [hcodes, List.append_assoc]
            rfl
          refine ih hnext ?_ ?_
          · exact List.forall_mem_append.2 ⟨hpassed, List.forall_mem_singleton.2 (.inl hmatch)⟩
          · intro username husername
            obtain ⟨other, hother, h⟩ := huser username husername
            exact ⟨other, List.mem_append_left _ hother, h⟩
      | failed =>
          refine hunmatched (by intro _ h; cases h) fun h => ?_
          obtain ⟨-, url, hurl⟩ := demands_iff.1 h
          cases hmatch.symm.trans hurl
      | never =>
          -- a search that does not end matches nothing either
          refine hunmatched (by intro _ h; cases h) fun h => ?_
          obtain ⟨-, url, hurl⟩ := demands_iff.1 h
          cases hmatch.symm.trans hurl
      | matched redirectUrl =>
          dsimp only
          -- a redirect and a plain answer are for other codes than 401
          by_cases hredirect : isRedirect code.statusCode = true
          · rw [if_pos hredirect]
            refine hunmatched ?_ fun h => ?_
            · intro authUser
              rw [redirect]
              split <;> exact (by intro h; cases h)
            · rw [h.statusCode] at hredirect
              exact absurd hredirect (by decide)
          rw [if_neg hredirect]
          by_cases h401 : code.statusCode = 401
          · have hdemands : Demands library request code := demands_iff.2 ⟨h401, redirectUrl, hmatch⟩
            rw [if_pos h401]
            split
            · exact sound_attempt hcodes hpassed hdemands
            · exact ⟨passed, code :: codes, hcodes, hpassed, ⟨rfl, hdemands⟩, (by intro _ h; cases h)⟩
          · rw [if_neg h401]
            refine hunmatched ?_ fun h => h401 h.statusCode
            intro authUser
            rw [plainAnswer]
            split
            · rintro ⟨⟩
            · split <;> exact (by intro h; cases h)

end Phases

/-! ## Runs -/

section Runs

variable {library : Library} {interrupted : Nat → Prop}

/-- The handlers stand where they may. -/
def AllSound (library : Library) (interrupted : Nat → Prop) (state : State) : Prop :=
  ∀ (index : Nat) (handler : Handler), state.handlers[index]? = some handler →
    handler.phase.Sound library handler.request (interrupted index)

/-- The actions that interrupt a handler are known. -/
def Action.Known (interrupted : Nat → Prop) : Action → Prop
  | .resume index crashed => crashed = true → interrupted index
  | .drop index => interrupted index
  | _ => True

theorem AllSound.setPhase {state : State} (h : AllSound library interrupted state) {index : Nat}
    {handler : Handler} {phase : Phase}
    (hphase : phase.Sound library handler.request (interrupted index)) :
    AllSound library interrupted (state.setPhase index handler phase) := by
  intro other found hfound
  rw [State.setPhase, List.getElem?_set] at hfound
  split at hfound
  · rename_i hindex
    split at hfound
    · rw [← Option.some.inj hfound, ← hindex]
      exact hphase
    · cases hfound
  · exact h other found hfound

/-- A handler that is interrupted where it stands. -/
theorem Phase.Sound.interrupt {request : AuthRequest} {isInterrupted : Prop} {phase : Phase}
    (h : phase.Sound library request isInterrupted) (hinterrupted : isInterrupted)
    (hphase : ∀ answer, phase ≠ .answered answer) :
    (Phase.answered .failed).Sound library request isInterrupted := by
  obtain ⟨passed, rest, hcodes, hpassed, hstands, -⟩ := h
  have hrest : ∃ code codes, rest = code :: codes := by
    cases phase with
    | checking code codes => exact ⟨code, codes, hstands.1⟩
    | verifying code codes _ _ _ _ _ => exact ⟨code, codes, hstands.1⟩
    | counting code _ =>
        obtain ⟨codes, hrest, -⟩ := hstands
        exact ⟨code, codes, hrest⟩
    | answered answer => exact absurd rfl (hphase answer)
  obtain ⟨code, codes, rfl⟩ := hrest
  exact .answered hcodes hpassed (fun _ h => nomatch h) fun _ => .failed (.inr hinterrupted)

/-- A handler that goes on stands where it may again. -/
theorem AllSound.handlerStep {state : State} (h : AllSound library interrupted state) {index : Nat}
    {handler : Handler} (hhandler : state.handlers[index]? = some handler) {crashed : Bool}
    (hcrashed : crashed = true → interrupted index) :
    AllSound library interrupted (handlerStep library state index handler crashed) := by
  have hsound := h index handler hhandler
  obtain ⟨passed, rest, hcodes, hpassed, hstands, huser⟩ := hsound
  rw [BruteForce.handlerStep.eq_def]
  dsimp only
  cases hphase : handler.phase with
  | checking code codes =>
      rw [hphase] at hstands
      obtain ⟨rfl, hdemands⟩ := hstands
      dsimp only
      split
      · exact h.setPhase (.answered hcodes hpassed (fun _ h => nomatch h) fun _ => .tooManyRequests)
      · exact h.setPhase (sound_attempt hcodes hpassed hdemands)
  | verifying code codes value username password hash hashes =>
      rw [hphase] at hstands
      obtain ⟨rfl, hdemands, hchallenge, hcredentials, hhashes⟩ := hstands
      dsimp only
      split
      · rename_i hcrash
        exact h.setPhase (.answered hcodes hpassed (fun _ h => nomatch h) fun _ =>
          .failed (.inr (hcrashed hcrash)))
      split
      · rename_i hverified
        have hauthorized : AuthorizedAs library handler.request code username :=
          authorizedAs_of_verified hcredentials (hhashes hash List.mem_cons_self) hverified
        have hnext : handler.request.nonStandardCodesList = (passed ++ [code]) ++ codes := by
          rw [hcodes, List.append_assoc]
          rfl
        refine h.setPhase (sound_nextPhase codes hnext ?_ ?_)
        · exact List.forall_mem_append.2
            ⟨hpassed, List.forall_mem_singleton.2 (.inr ⟨hdemands, username, hauthorized⟩)⟩
        · intro name hname
          rw [← Option.some.inj hname]
          exact ⟨code, by simp, hdemands, hauthorized⟩
      · -- the count of failures says nothing about the handlers
        have hfail : AllSound library interrupted
            (state.fail handler.request.bruteForceDbKey code) := by
          rw [State.fail]
          split
          · exact h
          · exact h
        exact hfail.setPhase (sound_verifyNext hcodes hpassed hdemands hchallenge hcredentials
          fun tried htried => hhashes tried (List.mem_cons_of_mem _ htried))
  | counting code value =>
      rw [hphase] at hstands
      obtain ⟨codes, rfl, hdemands, hchallenge⟩ := hstands
      have hcount : AllSound library interrupted (state.count handler.request.bruteForceDbKey) := h
      exact hcount.setPhase (.answered hcodes hpassed (unauthorized_ne_passed code value) fun _ =>
        .unauthorized hchallenge)
  | answered answer => exact h

theorem AllSound.dropStep {state : State} (h : AllSound library interrupted state) {index : Nat}
    {handler : Handler} (hhandler : state.handlers[index]? = some handler)
    (hdropped : interrupted index) :
    AllSound library interrupted (dropStep library state index handler) := by
  have hsound := h index handler hhandler
  rw [BruteForce.dropStep.eq_def]
  cases hphase : handler.phase with
  | checking code codes =>
      exact h.setPhase (hsound.interrupt hdropped (by rw [hphase]; exact (by intro _ h; cases h)))
  | verifying code codes value username password hash hashes =>
      have hfail : AllSound library interrupted
          (if library.verifyPassword password hash then state
            else state.fail handler.request.bruteForceDbKey code) := by
        split
        · exact h
        · rw [State.fail]
          split
          · exact h
          · exact h
      exact hfail.setPhase (hsound.interrupt hdropped (by rw [hphase]; exact (by intro _ h; cases h)))
  | counting code value =>
      exact h.setPhase (hsound.interrupt hdropped (by rw [hphase]; exact (by intro _ h; cases h)))
  | answered answer => exact h

theorem AllSound.step {state : State} (h : AllSound library interrupted state) {action : Action}
    (hknown : action.Known interrupted) :
    AllSound library interrupted (step library state action) := by
  cases action with
  | wait time => exact h
  | request request =>
      intro index handler hhandler
      rw [BruteForce.step, List.getElem?_append] at hhandler
      split at hhandler
      · exact h index handler hhandler
      · rw [List.getElem?_singleton] at hhandler
        split at hhandler
        · rw [← Option.some.inj hhandler]
          exact sound_nextPhase _ rfl (fun _ h => absurd h List.not_mem_nil) (by intro _ h; cases h)
        · cases hhandler
  | resume index crashed =>
      rw [BruteForce.step]
      cases hhandler : state.handlers[index]? with
      | none => exact h
      | some handler => exact h.handlerStep hhandler hknown
  | drop index =>
      rw [BruteForce.step]
      cases hhandler : state.handlers[index]? with
      | none => exact h
      | some handler => exact h.dropStep hhandler hknown

end Runs

/-! ## Answers -/

section Answers

variable (library : Library) (request : AuthRequest)

/-- No user name has more password hashes than there are users. -/
def hashBound : Nat :=
  ((request.config.getEntries "user".toList).map fun users => users.inner.length).getD 0

/-- The steps that a handler takes at most behind some codes. -/
def codesSteps (codes : List NonStandardCode) : Nat := codes.length * (hashBound request + 3)

/-- The steps that a handler takes at most. -/
def Phase.steps : Phase → Nat
  | .checking _ codes => codesSteps request codes + hashBound request + 3
  | .verifying _ codes _ _ _ _ hashes => codesSteps request codes + hashes.length + 2
  | .counting _ _ => 1
  | .answered _ => 0

theorem length_passwordHashes_le (code : NonStandardCode) (username : Str) :
    (passwordHashes request code username).length ≤ hashBound request := by
  rw [passwordHashes, hashBound]
  split
  · cases request.config.getEntries "user".toList with
    | none => exact le_rfl
    | some users =>
        exact (List.length_filterMap_le _ _).trans (List.length_filter_le _ _)
  · exact Nat.zero_le _

theorem steps_verifyNext_le (code : NonStandardCode) (codes : List NonStandardCode)
    (value : HeaderValue) (username password : Str) (hashes : List Str) :
    (verifyNext code codes value username password hashes).steps request ≤
      codesSteps request codes + hashes.length + 1 := by
  cases hashes with
  | cons hash hashes => exact le_rfl
  | nil =>
      rw [verifyNext]
      split
      · exact Nat.zero_le _
      · exact Nat.le_add_left 1 _

theorem steps_attempt_lt (code : NonStandardCode) (codes : List NonStandardCode) :
    (attempt library request code codes).steps request <
      codesSteps request codes + hashBound request + 3 := by
  have hanswered : ∀ answer, (Phase.answered answer).steps request <
      codesSteps request codes + hashBound request + 3 := fun _ => Nat.succ_pos _
  rcases attempt_cases library request code codes with
    ⟨answer, h⟩ | ⟨value, username, password, h⟩
  · rw [h]
    exact hanswered answer
  · have hhashes : (attemptHashes library request code).length ≤ hashBound request := by
      rw [attemptHashes]
      split
      · exact length_passwordHashes_le request code _
      · exact Nat.zero_le _
    have hle := steps_verifyNext_le request code codes value username password
      (attemptHashes library request code)
    rw [h]
    omega

theorem steps_nextPhase_le (authUser : Option Str) (codes : List NonStandardCode) :
    (nextPhase library request authUser codes).steps request ≤ codesSteps request codes := by
  induction codes with
  | nil => exact Nat.zero_le _
  | cons code codes ih =>
      have hcons : codesSteps request (code :: codes) =
          codesSteps request codes + hashBound request + 3 := by
        rw [codesSteps, List.length_cons, Nat.succ_mul]
        rfl
      rw [nextPhase, hcons]
      split
      · omega
      · exact Nat.zero_le _
      · exact Nat.zero_le _
      · split
        · exact Nat.zero_le _
        split
        · split
          · exact (steps_attempt_lt library request code codes).le
          · exact le_rfl
        · exact Nat.zero_le _

end Answers

section Progress

variable {library : Library}

/-- A handler that goes on comes closer to its answer. -/
theorem resume_steps_lt {state : State} {index : Nat} {handler : Handler}
    (hhandler : state.handlers[index]? = some handler)
    (hphase : ∀ answer, handler.phase ≠ .answered answer) :
    ∃ phase : Phase, (step library state (.resume index false)).handlers[index]? =
        some ⟨handler.request, phase⟩ ∧
      phase.steps handler.request < handler.phase.steps handler.request := by
  have hset : ∀ {other : State} (phase : Phase), other.handlers = state.handlers →
      (other.setPhase index handler phase).handlers[index]? = some ⟨handler.request, phase⟩ := by
    intro other phase hhandlers
    rw [State.setPhase]
    dsimp only
    rw [hhandlers, List.getElem?_set_self (List.getElem?_eq_some_iff.1 hhandler).1]
  rw [step, hhandler]
  dsimp only
  rw [handlerStep.eq_def]
  dsimp only
  cases hcase : handler.phase with
  | checking code codes =>
      dsimp only
      split
      · exact ⟨_, hset _ rfl, Nat.succ_pos _⟩
      · exact ⟨_, hset _ rfl, steps_attempt_lt library handler.request code codes⟩
  | verifying code codes value username password hash hashes =>
      dsimp only
      rw [if_neg Bool.false_ne_true]
      split
      · refine ⟨_, hset _ rfl, ?_⟩
        have hle := steps_nextPhase_le library handler.request (some username) codes
        rw [Phase.steps]
        omega
      · refine ⟨_, hset _ (by rw [State.fail]; split <;> rfl), ?_⟩
        have hle := steps_verifyNext_le handler.request code codes value username password hashes
        rw [Phase.steps]
        omega
  | counting code value => exact ⟨_, hset _ rfl, Nat.one_pos⟩
  | answered answer => exact absurd hcase (hphase answer)

/-- A handler that goes on often enough has answered. -/
theorem exists_answer {state : State} {index : Nat} {handler : Handler}
    (hhandler : state.handlers[index]? = some handler) :
    ∃ n answer, (run (step library) state (List.replicate n (.resume index false))).handlers[index]? =
      some ⟨handler.request, .answered answer⟩ := by
  induction hsteps : handler.phase.steps handler.request using Nat.strong_induction_on
      generalizing state handler with
  | _ steps ih =>
      by_cases hphase : ∃ answer, handler.phase = .answered answer
      · obtain ⟨answer, hanswer⟩ := hphase
        refine ⟨0, answer, ?_⟩
        rw [List.replicate_zero, run_nil, hhandler, ← hanswer]
      · obtain ⟨phase, hnext, hlt⟩ := @resume_steps_lt library _ _ _ hhandler fun answer h =>
          hphase ⟨answer, h⟩
        obtain ⟨n, answer, hanswer⟩ := ih _ (hsteps ▸ hlt) hnext rfl
        exact ⟨n + 1, answer, hanswer⟩

end Progress

/-- The handler was dropped, or the verification of a password crashed. -/
def Interrupted (actions : List Action) (index : Nat) : Prop :=
  .resume index true ∈ actions ∨ .drop index ∈ actions

/-- In every run a handler has gone behind those codes only that are not for its request, or for which
the request is authorized; at a code that demands authorization it answers with a refusal. It answers
when it goes on often enough. -/
theorem basicAuth_sound (library : Library) (actions : List Action) {index : Nat} {handler : Handler}
    (hhandler : (run (step library) init actions).handlers[index]? = some handler) :
    handler.phase.Sound library handler.request (Interrupted actions index) ∧
      ∃ n answer, (run (step library) (run (step library) init actions)
          (List.replicate n (.resume index false))).handlers[index]? =
        some ⟨handler.request, .answered answer⟩ := by
  have hinit : AllSound library (Interrupted actions) init := fun _ _ h => nomatch h
  have hknown : ∀ action ∈ actions, action.Known (Interrupted actions) := by
    intro action haction
    cases action with
    | wait time => trivial
    | request request => trivial
    | resume index crashed =>
        rintro rfl
        exact .inl haction
    | drop index => exact .inr haction
  have hsound : AllSound library (Interrupted actions) (run (step library) init actions) :=
    run_invariant_of_mem (fun _ _ haction h => h.step haction) hknown hinit
  exact ⟨hsound index handler hhandler, exists_answer hhandler⟩

/-- A library in which every password is right. -/
def rightPassword : Library := { wrongPassword with verifyPassword := fun _ _ => true }

/-- A request arrives, its code is checked, and its password is verified. -/
theorem basicAuth_sound_passed :
    let actions : List Action := [.request guess, .resume 0 false, .resume 0 false]
    ∃ handler, (run (step rightPassword) init actions).handlers[0]? = some handler ∧
      handler.phase.authUser = some ['u'] ∧
      handler.phase.Sound rightPassword handler.request (Interrupted actions 0) ∧
      ∃ n answer, (run (step rightPassword) (run (step rightPassword) init actions)
          (List.replicate n (.resume 0 false))).handlers[0]? = some ⟨handler.request, .answered answer⟩ := by
  intro actions
  have huser : ((run (step rightPassword) init actions).handlers[0]?.bind fun handler =>
      handler.phase.authUser) = some ['u'] := by decide +kernel
  obtain ⟨handler, hhandler, hname⟩ := Option.bind_eq_some_iff.1 huser
  exact ⟨handler, hhandler, hname, basicAuth_sound rightPassword actions hhandler⟩

/-- A request whose authorization is no visible ASCII. -/
def unreadableGuess : AuthRequest where
  requestParts :=
    ⟨⟨.get, ⟨['/'], none, rootPath_no_question⟩, [("authorization".toList, [0xff])]⟩, .http11, none,
      none⟩
  socketData := guess.socketData
  config := oneUser
  nonStandardCodesList := [protectedCode]

/-- The answer to a request that does not pass is neither 401 nor 429. -/
theorem answer_unreadableGuess :
    Demands wrongPassword unreadableGuess protectedCode ∧
      (¬ ∃ username, AuthorizedAs wrongPassword unreadableGuess protectedCode username) ∧
      (run (step wrongPassword) init [.request unreadableGuess, .resume 0 false]).handlers[0]? =
        some ⟨unreadableGuess, .answered (.status 400 [])⟩ := by
  refine ⟨⟨rfl, rfl, .inl rfl⟩, ?_, rfl⟩
  rintro ⟨username, ⟨value, encoded, decoded, password, hvalue, hstr, -⟩, -⟩
  rw [← Option.some.inj hvalue] at hstr
  exact nomatch hstr

end Ferron.Modules.BruteForce
