import Ferron.Modules.BasicAuth

/-!
# Which status rule decides

The handler goes through the rules and leaves out those that are not applicable. An `allowed` list has
the clients that a rule is applicable for, and a `not_allowed` list those that it is not applicable for.
The code asks both lists the other way round, so a rule with one of the lists is applied to exactly the
wrong clients. A rule with neither list is applied to all, and one with both lists is treated as it
should be for the clients that are in both or in neither (`fatesRespected_iff`).

A rule with the status 401 depends on the count of failed attempts at its check and on whether a thread
that verifies a password crashes. `handle` has these as inputs, and the handlers of a server answer as it
does, whatever the handlers of other requests do in between (`run_answer`).
-/

set_option autoImplicit false

namespace Ferron.Modules.BruteForce.StatusOrder

open Ferron.Common Ferron.Http Ferron.Lib

/-! ## Handling the rules of a request -/

/-- What a rule that demands authorization finds: whether the client has failed too often, and the
verification whose thread crashes, if one does. -/
structure Surroundings where
  exceeded : Bool
  crash : Option Nat

/-- A rule with its surroundings. -/
abbrev Rule := NonStandardCode × Surroundings

/-- What becomes of a rule. -/
inductive Fate where
  | skipped
  | passed (username : Str)
  | decided (answer : Answer)

/-- What the verification of a password comes to. -/
inductive Verification where
  | verified
  | rejected
  | crashed
  deriving DecidableEq

section Handling

variable (library : Library) (request : AuthRequest)

/-- The loop over the password hashes. -/
def verifyHashes (password : Str) : Option Nat → List Str → Verification
  | _, [] => .rejected
  | some 0, _ :: _ => .crashed
  | crash, hash :: hashes =>
      if library.verifyPassword password hash then .verified
      else verifyHashes password (crash.map (· - 1)) hashes

/-- An attempt that is let through to the credentials. -/
def attemptFate (code : NonStandardCode) (crash : Option Nat) : Fate :=
  match challenge code with
  | none => .decided .failed
  | some challenge =>
      match request.requestParts.headers.get "authorization".toList with
      | none => .decided (unauthorized code challenge)
      | some authorizationHeaderValue =>
          match toStr authorizationHeaderValue with
          | none => .decided (.status 400 [])
          | some authorizationStr =>
              match parseBasicAuth library authorizationStr with
              | none => .decided (unauthorized code challenge)
              | some (username, password) =>
                  match verifyHashes library password crash (passwordHashes request code username) with
                  | .verified => .passed username
                  | .rejected => .decided (unauthorized code challenge)
                  | .crashed => .decided .failed

/-- The arm for 401. -/
def authorize (rule : Rule) : Fate :=
  if !rule.1.disableBruteForceProtection && rule.2.exceeded then .decided (.status 429 [])
  else attemptFate library request rule.1 rule.2.crash

/-- What becomes of a rule that has matched. -/
def matchedFate (rule : Rule) (redirectUrl : Option Str) : Fate :=
  if isRedirect rule.1.statusCode then .decided (redirect request rule.1 redirectUrl)
  else if rule.1.statusCode = 401 then authorize library request rule
  else .decided (plainAnswer rule.1)

/-- One pass of the loop. -/
def fate (rule : Rule) : Fate :=
  match matchCode library request rule.1 with
  | .unmatched => .skipped
  | .failed => .decided .failed
  | .never => .decided .never
  | .matched redirectUrl => matchedFate library request rule redirectUrl

/-- What becomes of the rules up to the one that decides, and the answer. -/
def handle (authUser : Option Str) : List Rule → List Fate × Answer
  | [] => ([], .passed authUser)
  | rule :: rules =>
      match fate library request rule with
      | .skipped => ((handle authUser rules).map (.skipped :: ·) id)
      | .passed username => ((handle (some username) rules).map (.passed username :: ·) id)
      | .decided answer => ([.decided answer], answer)

/-! ## Which rules should be applied -/

/-- The rule is for the client by its lists. -/
structure Applicable (code : NonStandardCode) : Prop where
  allowed : ∀ list ∈ code.users, list.isBlocked request.socketData.remoteAddr.ip = true
  notAllowed : ∀ list ∈ code.notAllowed, list.isBlocked request.socketData.remoteAddr.ip = false

/-- The regular expression or the URL of the rule matches, or the search for the expression fails. -/
def Concerns (code : NonStandardCode) : Prop :=
  UrlMatches library request code ∨
    ∃ regex, code.regex = some regex ∧ library.find regex request.requestUrl = none

/-- The rule has neither list, or it has both, and the client is in both or in neither. -/
def ListsAgree (code : NonStandardCode) : Prop :=
  match code.users, code.notAllowed with
  | none, none => True
  | some allowed, some notAllowed =>
      allowed.isBlocked request.socketData.remoteAddr.ip =
        notAllowed.isBlocked request.socketData.remoteAddr.ip
  | _, _ => False

/-- The rule without its lists of clients. -/
def withoutLists (rule : Rule) : Rule := ({ rule.1 with users := none, notAllowed := none }, rule.2)

/-- The rule should be applied, and then it decides: it is no 401 rule that lets the request pass. -/
def Decides (rule : Rule) : Prop :=
  Applicable request rule.1 ∧ Concerns library request rule.1 ∧
    ∃ answer, fate library request (withoutLists rule) = .decided answer

/-- The user that the last passed rule has authorized. -/
def lastUser (authUser : Option Str) (fates : List Fate) : Option Str :=
  fates.foldl (fun user fate =>
    match fate with
    | .passed username => some username
    | _ => user) authUser

/-- Up to the rule that decides, exactly the rules are applied that are applicable and whose URL or regular
expression matches. The answer is that of the first of them that is no passed 401 rule. -/
structure FatesRespected (authUser : Option Str) (rules : List Rule) : Prop where
  applied : ∀ (index : Nat) (rule : Rule) (f : Fate), rules[index]? = some rule →
    (handle library request authUser rules).1[index]? = some f →
    (f ≠ .skipped ↔ Applicable request rule.1 ∧ Concerns library request rule.1)
  decided : (∃ before answer, handle library request authUser rules =
        (before ++ [.decided answer], answer) ∧ ∀ f ∈ before, ∀ other, f ≠ .decided other) ∨
      (handle library request authUser rules).1.length = rules.length ∧
        (∀ f ∈ (handle library request authUser rules).1, ∀ other, f ≠ .decided other) ∧
        (handle library request authUser rules).2 =
          .passed (lastUser authUser (handle library request authUser rules).1)

end Handling

/-! ## One rule -/

section Rules

variable {library : Library} {request : AuthRequest}

theorem matchedCode_ne_unmatched {code : NonStandardCode} {location : Option Str} {suffix : Str} :
    matchedCode request code location suffix ≠ .unmatched := by
  unfold matchedCode
  split
  · split <;> simp
  · simp

theorem matchUrl_eq_unmatched_iff {code : NonStandardCode} :
    matchUrl request code = .unmatched ↔ code.url ≠ some request.requestParts.uri.path := by
  unfold matchUrl
  split
  · next hurl => exact iff_of_false matchedCode_ne_unmatched (not_not_intro hurl)
  · next hurl => exact iff_of_true rfl hurl

/-- A rule is left out when the code takes it for not applicable, or it does not concern the request. -/
theorem matchCode_eq_unmatched_iff {code : NonStandardCode} :
    matchCode library request code = .unmatched ↔
      ¬(notApplicable request code = false ∧ Concerns library request code) := by
  unfold matchCode
  cases happlicable : notApplicable request code with
  | true => simp
  | false =>
      rw [if_neg Bool.false_ne_true, not_and]
      simp only [forall_const]
      unfold Concerns UrlMatches
      cases code.regex with
      | none =>
          dsimp only
          cases hurl : code.url with
          | none => simp [matchedCode_ne_unmatched]
          | some url =>
              rw [if_neg (by simp), matchUrl_eq_unmatched_iff, hurl]
              simp
      | some regex =>
          dsimp only
          cases hfind : library.find regex request.requestUrl with
          | none => simp [hfind]
          | some found =>
              cases found with
              | none =>
                  rw [matchUrl_eq_unmatched_iff]
                  simp [hfind]
              | some text => simp [matchedCode_ne_unmatched, hfind]

theorem attemptFate_ne_skipped {code : NonStandardCode} {crash : Option Nat} :
    attemptFate library request code crash ≠ .skipped := by
  unfold attemptFate
  repeat' split
  all_goals simp

theorem matchedFate_ne_skipped {rule : Rule} {redirectUrl : Option Str} :
    matchedFate library request rule redirectUrl ≠ .skipped := by
  unfold matchedFate authorize
  split
  · simp
  · split
    · split
      · simp
      · exact attemptFate_ne_skipped
    · simp

theorem fate_ne_skipped_iff {rule : Rule} :
    fate library request rule ≠ .skipped ↔
      notApplicable request rule.1 = false ∧ Concerns library request rule.1 := by
  rw [← not_iff_not, ← matchCode_eq_unmatched_iff, not_not, fate]
  cases matchCode library request rule.1 with
  | unmatched => simp
  | failed => simp
  | never => simp
  | matched redirectUrl => simp [matchedFate_ne_skipped]

/-- The lists agree when the code takes the rule for applicable where it is. -/
theorem listsAgree_iff {code : NonStandardCode} :
    ListsAgree request code ↔ (notApplicable request code = false ↔ Applicable request code) := by
  have happlicable : Applicable request code ↔
      (∀ list ∈ code.users, list.isBlocked request.socketData.remoteAddr.ip = true) ∧
        ∀ list ∈ code.notAllowed, list.isBlocked request.socketData.remoteAddr.ip = false :=
    ⟨fun h => ⟨h.allowed, h.notAllowed⟩, fun h => ⟨h.1, h.2⟩⟩
  rw [happlicable, ListsAgree, notApplicable]
  cases code.users with
  | none =>
      cases code.notAllowed with
      | none => simp
      | some notAllowed =>
          cases hnot : notAllowed.isBlocked request.socketData.remoteAddr.ip <;> simp [hnot]
  | some allowed =>
      cases code.notAllowed with
      | none =>
          cases hin : allowed.isBlocked request.socketData.remoteAddr.ip <;> simp [hin]
      | some notAllowed =>
          cases hin : allowed.isBlocked request.socketData.remoteAddr.ip <;>
            cases hnot : notAllowed.isBlocked request.socketData.remoteAddr.ip <;> simp [hin, hnot]

/-- A rule that the code takes for applicable has the fate that it has without its lists. -/
theorem fate_withoutLists {rule : Rule} (h : notApplicable request rule.1 = false) :
    fate library request (withoutLists rule) = fate library request rule := by
  have hmatch : matchCode library request (withoutLists rule).1 = matchCode library request rule.1 := by
    unfold matchCode
    rw [h]
    rfl
  rw [fate, fate, hmatch]
  rfl

/-- A rule is applied where it should be exactly when its lists agree, if it concerns the request. -/
theorem applied_iff {rule : Rule} :
    (fate library request rule ≠ .skipped ↔
        Applicable request rule.1 ∧ Concerns library request rule.1) ↔
      (Concerns library request rule.1 → ListsAgree request rule.1) := by
  rw [fate_ne_skipped_iff, listsAgree_iff]
  exact and_congr_left_iff

/-- Where its lists agree, a rule decides when its fate says so. -/
theorem decides_iff {rule : Rule}
    (h : Concerns library request rule.1 → ListsAgree request rule.1) :
    Decides library request rule ↔ ∃ answer, fate library request rule = .decided answer := by
  constructor
  · rintro ⟨happlicable, hconcerns, answer, hdecided⟩
    rw [fate_withoutLists ((listsAgree_iff.1 (h hconcerns)).2 happlicable)] at hdecided
    exact ⟨answer, hdecided⟩
  · rintro ⟨answer, hdecided⟩
    have hne : fate library request rule ≠ .skipped := by simp [hdecided]
    obtain ⟨happlied, hconcerns⟩ := fate_ne_skipped_iff.1 hne
    refine ⟨(listsAgree_iff.1 (h hconcerns)).1 happlied, hconcerns, answer, ?_⟩
    rw [fate_withoutLists happlied, hdecided]

end Rules

/-! ## All rules -/

section Lists

variable (library : Library) (request : AuthRequest)

/-- Up to the first rule that should be applied and decides, the lists of every rule that concerns the
request agree. -/
def AgreeUpToDecider (rules : List Rule) : Prop :=
  ∀ front rule back, rules = front ++ rule :: back → (∀ d ∈ front, ¬Decides library request d) →
    Concerns library request rule.1 → ListsAgree request rule.1

/-- Every rule up to the one that decides is applied exactly where it should be. -/
def AppliedRespected (authUser : Option Str) (rules : List Rule) : Prop :=
  ∀ (index : Nat) (rule : Rule) (f : Fate), rules[index]? = some rule →
    (handle library request authUser rules).1[index]? = some f →
    (f ≠ .skipped ↔ Applicable request rule.1 ∧ Concerns library request rule.1)

/-- The fate of the first rule comes first, and unless it decides, the others follow. -/
theorem handle_cons (authUser : Option Str) (rule : Rule) (rules : List Rule) :
    (∃ answer, fate library request rule = .decided answer ∧
      handle library request authUser (rule :: rules) = ([.decided answer], answer)) ∨
    ∃ user, (∀ answer, fate library request rule ≠ .decided answer) ∧
      user = lastUser authUser [fate library request rule] ∧
      handle library request authUser (rule :: rules) =
        (fate library request rule :: (handle library request user rules).1,
          (handle library request user rules).2) := by
  rw [handle]
  cases hfate : fate library request rule with
  | skipped => exact Or.inr ⟨authUser, by simp, rfl, rfl⟩
  | passed username => exact Or.inr ⟨some username, by simp, rfl, rfl⟩
  | decided answer => exact Or.inl ⟨answer, rfl, rfl⟩

variable {library request} {rule : Rule} {rules : List Rule}

theorem agreeUpToDecider_cons :
    AgreeUpToDecider library request (rule :: rules) ↔
      (Concerns library request rule.1 → ListsAgree request rule.1) ∧
        (¬Decides library request rule → AgreeUpToDecider library request rules) := by
  constructor
  · intro h
    refine ⟨h [] rule rules rfl (by simp), fun hpassed front other back hrules hfront => ?_⟩
    exact h (rule :: front) other back (by rw [hrules]; rfl) (List.forall_mem_cons.2 ⟨hpassed, hfront⟩)
  · rintro ⟨hfirst, hlater⟩ front other back hrules hfront
    cases front with
    | nil =>
        obtain ⟨rfl, rfl⟩ := List.cons.inj hrules
        exact hfirst
    | cons first front =>
        obtain ⟨rfl, hrest⟩ := List.cons.inj hrules
        obtain ⟨hpassed, hfront⟩ := List.forall_mem_cons.1 hfront
        exact hlater hpassed front other back hrest hfront

/-- Up to the rule that decides, every rule is applied exactly where it should be when the lists agree. -/
theorem appliedRespected_iff (authUser : Option Str) :
    AppliedRespected library request authUser rules ↔ AgreeUpToDecider library request rules := by
  induction rules generalizing authUser with
  | nil =>
      refine iff_of_true (fun index rule f hrule => ?_) (fun front rule back hrules => ?_)
      · exact absurd hrule (by simp)
      · exact absurd hrules (by simp)
  | cons rule rules ih =>
      rw [agreeUpToDecider_cons, ← applied_iff]
      rcases handle_cons library request authUser rule rules with
        ⟨answer, hfate, hhandle⟩ | ⟨user, hfate, -, hhandle⟩
      · -- the rule decides, so no other one is looked at
        constructor
        · intro h
          have hfirst := h 0 rule (.decided answer) rfl (by rw [hhandle]; rfl)
          rw [← hfate] at hfirst
          have hdecides := (decides_iff (applied_iff.1 hfirst)).2 ⟨answer, hfate⟩
          exact ⟨hfirst, fun hnot => absurd hdecides hnot⟩
        · rintro ⟨hfirst, -⟩ index other f hrule hf
          rw [hhandle] at hf
          cases index with
          | zero =>
              obtain rfl := Option.some.inj hrule
              obtain rfl := Option.some.inj hf
              rwa [hfate] at hfirst
          | succ index => exact absurd hf (by simp)
      · constructor
        · intro h
          have hfirst := h 0 rule _ rfl (by rw [hhandle]; rfl)
          refine ⟨hfirst, fun _ => (ih user).1 fun index other f hrule hf => ?_⟩
          exact h (index + 1) other f hrule (by rw [hhandle]; exact hf)
        · rintro ⟨hfirst, hlater⟩ index other f hrule hf
          rw [hhandle] at hf
          cases index with
          | zero =>
              obtain rfl := Option.some.inj hrule
              obtain rfl := Option.some.inj hf
              exact hfirst
          | succ index =>
              have hnot : ¬Decides library request rule := by
                rw [decides_iff (applied_iff.1 hfirst)]
                rintro ⟨answer, hdecided⟩
                exact hfate answer hdecided
              exact (ih user).2 (hlater hnot) index other f hrule hf

/-- The answer is that of the rule that decides, or the request goes on with the last user. -/
theorem handle_decided (library : Library) (request : AuthRequest) (authUser : Option Str)
    (rules : List Rule) :
    (∃ before answer, handle library request authUser rules =
        (before ++ [.decided answer], answer) ∧ ∀ f ∈ before, ∀ other, f ≠ .decided other) ∨
      (handle library request authUser rules).1.length = rules.length ∧
        (∀ f ∈ (handle library request authUser rules).1, ∀ other, f ≠ .decided other) ∧
        (handle library request authUser rules).2 =
          .passed (lastUser authUser (handle library request authUser rules).1) := by
  induction rules generalizing authUser with
  | nil => exact Or.inr ⟨rfl, by simp [handle], rfl⟩
  | cons rule rules ih =>
      rcases handle_cons library request authUser rule rules with
        ⟨answer, -, hhandle⟩ | ⟨user, hfate, huser, hhandle⟩
      · exact Or.inl ⟨[], answer, hhandle, by simp⟩
      · rcases ih user with ⟨before, answer, hrest, hbefore⟩ | ⟨hlength, hfates, hanswer⟩
        · refine Or.inl ⟨fate library request rule :: before, answer, ?_, ?_⟩
          · rw [hhandle, hrest]
            rfl
          · exact List.forall_mem_cons.2 ⟨hfate, hbefore⟩
        · refine Or.inr ⟨?_, ?_, ?_⟩
          · rw [hhandle, List.length_cons, List.length_cons, hlength]
          · rw [hhandle]
            exact List.forall_mem_cons.2 ⟨hfate, hfates⟩
          · rw [hhandle, hanswer, huser]
            rfl

/-- The rules that should be applied are applied, up to the first one that decides, exactly when the lists
of every rule that concerns the request and comes no later agree: it has neither list, or both, with the
client in both or in neither. -/
theorem fatesRespected_iff (library : Library) (request : AuthRequest) (authUser : Option Str)
    (rules : List Rule) :
    FatesRespected library request authUser rules ↔ AgreeUpToDecider library request rules := by
  rw [← appliedRespected_iff authUser]
  exact ⟨fun h => h.applied, fun h => ⟨h, handle_decided library request authUser rules⟩⟩

end Lists

/-! ## The handlers of a server -/

section Runs

variable {library : Library} {request : AuthRequest}

/-- A handler goes on to another phase, whatever the handlers of other requests do. -/
def Continues (library : Library) (request : AuthRequest) : Phase → Phase → Prop
  | .checking code codes, next =>
      next = .answered (.status 429 []) ∨ next = attempt library request code codes
  | .verifying code codes challenge username password hash hashes, next =>
      next = .answered .failed ∨
        next = if library.verifyPassword password hash then
          nextPhase library request (some username) codes
        else verifyNext code codes challenge username password hashes
  | .counting code challenge, next => next = .answered (unauthorized code challenge)
  | .answered _, _ => False

/-- A phase from which a handler may come to an answer. -/
def MayAnswer (library : Library) (request : AuthRequest) (phase : Phase) (answer : Answer) : Prop :=
  Relation.ReflTransGen (Continues library request) phase (.answered answer)

theorem mayAnswer_answered {answer other : Answer}
    (h : MayAnswer library request (.answered other) answer) : answer = other := by
  rcases Relation.ReflTransGen.cases_head_iff.1 h with heq | ⟨next, hnext, -⟩
  · cases heq
    rfl
  · exact absurd hnext id

theorem exists_continues {phase : Phase} {answer : Answer}
    (h : MayAnswer library request phase answer) (hphase : ∀ other, phase ≠ .answered other) :
    ∃ next, Continues library request phase next ∧ MayAnswer library request next answer := by
  rcases Relation.ReflTransGen.cases_head_iff.1 h with heq | hnext
  · exact absurd heq (hphase answer)
  · exact hnext

/-- Trying the hashes that are left comes to what their verification does for some crash. -/
theorem exists_verification {code : NonStandardCode} {codes : List NonStandardCode}
    {challenge : HeaderValue} {username password : Str} {hashes : List Str} {answer : Answer}
    (h : MayAnswer library request (verifyNext code codes challenge username password hashes) answer) :
    ∃ crash,
      (verifyHashes library password crash hashes = .verified ∧
        MayAnswer library request (nextPhase library request (some username) codes) answer) ∨
      (verifyHashes library password crash hashes = .rejected ∧
        answer = unauthorized code challenge) ∨
      verifyHashes library password crash hashes = .crashed ∧ answer = .failed := by
  induction hashes with
  | nil =>
      refine ⟨none, Or.inr (Or.inl ⟨rfl, ?_⟩)⟩
      rw [verifyNext] at h
      split at h
      · exact mayAnswer_answered h
      · obtain ⟨next, rfl, hnext⟩ := exists_continues h (by simp)
        exact mayAnswer_answered hnext
  | cons hash hashes ih =>
      obtain ⟨next, hcontinues, hnext⟩ := exists_continues h (by simp [verifyNext])
      rcases hcontinues with rfl | rfl
      · exact ⟨some 0, Or.inr (Or.inr ⟨rfl, mayAnswer_answered hnext⟩)⟩
      · cases hverify : library.verifyPassword password hash with
        | true =>
            rw [hverify, if_pos rfl] at hnext
            refine ⟨none, Or.inl ⟨?_, hnext⟩⟩
            rw [verifyHashes, if_pos hverify]
            simp
        | false =>
            rw [hverify, if_neg Bool.false_ne_true] at hnext
            obtain ⟨crash, hcrash⟩ := ih hnext
            -- the crash comes one verification later
            have hlater : verifyHashes library password (crash.map (· + 1)) (hash :: hashes) =
                verifyHashes library password crash hashes := by
              cases crash with
              | none => simp [verifyHashes, hverify]
              | some n => simp [verifyHashes, hverify]
            exact ⟨crash.map (· + 1), by rwa [hlater]⟩

/-- An attempt comes to what its fate is for some crash. -/
theorem exists_attemptFate {code : NonStandardCode} {codes : List NonStandardCode} {answer : Answer}
    (h : MayAnswer library request (attempt library request code codes) answer) :
    ∃ crash, attemptFate library request code crash = .decided answer ∨
      ∃ username, attemptFate library request code crash = .passed username ∧
        MayAnswer library request (nextPhase library request (some username) codes) answer := by
  revert h
  unfold attempt attemptFate
  cases challenge code with
  | none => exact fun h => ⟨none, Or.inl (congrArg Fate.decided (mayAnswer_answered h).symm)⟩
  | some challenge =>
      cases request.requestParts.headers.get "authorization".toList with
      | none => exact fun h => ⟨none, Or.inl (congrArg Fate.decided (mayAnswer_answered h).symm)⟩
      | some value =>
          dsimp only
          cases toStr value with
          | none => exact fun h => ⟨none, Or.inl (congrArg Fate.decided (mayAnswer_answered h).symm)⟩
          | some authorizationStr =>
              dsimp only
              cases parseBasicAuth library authorizationStr with
              | none => exact fun h => ⟨none, Or.inl (congrArg Fate.decided (mayAnswer_answered h).symm)⟩
              | some pair =>
                  obtain ⟨username, password⟩ := pair
                  dsimp only
                  intro h
                  obtain ⟨crash, hcrash⟩ := exists_verification h
                  refine ⟨crash, ?_⟩
                  rcases hcrash with ⟨hverified, hnext⟩ | ⟨hrejected, rfl⟩ | ⟨hcrashed, rfl⟩
                  · rw [hverified]
                    exact Or.inr ⟨username, rfl, hnext⟩
                  · rw [hrejected]
                    exact Or.inl rfl
                  · rw [hcrashed]
                    exact Or.inl rfl

/-- A rule at which a handler is does to it what its fate is in some surroundings. -/
theorem exists_fate {code : NonStandardCode} {codes : List NonStandardCode} {authUser : Option Str}
    {answer : Answer}
    (h : MayAnswer library request (nextPhase library request authUser (code :: codes)) answer) :
    ∃ surroundings,
      (fate library request (code, surroundings) = .skipped ∧
        MayAnswer library request (nextPhase library request authUser codes) answer) ∨
      (∃ username, fate library request (code, surroundings) = .passed username ∧
        MayAnswer library request (nextPhase library request (some username) codes) answer) ∨
      fate library request (code, surroundings) = .decided answer := by
  rw [nextPhase] at h
  have hfate : ∀ surroundings, fate library request (code, surroundings) =
      match matchCode library request code with
      | .unmatched => .skipped
      | .failed => .decided .failed
      | .never => .decided .never
      | .matched redirectUrl => matchedFate library request (code, surroundings) redirectUrl :=
    fun _ => rfl
  simp only [hfate]
  cases hmatch : matchCode library request code with
  | unmatched =>
      rw [hmatch] at h
      exact ⟨⟨false, none⟩, Or.inl ⟨rfl, h⟩⟩
  | failed =>
      rw [hmatch] at h
      exact ⟨⟨false, none⟩, Or.inr (Or.inr (congrArg Fate.decided (mayAnswer_answered h).symm))⟩
  | never =>
      rw [hmatch] at h
      exact ⟨⟨false, none⟩, Or.inr (Or.inr (congrArg Fate.decided (mayAnswer_answered h).symm))⟩
  | matched redirectUrl =>
      rw [hmatch] at h
      dsimp only at h ⊢
      unfold matchedFate
      dsimp only
      split at h
      · next hredirect =>
          refine ⟨⟨false, none⟩, Or.inr (Or.inr ?_)⟩
          rw [if_pos hredirect, mayAnswer_answered h]
      · next hredirect =>
          simp only [if_neg hredirect]
          split at h
          · next h401 =>
              simp only [if_pos h401]
              -- the count that is read tells whether the attempt is let through
              have hattempt : MayAnswer library request (attempt library request code codes) answer →
                  ∃ surroundings, (∃ username,
                    authorize library request (code, surroundings) = .passed username ∧
                    MayAnswer library request (nextPhase library request (some username) codes)
                      answer) ∨ authorize library request (code, surroundings) = .decided answer := by
                intro hattempt
                obtain ⟨crash, hdecided | hpassed⟩ := exists_attemptFate hattempt
                · exact ⟨⟨false, crash⟩, Or.inr (by simpa [authorize] using hdecided)⟩
                · exact ⟨⟨false, crash⟩, Or.inl (by simpa [authorize] using hpassed)⟩
              split at h
              · obtain ⟨surroundings, hresult⟩ := hattempt h
                exact ⟨surroundings, Or.inr hresult⟩
              · next hprotected =>
                  obtain ⟨next, hcontinues, hnext⟩ := exists_continues h (by simp)
                  rcases hcontinues with rfl | rfl
                  · refine ⟨⟨true, none⟩, Or.inr (Or.inr ?_)⟩
                    rw [authorize, if_pos (by simpa using hprotected), mayAnswer_answered hnext]
                  · obtain ⟨surroundings, hresult⟩ := hattempt hnext
                    exact ⟨surroundings, Or.inr hresult⟩
          · next h401 =>
              refine ⟨⟨false, none⟩, Or.inr (Or.inr ?_)⟩
              rw [if_neg h401, mayAnswer_answered h]

/-- What a handler may answer is the answer to the rules in some surroundings. -/
theorem exists_surroundings {codes : List NonStandardCode} {authUser : Option Str} {answer : Answer}
    (h : MayAnswer library request (nextPhase library request authUser codes) answer) :
    ∃ rules : List Rule, rules.map Prod.fst = codes ∧
      (handle library request authUser rules).2 = answer := by
  induction codes generalizing authUser with
  | nil => exact ⟨[], rfl, (mayAnswer_answered h).symm⟩
  | cons code codes ih =>
      obtain ⟨surroundings, ⟨hfate, hnext⟩ | ⟨username, hfate, hnext⟩ | hfate⟩ := exists_fate h
      · obtain ⟨rules, hrules, hanswer⟩ := ih hnext
        refine ⟨(code, surroundings) :: rules, by rw [List.map_cons, hrules], ?_⟩
        rw [handle, hfate]
        exact hanswer
      · obtain ⟨rules, hrules, hanswer⟩ := ih hnext
        refine ⟨(code, surroundings) :: rules, by rw [List.map_cons, hrules], ?_⟩
        rw [handle, hfate]
        exact hanswer
      · refine ⟨(code, surroundings) :: codes.map fun other => (other, ⟨false, none⟩), ?_, ?_⟩
        · rw [List.map_cons, List.map_map]
          exact congrArg _ (List.map_id codes)
        · rw [handle, hfate]

/-- A step of a handler takes it on, or it has answered. -/
theorem handlerStep_continues (library : Library) (state : State) (index : Nat) (handler : Handler)
    (crashed : Bool) :
    (∃ next, Continues library handler.request handler.phase next ∧
      (handlerStep library state index handler crashed).handlers =
        state.handlers.set index { handler with phase := next }) ∨
    (handlerStep library state index handler crashed).handlers = state.handlers := by
  obtain ⟨request, phase⟩ := handler
  unfold handlerStep
  cases phase with
  | checking code codes =>
      refine Or.inl ?_
      dsimp only
      split
      · exact ⟨_, Or.inl rfl, rfl⟩
      · exact ⟨_, Or.inr rfl, rfl⟩
  | verifying code codes challenge username password hash hashes =>
      refine Or.inl ?_
      dsimp only
      split
      · exact ⟨_, Or.inl rfl, rfl⟩
      · split
        · next hverified => exact ⟨_, Or.inr (if_pos hverified).symm, rfl⟩
        · next hrejected =>
            refine ⟨_, Or.inr (if_neg hrejected).symm, ?_⟩
            rw [State.setPhase, State.fail]
            split <;> rfl
  | counting code challenge => exact Or.inl ⟨_, rfl, rfl⟩
  | answered answer => exact Or.inr rfl

/-- The handler of a request has come from its first phase. -/
def Reached (library : Library) (index : Nat) (state : State) : Prop :=
  ∀ handler, state.handlers[index]? = some handler →
    Relation.ReflTransGen (Continues library handler.request)
      (nextPhase library handler.request none handler.request.nonStandardCodesList) handler.phase

/-- The action does not drop the handler. -/
def Keeps (index : Nat) : Action → Prop
  | .drop other => other ≠ index
  | _ => True

theorem Reached.step {index : Nat} {state : State} {action : Action} (hkeeps : Keeps index action)
    (h : Reached library index state) : Reached library index (step library state action) := by
  intro handler hhandler
  cases action with
  | wait time => exact h handler hhandler
  | request request =>
      rw [BruteForce.step] at hhandler
      dsimp only at hhandler
      by_cases hlt : index < state.handlers.length
      · rw [List.getElem?_append_left hlt] at hhandler
        exact h handler hhandler
      · rw [List.getElem?_append_right (Nat.le_of_not_lt hlt)] at hhandler
        obtain rfl := List.mem_singleton.1 (List.mem_of_getElem? hhandler)
        exact .refl
  | resume other crashed =>
      rw [BruteForce.step] at hhandler
      cases hother : state.handlers[other]? with
      | none =>
          rw [hother] at hhandler
          exact h handler hhandler
      | some found =>
          rw [hother] at hhandler
          dsimp only at hhandler
          rcases handlerStep_continues library state other found crashed with
            ⟨next, hnext, hset⟩ | hsame
          · rw [hset, List.getElem?_set] at hhandler
            split at hhandler
            · next heq =>
                subst heq
                split at hhandler
                · obtain rfl := Option.some.inj hhandler
                  exact (h found hother).tail hnext
                · exact absurd hhandler (by simp)
            · exact h handler hhandler
          · rw [hsame] at hhandler
            exact h handler hhandler
  | drop other =>
      have hdrop : (BruteForce.step library state (.drop other)).handlers[index]? =
          state.handlers[index]? := by
        rw [BruteForce.step]
        cases hother : state.handlers[other]? with
        | none => rfl
        | some found =>
            dsimp only
            unfold dropStep
            split
            · rw [State.setPhase]
              dsimp only
              rw [List.getElem?_set_ne hkeeps]
              split
              · rfl
              · rw [State.fail]
                split <;> rfl
            · rfl
            · rw [State.setPhase]
              exact List.getElem?_set_ne hkeeps
      rw [hdrop] at hhandler
      exact h handler hhandler

/-- In every run that does not drop it, the handler of a request answers as its rules do in some
surroundings, in whatever order the handlers go on. -/
theorem run_answer {actions : List Action} {index : Nat} {handler : Handler} {answer : Answer}
    (hkeeps : ∀ action ∈ actions, Keeps index action)
    (hhandler : (Run.run (step library) init actions).handlers[index]? = some handler)
    (hanswer : handler.phase = .answered answer) :
    ∃ rules : List Rule, rules.map Prod.fst = handler.request.nonStandardCodesList ∧
      (handle library handler.request none rules).2 = answer := by
  have hreached : Reached library index (Run.run (step library) init actions) :=
    Run.run_invariant_of_mem (fun _ _ haction h => h.step haction) hkeeps
      (fun _ h => absurd h (by simp [init]))
  have hphase := hreached handler hhandler
  rw [hanswer] at hphase
  exact exists_surroundings hphase

end Runs

/-! ## A rule with a list of applicable clients -/

/-- A list with the client of the requests below. -/
def onlyClient : IpBlockList := ⟨⟨[.v4 0x0a000001], List.nodup_singleton _⟩, HashSet.new⟩

/-- `status 403 allowed="10.0.0.1"`. -/
def forbiddenForClient : NonStandardCode :=
  ⟨403, none, none, none, none, false, none, some onlyClient, none, none⟩

/-- `status 403 not_allowed="10.0.0.1"`. -/
def forbiddenForOthers : NonStandardCode :=
  ⟨403, none, none, none, none, false, none, none, none, some onlyClient⟩

/-- No failed attempts and no crash. -/
def quiet : Surroundings := ⟨false, none⟩

/-- The rule for the client lets it pass, though it should decide. -/
theorem not_fatesRespected_allowed :
    (handle wrongPassword guess none [(forbiddenForClient, quiet)]).2 = .passed none ∧
      Applicable guess forbiddenForClient ∧ UrlMatches wrongPassword guess forbiddenForClient ∧
      (handle wrongPassword guess none [(forbiddenForOthers, quiet)]).2 = .status 403 [] ∧
      ¬FatesRespected wrongPassword guess none [(forbiddenForClient, quiet)] := by
  have happlicable : Applicable guess forbiddenForClient := by
    refine ⟨?_, fun list hlist => absurd hlist (Option.not_mem_none list)⟩
    rintro list ⟨⟩
    decide
  have hconcerns : Concerns wrongPassword guess forbiddenForClient := Or.inl (Or.inl rfl)
  refine ⟨rfl, happlicable, Or.inl rfl, rfl, fun h => ?_⟩
  exact (h.applied 0 (forbiddenForClient, quiet) .skipped rfl rfl).2 ⟨happlicable, hconcerns⟩ rfl

end Ferron.Modules.BruteForce.StatusOrder
