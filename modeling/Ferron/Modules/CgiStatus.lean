import Ferron.Config.Kdl
import Ferron.Modules.CgiEnvironment
import Mathlib.Data.Bool.AllAny

/-!
# The status of a CGI response

A script gives the headers of its response. A `Status` header says what the status is, and without one a
`Location` header makes the response a redirect. The three modules that execute scripts go through the
headers in their order, and a `Location` header replaces every status that is not a redirect, also one that
a `Status` header has given.

The status is that of the last `Status` header, or else the one that `Location` makes, in every order of the
headers of different names if and only if the last `Status` header gives a redirect or one of the two is
missing (`orderIndependent_iff`).
-/

set_option autoImplicit false

namespace Ferron.Modules.CgiStatus

open Ferron.Config (parseU16)
open Ferron.Http
open CgiEnvironment (Gateway)

/-! ## The headers of a script -/

/-- A header as `httparse` gives it. -/
structure Header where
  name : Str
  value : HeaderValue
  name_valid : (headerName name).isSome
  value_valid : value.all isHeaderByte

/-- `to_lowercase` of the name. -/
def Header.lowerName (header : Header) : HeaderName := header.name.map Char.toLower

/-- The status code that a `Status` header gives, if it gives one: `404 Not Found` or `HTTP/1.1 404`. -/
def parseStatus (value : HeaderValue) : Option UInt16 :=
  match (Utf8.fromUtf8Lossy value).splitOn ' ' with
  | [] => none
  | firstPart :: parts =>
      -- the code is the second word behind the version of HTTP
      if "HTTP/".toList.isPrefixOf firstPart then parts.head?.bind parseU16 else parseU16 firstPart

/-- The status code after a `Location` header. -/
def redirect (statusCode : Nat) : Nat := if 300 ≤ statusCode ∧ statusCode ≤ 399 then statusCode else 302

/-- The status code after a header. -/
def updateStatus (statusCode : Nat) (header : Header) : Nat :=
  if header.lowerName = "location".toList then redirect statusCode
  else if header.lowerName = "status".toList then
    (parseStatus header.value).elim statusCode UInt16.toNat
  else statusCode

/-- The status code and the headers of the response builder after a header. -/
def addHeader (builder : Nat × HeaderMap) (header : Header) : Nat × HeaderMap :=
  (updateStatus builder.1 header,
    -- `Status` is no header of the response
    if header.lowerName = "status".toList then builder.2
    else builder.2 ++ [(header.lowerName, header.value)])

/-- A response, without its body. -/
structure Response where
  status : Nat
  headers : HeaderMap

/-- The loop over the headers and the building of the response. A status code has three digits. -/
def buildResponse (headers : List Header) : Option Response :=
  let builder := headers.foldl addHeader (200, [])
  if 100 ≤ builder.1 ∧ builder.1 < 1000 then some ⟨builder.1, builder.2⟩ else none

/-- `execute_cgi`, from the headers on. -/
def executeCgi (headers : List Header) : Option Response := buildResponse headers

/-- `execute_fastcgi`, from the headers on. -/
def executeFastcgi (headers : List Header) : Option Response := buildResponse headers

/-- `execute_scgi`, from the headers on. -/
def executeScgi (headers : List Header) : Option Response := buildResponse headers

/-- The response of a module. -/
def response : Gateway → List Header → Option Response
  | .cgi _ => executeCgi
  | .fastcgi => executeFastcgi
  | .scgi => executeScgi

/-! ## What the status should be -/

/-- The status code that a header gives, when it is a `Status` header. -/
def givenCode (header : Header) : Option Nat :=
  if header.lowerName = "status".toList then (parseStatus header.value).map UInt16.toNat else none

/-- The status code of the last `Status` header that gives one. -/
def lastCode (headers : List Header) : Option Nat := (headers.filterMap givenCode).getLast?

/-- There is a `Location` header. -/
def hasLocation (headers : List Header) : Bool :=
  headers.any fun header => header.lowerName = "location".toList

/-- A `Status` header determines the status, otherwise a `Location` header makes it a redirect, and
otherwise it is 200. -/
def expectedCode (headers : List Header) : Nat :=
  (lastCode headers).getD (if hasLocation headers then 302 else 200)

/-- The status of a response with a status code. -/
def validStatus (statusCode : Nat) : Option Nat :=
  if 100 ≤ statusCode ∧ statusCode < 1000 then some statusCode else none

/-- The same headers, those of each name in the same order. -/
def SameByName (headers headers' : List Header) : Prop :=
  headers.Perm headers' ∧ ∀ name,
    (headers.filter fun header => header.lowerName = name) =
      headers'.filter fun header => header.lowerName = name

/-- The status is the expected one, and it stays the same when headers of different names are permuted. -/
def OrderIndependent (gateway : Gateway) (headers : List Header) : Prop :=
  (response gateway headers).map Response.status = validStatus (expectedCode headers) ∧
    ∀ headers', SameByName headers headers' →
      (response gateway headers').map Response.status = (response gateway headers).map Response.status

/-- There is no `Location` header, no `Status` header that gives a code, or the last one gives a redirect. -/
def NoConflict (headers : List Header) : Prop :=
  hasLocation headers = false ∨ ∀ code, lastCode headers = some code → 300 ≤ code ∧ code ≤ 399

/-! ## The loop -/

section Loop

variable {headers headers' : List Header} {header : Header} {statusCode : Nat}

/-- The status code after all headers. -/
def finalCode (statusCode : Nat) (headers : List Header) : Nat := headers.foldl updateStatus statusCode

theorem finalCode_append (statusCode : Nat) (headers headers' : List Header) :
    finalCode statusCode (headers ++ headers') = finalCode (finalCode statusCode headers) headers' :=
  List.foldl_append

theorem status_response (gateway : Gateway) (headers : List Header) :
    (response gateway headers).map Response.status = validStatus (finalCode 200 headers) := by
  have hloop (builder : Nat × HeaderMap) :
      (headers.foldl addHeader builder).1 = finalCode builder.1 headers := by
    induction headers generalizing builder with
    | nil => rfl
    -- the status code of the builder does not depend on its headers
    | cons header headers ih => exact ih (addHeader builder header)
  have hbuild : (buildResponse headers).map Response.status = validStatus (finalCode 200 headers) := by
    rw [buildResponse, validStatus, ← hloop (200, [])]
    split <;> rfl
  cases gateway <;> exact hbuild

theorem redirect_of_redirect (h : 300 ≤ statusCode ∧ statusCode ≤ 399) :
    redirect statusCode = statusCode := if_pos h

theorem redirect_idem (statusCode : Nat) : redirect (redirect statusCode) = redirect statusCode := by
  apply redirect_of_redirect
  rw [redirect]
  split <;> omega

theorem updateStatus_of_givenCode {code : Nat} (h : givenCode header = some code) :
    updateStatus statusCode header = code := by
  rw [givenCode] at h
  split at h
  · rename_i hstatus
    rw [updateStatus, if_neg (by rw [hstatus]; decide), if_pos hstatus]
    obtain ⟨parsed, hparsed, rfl⟩ := Option.map_eq_some_iff.1 h
    rw [hparsed]
    rfl
  · cases h

theorem updateStatus_of_givenCode_eq_none (h : givenCode header = none) :
    updateStatus statusCode header =
      if header.lowerName = "location".toList then redirect statusCode else statusCode := by
  rw [updateStatus]
  split
  · rfl
  · split
    · rename_i hstatus
      rw [givenCode, if_pos hstatus, Option.map_eq_none_iff] at h
      rw [h]
      rfl
    · rfl

/-- Headers that give no status code: those called `Location` make a redirect. -/
theorem finalCode_of_forall_none (h : ∀ header ∈ headers, givenCode header = none) (statusCode : Nat) :
    finalCode statusCode headers = if hasLocation headers then redirect statusCode else statusCode := by
  induction headers generalizing statusCode with
  | nil => rfl
  | cons header headers ih =>
      obtain ⟨hfirst, hrest⟩ := List.forall_mem_cons.1 h
      have hcons : finalCode statusCode (header :: headers) =
          finalCode (updateStatus statusCode header) headers := rfl
      rw [hcons, ih hrest, updateStatus_of_givenCode_eq_none hfirst]
      rw [hasLocation, hasLocation, List.any_cons]
      by_cases hlocation : header.lowerName = "location".toList
      · -- several `Location` headers do what one of them does
        rw [if_pos hlocation, redirect_idem, ite_self, decide_eq_true hlocation, Bool.true_or, if_pos rfl]
      · rw [if_neg hlocation, decide_eq_false hlocation, Bool.false_or]

/-- The last header that gives a status code, and no other one behind it. -/
theorem exists_of_lastCode {code : Nat} (h : lastCode headers = some code) :
    ∃ before header after, headers = before ++ header :: after ∧ givenCode header = some code ∧
      ∀ other ∈ after, givenCode other = none := by
  induction headers using List.reverseRecOn with
  | nil => cases h
  | append_singleton headers last ih =>
      rw [lastCode, List.filterMap_append] at h
      cases hlast : givenCode last with
      | none =>
          have hsame : [last].filterMap givenCode = [] := by
            rw [List.filterMap_cons, hlast]
            rfl
          -- the last header gives nothing, so it comes behind the one that is looked for
          rw [hsame, List.append_nil] at h
          obtain ⟨before, header, after, hheaders, hgiven, hafter⟩ := ih h
          refine ⟨before, header, after ++ [last], ?_, hgiven, fun other hother => ?_⟩
          · rw [hheaders, List.append_assoc]
            rfl
          · rcases List.mem_append.1 hother with hbefore | hother
            · exact hafter other hbefore
            · rwa [List.mem_singleton.1 hother]
      | some given =>
          have hsame : [last].filterMap givenCode = [given] := by
            rw [List.filterMap_cons, hlast]
            rfl
          rw [hsame, List.getLast?_append, List.getLast?_singleton, Option.some_or] at h
          exact ⟨headers, last, [], rfl, hlast.trans h, fun other hother => absurd hother List.not_mem_nil⟩

/-- The loop goes on from the last status code that is given. -/
theorem finalCode_of_lastCode {code : Nat} (h : lastCode headers = some code) :
    ∃ after, finalCode 200 headers = (if hasLocation after then redirect code else code) ∧
      after.Sublist headers := by
  obtain ⟨before, header, after, rfl, hgiven, hafter⟩ := exists_of_lastCode h
  refine ⟨after, ?_, (List.sublist_cons_self header after).trans (List.sublist_append_right _ _)⟩
  have hcons (statusCode : Nat) : finalCode statusCode (header :: after) =
      finalCode (updateStatus statusCode header) after := rfl
  rw [finalCode_append, hcons, updateStatus_of_givenCode hgiven, finalCode_of_forall_none hafter]

theorem forall_of_lastCode_eq_none (h : lastCode headers = none) :
    ∀ header ∈ headers, givenCode header = none := by
  rw [lastCode, List.getLast?_eq_none_iff, List.filterMap_eq_nil_iff] at h
  exact h

/-- Without a conflict the status code is the expected one. -/
theorem finalCode_of_noConflict (h : NoConflict headers) : finalCode 200 headers = expectedCode headers := by
  rw [expectedCode]
  cases hcode : lastCode headers with
  -- no `Status` header: the loop starts with 200
  | none => exact finalCode_of_forall_none (forall_of_lastCode_eq_none hcode) 200
  | some code =>
      obtain ⟨after, hfinal, hafter⟩ := finalCode_of_lastCode hcode
      rw [hfinal, Option.getD_some]
      -- no `Location` header comes behind it, or the code is a redirect and stays
      rcases h with hnone | hredirect
      · have hbehind : hasLocation after = false := by
          rw [hasLocation, List.any_eq_false] at hnone ⊢
          exact fun header hheader => hnone header (hafter.subset hheader)
        rw [hbehind]
        rfl
      · rw [redirect_of_redirect (hredirect code hcode), ite_self]

/-- What the headers of a name say stays the same. -/
theorem SameByName.hasLocation_eq (h : SameByName headers headers') :
    hasLocation headers' = hasLocation headers := by
  rw [Bool.eq_iff_iff, hasLocation, hasLocation, List.any_eq_true, List.any_eq_true]
  constructor
  · rintro ⟨header, hheader, hlocation⟩
    exact ⟨header, h.1.mem_iff.2 hheader, hlocation⟩
  · rintro ⟨header, hheader, hlocation⟩
    exact ⟨header, h.1.mem_iff.1 hheader, hlocation⟩

theorem lastCode_eq_filter (headers : List Header) :
    lastCode headers = lastCode (headers.filter fun header => header.lowerName = "status".toList) := by
  rw [lastCode, lastCode, List.filterMap_filter]
  congr 2
  funext header
  rw [givenCode]
  by_cases hstatus : header.lowerName = "status".toList
  · rw [if_pos hstatus, if_pos (decide_eq_true hstatus)]
  · rw [if_neg hstatus, if_neg fun h => hstatus (of_decide_eq_true h)]

theorem SameByName.lastCode_eq (h : SameByName headers headers') :
    lastCode headers' = lastCode headers := by
  rw [lastCode_eq_filter, lastCode_eq_filter headers, h.2 "status".toList]

/-- The headers with those called `Location` at the end. -/
def locationLast (headers : List Header) : List Header :=
  (headers.filter fun header => header.lowerName ≠ "location".toList) ++
    headers.filter fun header => header.lowerName = "location".toList

theorem sameByName_locationLast (headers : List Header) :
    SameByName headers (locationLast headers) := by
  constructor
  · have hperm := List.filter_append_perm (fun header : Header =>
      decide (header.lowerName ≠ "location".toList)) headers
    simp only [decide_not, Bool.not_not] at hperm
    rw [locationLast]
    simp only [ne_eq, decide_not]
    exact hperm.symm
  · intro name
    rw [locationLast, List.filter_append, List.filter_filter, List.filter_filter]
    by_cases hname : name = "location".toList
    · -- the `Location` headers are all in the second part
      have hfirst : (headers.filter fun header =>
          decide (header.lowerName = name) && decide (header.lowerName ≠ "location".toList)) = [] := by
        rw [List.filter_eq_nil_iff]
        intro header _ hboth
        rw [Bool.and_eq_true, decide_eq_true_eq, decide_eq_true_eq] at hboth
        exact hboth.2 (hboth.1.trans hname)
      rw [hfirst, List.nil_append, hname]
      apply List.filter_congr
      intro header _
      exact (Bool.and_self _).symm
    · -- the other headers are all in the first part
      have hsecond : (headers.filter fun header =>
          decide (header.lowerName = name) && decide (header.lowerName = "location".toList)) = [] := by
        rw [List.filter_eq_nil_iff]
        intro header _ hboth
        rw [Bool.and_eq_true, decide_eq_true_eq, decide_eq_true_eq] at hboth
        exact hname (hboth.1.symm.trans hboth.2)
      rw [hsecond, List.append_nil]
      apply List.filter_congr
      intro header _
      by_cases hheader : header.lowerName = name
      · rw [hheader, decide_eq_true rfl, decide_eq_true hname]
        rfl
      · rw [decide_eq_false hheader]
        rfl

/-- With the `Location` headers at the end, the status code is a redirect. -/
theorem finalCode_locationLast (h : hasLocation headers = true) :
    ∃ statusCode, finalCode 200 (locationLast headers) = redirect statusCode := by
  refine ⟨finalCode 200 (headers.filter fun header => header.lowerName ≠ "location".toList), ?_⟩
  rw [locationLast, finalCode_append, finalCode_of_forall_none, if_pos]
  · obtain ⟨header, hheader, hlocation⟩ := List.any_eq_true.1 h
    exact List.any_eq_true.2 ⟨header, List.mem_filter.2 ⟨hheader, hlocation⟩, hlocation⟩
  · intro header hheader
    have hlocation := of_decide_eq_true (List.mem_filter.1 hheader).2
    rw [givenCode, if_neg (by rw [hlocation]; decide)]

end Loop

/-- The status of a response is the expected one, in every order of the headers of different names, if and
only if the headers are not in conflict. -/
theorem orderIndependent_iff (gateway : Gateway) (headers : List Header) :
    OrderIndependent gateway headers ↔ NoConflict headers := by
  rw [OrderIndependent]
  simp only [status_response]
  constructor
  · rintro ⟨hexpected, hsame⟩
    -- a conflict: there is a `Location` header, and the last code is no redirect
    by_contra hconflict
    rw [NoConflict, not_or, Bool.not_eq_false] at hconflict
    obtain ⟨hlocation, hcodes⟩ := hconflict
    push Not at hcodes
    obtain ⟨code, hcode, hnoRedirect⟩ := hcodes
    -- with the `Location` headers at the end the status is a redirect, but the expected one is not
    obtain ⟨statusCode, hfinal⟩ := finalCode_locationLast hlocation
    have hlast := hsame _ (sameByName_locationLast headers)
    rw [hexpected, hfinal, expectedCode, hcode, Option.getD_some] at hlast
    have hredirect : 300 ≤ redirect statusCode ∧ redirect statusCode ≤ 399 := by
      rw [redirect]
      split <;> omega
    rw [validStatus, if_pos (by omega), validStatus] at hlast
    split at hlast
    · rw [Option.some.injEq] at hlast
      exact absurd hredirect.2 (by
        rw [hlast]
        exact not_le.2 (hnoRedirect (by omega)))
    · cases hlast
  · intro hconflict
    refine ⟨by rw [finalCode_of_noConflict hconflict], fun headers' hsame => ?_⟩
    have hconflict' : NoConflict headers' := by
      rw [NoConflict, hsame.hasLocation_eq, hsame.lastCode_eq]
      exact hconflict
    rw [finalCode_of_noConflict hconflict, finalCode_of_noConflict hconflict', expectedCode, expectedCode,
      hsame.hasLocation_eq, hsame.lastCode_eq]

/-! ## A created resource -/

/-- `Status: 201 Created`. -/
def statusCreated : Header :=
  ⟨"Status".toList, asciiBytes "201 Created".toList, by decide, by decide⟩

/-- `Location: /new`. -/
def locationNew : Header := ⟨"Location".toList, asciiBytes "/new".toList, by decide, by decide⟩

/-- A script that has created a resource: the status is 201 or 302, depending on the order. -/
theorem status_created_conflict :
    (response .fastcgi [locationNew, statusCreated]).map Response.status = some 201 ∧
      (response .fastcgi [statusCreated, locationNew]).map Response.status = some 302 ∧
      SameByName [locationNew, statusCreated] [statusCreated, locationNew] := by
  have hcode : givenCode statusCreated = some 201 := by
    have htext : Utf8.fromUtf8Lossy statusCreated.value = "201 Created".toList := by
      rw [Utf8.fromUtf8Lossy_ascii (List.all_iff_forall_prop.1 (by decide))]
      decide
    rw [givenCode, parseStatus, htext]
    decide
  have hlocation (statusCode : Nat) : updateStatus statusCode locationNew = redirect statusCode := by rfl
  refine ⟨?_, ?_, List.Perm.swap _ _ _, fun name => ?_⟩
  · rw [status_response]
    change validStatus (updateStatus (updateStatus 200 locationNew) statusCreated) = some 201
    rw [updateStatus_of_givenCode hcode]
    rfl
  · rw [status_response]
    change validStatus (updateStatus (updateStatus 200 statusCreated) locationNew) = some 302
    rw [updateStatus_of_givenCode hcode, hlocation]
    rfl
  · by_cases hname : statusCreated.lowerName = name
    · rw [← hname]
      rfl
    · have hskip (headers : List Header) :
          ((statusCreated :: headers).filter fun header => header.lowerName = name) =
            headers.filter fun header => header.lowerName = name :=
        List.filter_cons_of_neg fun h => hname (of_decide_eq_true h)
      rw [hskip [locationNew], List.filter_cons, hskip [], List.filter_cons]

end Ferron.Modules.CgiStatus
