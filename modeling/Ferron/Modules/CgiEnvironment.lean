import Ferron.Common.HeaderPlaceholders
import Ferron.Rust.Collections
import Ferron.Rust.LinkedHashMap
import Ferron.Rust.Path
import Ferron.Rust.Utf8

/-!
# The environment of scripts

The CGI, SCGI and FastCGI modules describe a request to a script by variables: those that the server
determines, those of the headers of the client, those that are configured, and those of the process of the
server. The three modules differ in where the name of the server comes from: the CGI module takes the host
of the configuration or the local address, the other two take the `Host` header.

A header takes the place of a variable of the same name that is configured or that the process of the
server has, such as `HTTP_PROXY`.

`passedVariables_integrity_iff` says when the headers of the client overwrite no other variable. The name of
the server is safe with the CGI module, and with the other two for requests without a `Host` header or with
one that repeats the name that the script gets without it. The other variables are safe when the headers
repeat what the script gets without them for each name that is configured or inherited.
-/

set_option autoImplicit false

namespace Ferron.Modules.CgiEnvironment

open Ferron.Common Ferron.Http

/-- The variables of a script. -/
abbrev Variables := LinkedHashMap Str Str

/-- `RequestData`, without what the scripts are not told. -/
structure RequestData where
  authUser : Option Str
  originalUrl : Option Uri

/-- What the functions that execute scripts are called with. -/
structure ScriptRequest where
  request : Parts
  requestData : Option RequestData
  socketData : SocketData
  wwwroot : PathBuf
  executePathbuf : PathBuf
  pathInfo : Option Str
  serverAdministratorEmail : Option Str
  additionalEnvironmentVariables : HashMap Str Str

/-! ## What the server determines -/

/-- `SERVER_SOFTWARE`. -/
def serverSoftware : Str := "Ferron".toList

section ServerVariables

variable (script : ScriptRequest)

/-- The authenticated user. -/
def authUser : Option Str := script.requestData.bind RequestData.authUser

/-- The scheme of the credentials: the first word of the header. -/
def authorizationType : Option Str :=
  (script.request.headers.get "authorization".toList).map fun authorization =>
    (Utf8.fromUtf8Lossy authorization).takeWhile (· ≠ ' ')

/-- The target of the request before it was rewritten. -/
def originalRequestUri : Uri := (script.requestData.bind RequestData.originalUrl).getD script.request.uri

/-- The text of the `Host` header. -/
def hostText : Option Str := (script.request.headers.get "host".toList).map Utf8.fromUtf8Lossy

/-- The variables that the server determines, in the order in which they are inserted; those without a
value are not. What the modules differ in is the variables of the name of the server and a marker of the
protocol. -/
def serverVariables (nameVariables marker : List (Str × Option Str)) : List (Str × Option Str) :=
  [("AUTH_TYPE".toList, (authUser script).bind fun _ => authorizationType script),
    ("REMOTE_USER".toList, authUser script),
    ("QUERY_STRING".toList, some (script.request.uri.query.getD [])),
    ("SERVER_SOFTWARE".toList, some serverSoftware),
    ("SERVER_PROTOCOL".toList, some (displayVersion script.request.version)),
    ("SERVER_PORT".toList, some (displayNat 10 script.socketData.localAddr.port.toNat)),
    ("SERVER_ADDR".toList, some (displayIp script.socketData.localAddr.ip.toCanonical))] ++
  nameVariables ++
  [("DOCUMENT_ROOT".toList, some script.wwwroot),
    ("PATH_INFO".toList, some ((script.pathInfo.map fun pathInfo => '/' :: pathInfo).getD [])),
    ("PATH_TRANSLATED".toList,
      some ((script.pathInfo.map fun pathInfo => script.executePathbuf.join pathInfo).getD [])),
    ("REQUEST_METHOD".toList, some script.request.method.token),
    ("GATEWAY_INTERFACE".toList, some "CGI/1.1".toList)] ++
  marker ++
  [("REQUEST_URI".toList,
      some ((originalRequestUri script).path ++ displayQuery (originalRequestUri script).query)),
    ("REMOTE_PORT".toList, some (displayNat 10 script.socketData.remoteAddr.port.toNat)),
    ("REMOTE_ADDR".toList, some (displayIp script.socketData.remoteAddr.ip.toCanonical)),
    ("SCRIPT_FILENAME".toList, some script.executePathbuf),
    ("SCRIPT_NAME".toList,
      (script.executePathbuf.stripPrefix script.wwwroot).map fun scriptPath => '/' :: scriptPath),
    ("HTTPS".toList, if script.socketData.encrypted then some "on".toList else none)]

end ServerVariables

/-- Inserts the variables that have a value. -/
def insertVariables (entries : List (Str × Option Str)) (environment : Variables) : Variables :=
  entries.foldl (fun environment entry =>
    match entry.2 with
    | some value => environment.insert entry.1 value
    | none => environment) environment

/-! ## The headers of the client -/

/-- The variable of a header. -/
def envHeaderName (headerName : HeaderName) : Str :=
  if headerName = "content-length".toList then "CONTENT_LENGTH".toList
  else if headerName = "content-type".toList then "CONTENT_TYPE".toList
  else "HTTP_".toList ++
    (headerName.map Char.toUpper).map fun c => if c.isAlphanum then c else '_'

/-- What stands between the values of headers with the same variable. -/
def separator (envHeaderName : Str) : Str :=
  if envHeaderName = "HTTP_COOKIE".toList then "; ".toList else ", ".toList

/-- Sets the variable of a header, or appends to it. -/
def addHeader (environment : Variables) (header : HeaderName × HeaderValue) : Variables :=
  let name := envHeaderName header.1
  if environment.containsKey name then
    environment.update name fun value => value ++ separator name ++ Utf8.fromUtf8Lossy header.2
  else environment.insert name (Utf8.fromUtf8Lossy header.2)

/-- Sets the variables of all headers. -/
def addHeaders (headers : HeaderMap) (environment : Variables) : Variables :=
  headers.foldl addHeader environment

/-- Sets the configured variables that have not been set. -/
def addAdditional (additional : HashMap Str Str) (environment : Variables) : Variables :=
  (additional.entries.map fun entry => (entry.1, entry.2)).foldl
    (fun environment entry => environment.insertIfVacant entry.1 entry.2) environment

/-! ## The modules -/

/-- The variable of the administrator. -/
def adminVariable (script : ScriptRequest) : Str × Option Str :=
  ("SERVER_ADMIN".toList, script.serverAdministratorEmail)

/-- The variables that the CGI module determines. -/
def cgiVariables (serverName : Option Str) (script : ScriptRequest) : List (Str × Option Str) :=
  serverVariables script
    [("SERVER_NAME".toList,
        some (serverName.getD (displayIp script.socketData.localAddr.ip.toCanonical))),
      adminVariable script] []

/-- `execute_cgi_with_environment_variables`: the variables for `execute_cgi`. -/
def executeCgiWithEnvironmentVariables (serverName : Option Str) (script : ScriptRequest) : Variables :=
  addAdditional script.additionalEnvironmentVariables
    (addHeaders script.request.headers (insertVariables (cgiVariables serverName script) .new))

/-- The variables that the FastCGI module determines. -/
def fastcgiVariables (script : ScriptRequest) : List (Str × Option Str) :=
  serverVariables script [adminVariable script, ("SERVER_NAME".toList, hostText script)] []

/-- `execute_fastcgi_with_environment_variables`: the variables for `execute_fastcgi`. -/
def executeFastcgiWithEnvironmentVariables (script : ScriptRequest) : Variables :=
  addAdditional script.additionalEnvironmentVariables
    (addHeaders script.request.headers (insertVariables (fastcgiVariables script) .new))

/-- The variables that the SCGI module determines. -/
def scgiVariables (script : ScriptRequest) : List (Str × Option Str) :=
  serverVariables script [adminVariable script, ("SERVER_NAME".toList, hostText script)]
    [("SCGI".toList, some "1".toList)]

/-- The length of the content is always set for SCGI. -/
def addContentLength (headers : HeaderMap) (environment : Variables) : Variables :=
  if headers.containsKey "content-length".toList then environment
  else environment.insert "CONTENT_LENGTH".toList "0".toList

/-- `execute_scgi_with_environment_variables`: the variables for `execute_scgi`. -/
def executeScgiWithEnvironmentVariables (script : ScriptRequest) : Variables :=
  addAdditional script.additionalEnvironmentVariables
    (addContentLength script.request.headers
      (addHeaders script.request.headers (insertVariables (scgiVariables script) .new)))

/-- The modules that execute scripts; the CGI module is told the host of the configuration. -/
inductive Gateway where
  | cgi (serverName : Option Str)
  | fastcgi
  | scgi

/-- The variables that a module determines. -/
def determined : Gateway → ScriptRequest → List (Str × Option Str)
  | .cgi serverName, script => cgiVariables serverName script
  | .fastcgi, script => fastcgiVariables script
  | .scgi, script => scgiVariables script

/-- The variables that a module makes for a request. -/
def environmentVariables : Gateway → ScriptRequest → Variables
  | .cgi serverName, script => executeCgiWithEnvironmentVariables serverName script
  | .fastcgi, script => executeFastcgiWithEnvironmentVariables script
  | .scgi, script => executeScgiWithEnvironmentVariables script

/-- The variables of the process of the server, as a script gets them. A child process inherits them; they
are sent to the servers of the other two protocols. -/
def inherited (vars : List (Str × Str)) : Gateway → Variables
  | .cgi _ => vars.foldl (fun environment entry => environment.insert entry.1 entry.2) .new
  | .fastcgi | .scgi =>
      vars.foldl (fun environment entry => environment.insertIfVacant entry.1 entry.2) .new

/-- The variables that a script gets: those of the process of the server, unless they are set. -/
def passedVariables (vars : List (Str × Str)) (gateway : Gateway) (script : ScriptRequest) : Variables :=
  match gateway with
  | .cgi _ =>
      (environmentVariables gateway script).entries.foldl
        (fun environment entry => environment.insert entry.1 entry.2) (inherited vars gateway)
  | .fastcgi | .scgi =>
      vars.foldl (fun environment entry => environment.insertIfVacant entry.1 entry.2)
        (environmentVariables gateway script)

/-! ## What a variable is -/

/-- A name that a header of the client may give to a variable. -/
def IsHeaderVariable (name : Str) : Prop :=
  "HTTP_".toList <+: name ∨ name = "CONTENT_LENGTH".toList ∨ name = "CONTENT_TYPE".toList

instance (name : Str) : Decidable (IsHeaderVariable name) := inferInstanceAs (Decidable (_ ∨ _))

theorem isHeaderVariable_envHeaderName (headerName : HeaderName) :
    IsHeaderVariable (envHeaderName headerName) := by
  unfold envHeaderName
  split
  · exact Or.inr (Or.inl rfl)
  · split
    · exact Or.inr (Or.inr rfl)
    · exact Or.inl (List.prefix_append _ _)

/-- The variables that have a value are set, the others are left as they are. -/
theorem get_insertVariables {entries : List (Str × Option Str)} (hnodup : (entries.map Prod.fst).Nodup)
    (environment : Variables) (name : Str) :
    (insertVariables entries environment).get name =
      ((LinkedHashMap.find entries name).join).or (environment.get name) := by
  induction entries generalizing environment with
  | nil => rfl
  | cons entry entries ih =>
      obtain ⟨key, value⟩ := entry
      rw [List.map_cons, List.nodup_cons] at hnodup
      rw [insertVariables, List.foldl_cons, ← insertVariables, ih hnodup.2, LinkedHashMap.find_cons]
      by_cases hkey : key = name
      · have hnone : LinkedHashMap.find entries name = none :=
          LinkedHashMap.find_eq_none_iff.2 (hkey ▸ hnodup.1)
        rw [if_pos hkey, hnone]
        cases value with
        | none => rfl
        | some value => simp [LinkedHashMap.get_insert, hkey]
      · rw [if_neg hkey]
        cases value with
        | none => rfl
        | some value => simp [LinkedHashMap.get_insert, Ne.symm hkey]

/-- The value of a variable behind a header. -/
def appendValue (name : Str) (before : Option Str) (header : HeaderName × HeaderValue) : Option Str :=
  some (match before with
    | some value => value ++ separator name ++ Utf8.fromUtf8Lossy header.2
    | none => Utf8.fromUtf8Lossy header.2)

theorem get_addHeader (environment : Variables) (header : HeaderName × HeaderValue) (name : Str) :
    (addHeader environment header).get name =
      if envHeaderName header.1 = name then appendValue name (environment.get name) header
      else environment.get name := by
  unfold addHeader
  dsimp only
  split
  · rename_i hcontains
    obtain ⟨value, hvalue⟩ := Option.isSome_iff_exists.1 hcontains
    rw [LinkedHashMap.get_update]
    by_cases hname : envHeaderName header.1 = name
    · rw [if_pos hname.symm, if_pos hname, ← hname, hvalue]
      rfl
    · rw [if_neg (Ne.symm hname), if_neg hname]
  · rename_i hcontains
    have hvalue : environment.get (envHeaderName header.1) = none := by
      rwa [LinkedHashMap.containsKey, Bool.not_eq_true, Option.isSome_eq_false_iff,
        Option.isNone_iff_eq_none] at hcontains
    rw [LinkedHashMap.get_insert]
    by_cases hname : envHeaderName header.1 = name
    · rw [if_pos hname.symm, if_pos hname, ← hname, hvalue]
      rfl
    · rw [if_neg (Ne.symm hname), if_neg hname]

/-- A variable has the values of the headers that are named so, one after the other. -/
theorem get_addHeaders (headers : HeaderMap) (environment : Variables) (name : Str) :
    (addHeaders headers environment).get name =
      (headers.filter fun header => envHeaderName header.1 = name).foldl (appendValue name)
        (environment.get name) := by
  induction headers generalizing environment with
  | nil => rfl
  | cons header headers ih =>
      rw [addHeaders, List.foldl_cons, ← addHeaders, ih, get_addHeader, List.filter_cons]
      by_cases hname : envHeaderName header.1 = name
      · rw [if_pos hname, if_pos (by simp [hname]), List.foldl_cons]
      · rw [if_neg hname, if_neg (by simp [hname])]

/-- The text of the headers that are named so. -/
def headerText (headers : HeaderMap) (name : Str) : Option Str :=
  (headers.filter fun header => envHeaderName header.1 = name).foldl (appendValue name) none

theorem headerText_isSome_iff (headers : HeaderMap) (name : Str) :
    (headerText headers name).isSome = true ↔ ∃ header ∈ headers, envHeaderName header.1 = name := by
  have hsome : ∀ (rest : HeaderMap) (value : Str),
      (rest.foldl (appendValue name) (some value)).isSome = true := by
    intro rest
    induction rest with
    | nil => exact fun _ => rfl
    | cons header rest ih => exact fun _ => ih _
  unfold headerText
  cases hfilter : headers.filter fun header => envHeaderName header.1 = name with
  | nil =>
      rw [List.filter_eq_nil_iff] at hfilter
      refine iff_of_false Bool.false_ne_true ?_
      rintro ⟨header, hheader, hname⟩
      exact hfilter header hheader (decide_eq_true hname)
  | cons header rest =>
      have hmem : header ∈ headers.filter fun header => decide (envHeaderName header.1 = name) :=
        hfilter ▸ List.mem_cons_self
      obtain ⟨hheader, hname⟩ := List.mem_filter.1 hmem
      exact iff_of_true (hsome rest _) ⟨header, hheader, of_decide_eq_true hname⟩

/-- Headers do not set a variable that is not named after headers. -/
theorem get_addHeaders_of_not_header (headers : HeaderMap) (environment : Variables) {name : Str}
    (hname : ¬ IsHeaderVariable name) :
    (addHeaders headers environment).get name = environment.get name := by
  have hnone : (headers.filter fun header => decide (envHeaderName header.1 = name)) = [] := by
    rw [List.filter_eq_nil_iff]
    intro header _ hsame
    exact hname (of_decide_eq_true hsame ▸ isHeaderVariable_envHeaderName header.1)
  rw [get_addHeaders, hnone]
  rfl

theorem find_entries (map : HashMap Str Str) (name : Str) :
    LinkedHashMap.find (map.entries.map fun entry => (entry.1, entry.2)) name = map.lookup name := by
  rw [AList.lookup]
  induction map.entries with
  | nil => rfl
  | cons entry entries ih =>
      rw [List.map_cons, LinkedHashMap.find_cons, ih]
      by_cases hkey : entry.1 = name
      · obtain ⟨key, value⟩ := entry
        obtain rfl : key = name := hkey
        simp
      · rw [if_neg hkey, List.dlookup_cons_ne _ _ (Ne.symm hkey)]

/-- A configured variable is passed when it has not been set. -/
theorem get_addAdditional (additional : HashMap Str Str) (environment : Variables) (name : Str) :
    (addAdditional additional environment).get name =
      (environment.get name).or (additional.lookup name) := by
  rw [addAdditional, LinkedHashMap.get_foldl_insertIfVacant, find_entries]

theorem get_addContentLength (headers : HeaderMap) (environment : Variables) {name : Str}
    (hname : ¬ IsHeaderVariable name) :
    (addContentLength headers environment).get name = environment.get name := by
  unfold addContentLength
  split
  · rfl
  · rw [LinkedHashMap.get_insert, if_neg]
    rintro rfl
    exact hname (Or.inr (Or.inl rfl))

theorem envHeaderName_eq_contentLength_iff (headerName : HeaderName) :
    envHeaderName headerName = "CONTENT_LENGTH".toList ↔ headerName = "content-length".toList := by
  unfold envHeaderName
  split
  · rename_i hlength
    exact iff_of_true rfl hlength
  · rename_i hlength
    refine iff_of_false (fun h => ?_) hlength
    split at h
    · exact absurd h (by decide)
    · rw [show "HTTP_".toList = 'H' :: "TTP_".toList from rfl, List.cons_append] at h
      exact absurd (List.head_eq_of_cons_eq h) (by decide)

/-- The length is set to zero when no header has told it. -/
theorem get_addContentLength_addHeaders (headers : HeaderMap) {environment : Variables} {name : Str}
    (hnone : environment.get name = none) :
    (addContentLength headers (addHeaders headers environment)).get name =
      (headerText headers name).or (if name = "CONTENT_LENGTH".toList then some "0".toList else none) := by
  have hheaders : (addHeaders headers environment).get name = headerText headers name := by
    rw [get_addHeaders, hnone]
    rfl
  unfold addContentLength
  by_cases hname : name = "CONTENT_LENGTH".toList
  · subst hname
    have htold : headers.containsKey "content-length".toList =
        (headerText headers "CONTENT_LENGTH".toList).isSome := by
      rw [Bool.eq_iff_iff, headerText_isSome_iff, HeaderMap.containsKey, List.any_eq_true]
      simp only [decide_eq_true_eq, envHeaderName_eq_contentLength_iff]
    rw [htold, if_pos rfl]
    cases htext : headerText headers "CONTENT_LENGTH".toList with
    | none =>
        rw [Option.isSome_none, if_neg Bool.false_ne_true, LinkedHashMap.get_insert, if_pos rfl]
        rfl
    | some text =>
        rw [Option.isSome_some, if_pos rfl, hheaders, htext]
        rfl
  · rw [if_neg hname, Option.or_none]
    split
    · exact hheaders
    · rw [LinkedHashMap.get_insert, if_neg hname, hheaders]

/-- A variable of the process of the server is passed when it has not been set. -/
theorem get_passedVariables (vars : List (Str × Str)) (gateway : Gateway) (script : ScriptRequest)
    (name : Str) :
    (passedVariables vars gateway script).get name =
      ((environmentVariables gateway script).get name).or ((inherited vars gateway).get name) := by
  cases gateway with
  | cgi serverName => exact LinkedHashMap.get_foldl_insert _ _ _
  | fastcgi =>
      rw [passedVariables, LinkedHashMap.get_foldl_insertIfVacant, inherited,
        LinkedHashMap.get_foldl_insertIfVacant]
      rfl
  | scgi =>
      rw [passedVariables, LinkedHashMap.get_foldl_insertIfVacant, inherited,
        LinkedHashMap.get_foldl_insertIfVacant]
      rfl

/-! ## The variables of the server -/

/-- The names of the variables of the server. -/
def serverNames (nameVariables marker : List Str) : List Str :=
  ["AUTH_TYPE", "REMOTE_USER", "QUERY_STRING", "SERVER_SOFTWARE", "SERVER_PROTOCOL", "SERVER_PORT",
      "SERVER_ADDR"].map String.toList ++
    nameVariables ++
    ["DOCUMENT_ROOT", "PATH_INFO", "PATH_TRANSLATED", "REQUEST_METHOD", "GATEWAY_INTERFACE"].map
      String.toList ++
    marker ++
    ["REQUEST_URI", "REMOTE_PORT", "REMOTE_ADDR", "SCRIPT_FILENAME", "SCRIPT_NAME", "HTTPS"].map
      String.toList

theorem names_serverVariables (script : ScriptRequest) (nameVariables marker : List (Str × Option Str)) :
    (serverVariables script nameVariables marker).map Prod.fst =
      serverNames (nameVariables.map Prod.fst) (marker.map Prod.fst) := by
  simp only [serverVariables, serverNames, List.map_append, List.map_cons, List.map_nil]

/-- The names of the variables that a module determines. -/
def determinedNames : Gateway → List Str
  | .cgi _ => serverNames ["SERVER_NAME".toList, "SERVER_ADMIN".toList] []
  | .fastcgi => serverNames ["SERVER_ADMIN".toList, "SERVER_NAME".toList] []
  | .scgi => serverNames ["SERVER_ADMIN".toList, "SERVER_NAME".toList] ["SCGI".toList]

theorem names_determined (gateway : Gateway) (script : ScriptRequest) :
    (determined gateway script).map Prod.fst = determinedNames gateway := by
  cases gateway <;> exact names_serverVariables script _ _

/-- The variables of the server have different names. -/
theorem nodup_determinedNames (gateway : Gateway) : (determinedNames gateway).Nodup := by
  cases gateway <;> (rw [determinedNames]; decide)

/-- No variable of the server is named after a header. -/
theorem not_isHeaderVariable_of_mem {gateway : Gateway} {name : Str} (h : name ∈ determinedNames gateway) :
    ¬ IsHeaderVariable name := by
  have hall : ∀ name ∈ determinedNames gateway, ¬ IsHeaderVariable name := by
    cases gateway <;> (rw [determinedNames]; decide)
  exact hall name h

/-- A variable that is not named after a header is what the server determines, or else what is
configured. -/
theorem get_environmentVariables (gateway : Gateway) (script : ScriptRequest) {name : Str}
    (hname : ¬ IsHeaderVariable name) :
    (environmentVariables gateway script).get name =
      ((LinkedHashMap.find (determined gateway script) name).join).or
        (script.additionalEnvironmentVariables.lookup name) := by
  have hinsert : (insertVariables (determined gateway script) .new).get name =
      (LinkedHashMap.find (determined gateway script) name).join := by
    rw [get_insertVariables (names_determined gateway script ▸ nodup_determinedNames gateway),
      LinkedHashMap.get_new, Option.or_none]
  rw [← hinsert]
  cases gateway with
  | cgi serverName =>
      rw [environmentVariables, executeCgiWithEnvironmentVariables, get_addAdditional,
        get_addHeaders_of_not_header _ _ hname]
      rfl
  | fastcgi =>
      rw [environmentVariables, executeFastcgiWithEnvironmentVariables, get_addAdditional,
        get_addHeaders_of_not_header _ _ hname]
      rfl
  | scgi =>
      rw [environmentVariables, executeScgiWithEnvironmentVariables, get_addAdditional,
        get_addContentLength _ _ hname, get_addHeaders_of_not_header _ _ hname]
      rfl

/-! ## Requests without headers -/

/-- The request without the headers of the client; the credentials stay. -/
def withoutHeaders (script : ScriptRequest) : ScriptRequest :=
  { script with
    request := { script.request with
      headers := script.request.headers.filter fun header => header.1 = "authorization".toList } }

theorem authorizationType_withoutHeaders (script : ScriptRequest) :
    authorizationType (withoutHeaders script) = authorizationType script := by
  rw [authorizationType, authorizationType, HeaderMap.get, HeaderMap.get, withoutHeaders,
    List.find?_filter]
  congr 4
  funext header
  rw [decide_eq_decide, decide_eq_true_iff, and_self_iff]

theorem hostText_withoutHeaders (script : ScriptRequest) : hostText (withoutHeaders script) = none := by
  rw [hostText, Option.map_eq_none_iff, HeaderMap.get, Option.map_eq_none_iff, List.find?_eq_none]
  intro header hheader hhost
  have hname := of_decide_eq_true (List.mem_filter.1 hheader).2
  rw [of_decide_eq_true hhost] at hname
  exact absurd hname (by decide)

/-- What the modules have in common does not depend on the headers of the client. -/
theorem serverVariables_withoutHeaders (script : ScriptRequest)
    (nameVariables marker : List (Str × Option Str)) :
    serverVariables (withoutHeaders script) nameVariables marker =
      serverVariables script nameVariables marker := by
  rw [serverVariables, authorizationType_withoutHeaders]
  rfl

/-- What is looked up in the variables of the server depends on those of the name of the server by what is
looked up there. -/
theorem find_serverVariables_congr (script : ScriptRequest) {first second : List (Str × Option Str)}
    (marker : List (Str × Option Str)) {name : Str}
    (h : LinkedHashMap.find first name = LinkedHashMap.find second name) :
    LinkedHashMap.find (serverVariables script first marker) name =
      LinkedHashMap.find (serverVariables script second marker) name := by
  simp only [serverVariables, LinkedHashMap.find_append, h]

/-- The variables of the server, other than its name, do not depend on the headers of the client, and for
the CGI module the name does not either. -/
theorem find_determined_withoutHeaders (gateway : Gateway) (script : ScriptRequest) {name : Str}
    (h : (∃ serverName, gateway = .cgi serverName) ∨ name ≠ "SERVER_NAME".toList) :
    LinkedHashMap.find (determined gateway (withoutHeaders script)) name =
      LinkedHashMap.find (determined gateway script) name := by
  cases gateway with
  | cgi serverName =>
      rw [determined, determined, cgiVariables, serverVariables_withoutHeaders]
      rfl
  | fastcgi =>
      have hname := h.resolve_left (by simp)
      rw [determined, determined, fastcgiVariables, fastcgiVariables, serverVariables_withoutHeaders]
      exact find_serverVariables_congr script _
        ((LinkedHashMap.find_pair (Ne.symm hname)).trans (LinkedHashMap.find_pair (Ne.symm hname)).symm)
  | scgi =>
      have hname := h.resolve_left (by simp)
      rw [determined, determined, scgiVariables, scgiVariables, serverVariables_withoutHeaders]
      exact find_serverVariables_congr script _
        ((LinkedHashMap.find_pair (Ne.symm hname)).trans (LinkedHashMap.find_pair (Ne.symm hname)).symm)

/-- The name of the server is the text of the `Host` header for the modules that are not told one. -/
theorem find_serverName (gateway : Gateway) (script : ScriptRequest)
    (h : ¬ ∃ serverName, gateway = .cgi serverName) :
    (LinkedHashMap.find (determined gateway script) "SERVER_NAME".toList).join = hostText script := by
  have hfind : ∀ marker, LinkedHashMap.find (serverVariables script
      [adminVariable script, ("SERVER_NAME".toList, hostText script)] marker) "SERVER_NAME".toList =
        some (hostText script) := by
    intro marker
    rfl
  cases gateway with
  | cgi serverName => exact absurd ⟨serverName, rfl⟩ h
  | fastcgi =>
      rw [determined, fastcgiVariables, hfind]
      rfl
  | scgi =>
      rw [determined, scgiVariables, hfind]
      rfl

/-! ## Integrity -/

/-- The request without any header of the client. -/
def bare (script : ScriptRequest) : ScriptRequest :=
  { script with request := { script.request with headers := [] } }

/-- The value of a variable that is configured, or that the process of the server has. -/
def configuredValue (vars : List (Str × Str)) (gateway : Gateway) (script : ScriptRequest) (name : Str) :
    Option Str :=
  (script.additionalEnvironmentVariables.lookup name).or ((inherited vars gateway).get name)

/-- The variables of a script are those that the server means: each is there once, those that the server
determines have its values, those that are not named after headers do not depend on the headers of the
client, and those that are configured or inherited are overwritten by no header. -/
structure Integrity (vars : List (Str × Str)) (gateway : Gateway) (script : ScriptRequest) : Prop where
  once : (passedVariables vars gateway script).keys.Nodup
  computed : ∀ name value, (name, some value) ∈ determined gateway (withoutHeaders script) →
    (passedVariables vars gateway script).get name = some value
  untouched : ∀ name, ¬ IsHeaderVariable name →
    (passedVariables vars gateway script).get name =
      (passedVariables vars gateway (withoutHeaders script)).get name
  kept : ∀ name, IsHeaderVariable name → (configuredValue vars gateway script name).isSome = true →
    (passedVariables vars gateway script).get name = (passedVariables vars gateway (bare script)).get name

/-- The name of the server that is configured, or that the process of the server has. -/
def configuredServerName (vars : List (Str × Str)) (gateway : Gateway) (script : ScriptRequest) :
    Option Str :=
  configuredValue vars gateway script "SERVER_NAME".toList

/-- The length of the content that a script is told without a header. -/
def defaultLength : Gateway → Str → Option Str
  | .scgi, name => if name = "CONTENT_LENGTH".toList then some "0".toList else none
  | _, _ => none

/-- The headers repeat what a script gets without them for the names that are configured or inherited. -/
def HeadersRepeat (vars : List (Str × Str)) (gateway : Gateway) (script : ScriptRequest) : Prop :=
  ∀ name, IsHeaderVariable name → (configuredValue vars gateway script name).isSome = true →
    ∀ text, headerText script.request.headers name = some text →
      (defaultLength gateway name).or (configuredValue vars gateway script name) = some text

/-- What a script gets for a name that is no header's. -/
theorem get_passedVariables_of_not_header (vars : List (Str × Str)) (gateway : Gateway)
    (script : ScriptRequest) {name : Str} (hname : ¬ IsHeaderVariable name) :
    (passedVariables vars gateway script).get name =
      ((LinkedHashMap.find (determined gateway script) name).join).or
        (configuredValue vars gateway script name) := by
  rw [get_passedVariables, get_environmentVariables gateway script hname, Option.or_assoc, configuredValue]

/-- What a script gets for a name that headers may have. -/
theorem get_passedVariables_of_header (vars : List (Str × Str)) (gateway : Gateway)
    (script : ScriptRequest) {name : Str} (hname : IsHeaderVariable name) :
    (passedVariables vars gateway script).get name =
      (headerText script.request.headers name).or
        ((defaultLength gateway name).or (configuredValue vars gateway script name)) := by
  have hnone : (insertVariables (determined gateway script) .new).get name = none := by
    have hfind : LinkedHashMap.find (determined gateway script) name = none := by
      rw [LinkedHashMap.find_eq_none_iff, names_determined]
      exact fun hmem => not_isHeaderVariable_of_mem hmem hname
    rw [get_insertVariables (names_determined gateway script ▸ nodup_determinedNames gateway), hfind]
    rfl
  have henvironment : (environmentVariables gateway script).get name =
      ((headerText script.request.headers name).or (defaultLength gateway name)).or
        (script.additionalEnvironmentVariables.lookup name) := by
    cases gateway with
    | cgi serverName =>
        change (insertVariables (cgiVariables serverName script) .new).get name = none at hnone
        rw [environmentVariables, executeCgiWithEnvironmentVariables, get_addAdditional, get_addHeaders,
          hnone, defaultLength, Option.or_none, headerText]
        exact fun h => nomatch h
    | fastcgi =>
        change (insertVariables (fastcgiVariables script) .new).get name = none at hnone
        rw [environmentVariables, executeFastcgiWithEnvironmentVariables, get_addAdditional, get_addHeaders,
          hnone, defaultLength, Option.or_none, headerText]
        exact fun h => nomatch h
    | scgi =>
        change (insertVariables (scgiVariables script) .new).get name = none at hnone
        rw [environmentVariables, executeScgiWithEnvironmentVariables, get_addAdditional,
          get_addContentLength_addHeaders _ hnone]
        rfl
  rw [get_passedVariables, henvironment, configuredValue, Option.or_assoc, Option.or_assoc]

/-- The variables that headers may name are kept when the headers repeat them. -/
theorem kept_iff (vars : List (Str × Str)) (gateway : Gateway) (script : ScriptRequest) {name : Str}
    (hname : IsHeaderVariable name) :
    (passedVariables vars gateway script).get name = (passedVariables vars gateway (bare script)).get name ↔
      ∀ text, headerText script.request.headers name = some text →
        (defaultLength gateway name).or (configuredValue vars gateway script name) = some text := by
  have hbare : (passedVariables vars gateway (bare script)).get name =
      (defaultLength gateway name).or (configuredValue vars gateway script name) := by
    rw [get_passedVariables_of_header vars gateway (bare script) hname]
    rfl
  rw [get_passedVariables_of_header vars gateway script hname, hbare]
  cases headerText script.request.headers name with
  | none => simp
  | some text => simp [eq_comm]

/-- What a script gets as the name of the server from a module that is not told one. -/
theorem get_serverName (vars : List (Str × Str)) {gateway : Gateway} (script : ScriptRequest)
    (hgateway : ¬ ∃ serverName, gateway = .cgi serverName) :
    (passedVariables vars gateway script).get "SERVER_NAME".toList =
      (hostText script).or (configuredServerName vars gateway script) := by
  rw [get_passedVariables_of_not_header vars gateway script (by decide), find_serverName gateway script hgateway]
  rfl

/-- The variables that are not named after headers do not depend on them, if and only if the module is told
the name of the server, or the request has no `Host` header, or this header repeats the name that is
configured. -/
theorem untouched_iff (vars : List (Str × Str)) (gateway : Gateway) (script : ScriptRequest) :
    (∀ name, ¬ IsHeaderVariable name → (passedVariables vars gateway script).get name =
        (passedVariables vars gateway (withoutHeaders script)).get name) ↔
      (∃ serverName, gateway = .cgi serverName) ∨
        ∀ host, hostText script = some host → configuredServerName vars gateway script = some host := by
  constructor
  · intro huntouched
    by_cases hgateway : ∃ serverName, gateway = .cgi serverName
    · exact Or.inl hgateway
    · refine Or.inr fun host hhost => ?_
      have hsame := huntouched "SERVER_NAME".toList (by decide)
      rw [get_serverName vars script hgateway, get_serverName vars (withoutHeaders script) hgateway,
        hostText_withoutHeaders, hhost, Option.some_or, Option.none_or] at hsame
      exact hsame.symm
  · intro hcondition name hname
    by_cases hother : (∃ serverName, gateway = .cgi serverName) ∨ name ≠ "SERVER_NAME".toList
    · -- what is not the name of the server is found where it is found without the headers
      rw [get_passedVariables_of_not_header vars gateway script hname,
        get_passedVariables_of_not_header vars gateway (withoutHeaders script) hname,
        find_determined_withoutHeaders gateway script hother]
      rfl
    · rw [not_or, not_not] at hother
      have hhost := hcondition.resolve_left hother.1
      rw [hother.2, get_serverName vars script hother.1, get_serverName vars (withoutHeaders script) hother.1,
        hostText_withoutHeaders, Option.none_or]
      cases htext : hostText script with
      | none => rfl
      | some host => exact (hhost host htext).symm

/-- The variables of a script are those that the server means, if and only if the module is told the name
of the server, or the request has no `Host` header, or this header repeats the name that is configured, and
the headers repeat the other variables that are configured or inherited, if they name them. -/
theorem passedVariables_integrity_iff (vars : List (Str × Str)) (gateway : Gateway)
    (script : ScriptRequest) :
    Integrity vars gateway script ↔
      ((∃ serverName, gateway = .cgi serverName) ∨
        ∀ host, hostText script = some host → configuredServerName vars gateway script = some host) ∧
      HeadersRepeat vars gateway script := by
  rw [← untouched_iff]
  constructor
  · intro hintegrity
    refine ⟨hintegrity.untouched, fun name hname hconfigured => ?_⟩
    exact (kept_iff vars gateway script hname).1 (hintegrity.kept name hname hconfigured)
  · rintro ⟨huntouched, hrepeat⟩
    refine ⟨(passedVariables vars gateway script).nodup, ?_, huntouched, fun name hname hconfigured =>
      (kept_iff vars gateway script hname).2 (hrepeat name hname hconfigured)⟩
    intro name value hmem
    have hnames := names_determined gateway (withoutHeaders script)
    have hname : ¬ IsHeaderVariable name :=
      not_isHeaderVariable_of_mem (hnames ▸ List.mem_map_of_mem hmem)
    rw [huntouched name hname, get_passedVariables_of_not_header vars gateway _ hname,
      LinkedHashMap.find_eq_some_of_mem (hnames ▸ nodup_determinedNames gateway) hmem]
    rfl

/-- A request to `/` with one header, for a script with one configured variable. -/
def withHeader (headerName value : String) (configured : Str × Str) : ScriptRequest where
  request :=
    { method := .get
      uri := ⟨"/".toList, none, by decide⟩
      headers := [(headerName.toList, value.toList.map fun c => c.toNat.toUInt8)]
      version := .http11
      scheme := none
      authority := none }
  requestData := none
  socketData := ⟨⟨.v4 0, 0⟩, ⟨.v4 0, 0⟩, false⟩
  wwwroot := "/".toList
  executePathbuf := "/a.php".toList
  pathInfo := none
  serverAdministratorEmail := none
  additionalEnvironmentVariables := AList.singleton configured.1 configured.2

/-- A request with the header `Host: evil`, for a script with the configured variable `SERVER_NAME`. -/
def evilHost : ScriptRequest := withHeader "host" "evil" ("SERVER_NAME".toList, "example.com".toList)

/-- A request with the header `Proxy: evil`, for a script with the configured variable `HTTP_PROXY`. -/
def evilProxy : ScriptRequest := withHeader "proxy" "evil" ("HTTP_PROXY".toList, "proxy.test".toList)

/-- The FastCGI module passes the `Host` header as the name of the server, and not the configured name. The
CGI module passes the `Proxy` header, and not the configured `HTTP_PROXY`. -/
theorem serverName_evilHost :
    (passedVariables [] .fastcgi evilHost).get "SERVER_NAME".toList = some "evil".toList ∧
      ¬ Integrity [] .fastcgi evilHost ∧
      (passedVariables [] (.cgi none) evilProxy).get "HTTP_PROXY".toList = some "evil".toList ∧
      ¬ Integrity [] (.cgi none) evilProxy := by
  have hhost : hostText evilHost = some "evil".toList := by decide +kernel
  have hproxy : headerText evilProxy.request.headers "HTTP_PROXY".toList = some "evil".toList := by
    decide +kernel
  have hconfigured : configuredValue [] (.cgi none) evilProxy "HTTP_PROXY".toList =
      some "proxy.test".toList := rfl
  refine ⟨?_, fun hintegrity => ?_, ?_, fun hintegrity => ?_⟩
  · rw [get_serverName [] evilHost (by simp), hhost]
    rfl
  · have hname := ((untouched_iff ..).1 hintegrity.untouched).resolve_left (by simp) _ hhost
    exact absurd hname (by decide)
  · rw [get_passedVariables_of_header [] (.cgi none) evilProxy (by decide), hproxy]
    rfl
  · have hsame := (kept_iff [] (.cgi none) evilProxy (by decide)).1
      (hintegrity.kept "HTTP_PROXY".toList (by decide) (by rw [hconfigured]; rfl)) _ hproxy
    rw [hconfigured] at hsame
    exact absurd hsame (by decide)

end Ferron.Modules.CgiEnvironment
