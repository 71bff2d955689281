import Ferron.Lib.Netstring
import Ferron.Modules.CgiEnvironment
import Ferron.Modules.FcgiParams

/-!
# Requests to SCGI servers

A request is a netstring with the variables of the script, followed by the body of the request. In the
netstring each variable is its name and its value, with a NUL byte behind each. The length of the content
comes first, wherever it stands among the variables.

`executeScgi_framed` says that an SCGI server reads the variables that were written, when none of them has a
NUL byte and none has an empty name: in the grammar of the protocol a name has at least one byte.
-/

set_option autoImplicit false

namespace Ferron.Modules.ScgiRequest

open Ferron.Lib.Framing
open Ferron.Lib.Netstring (colon comma decimal encode readTerminated readTerminated_append
  readTerminated_shorter)
open CgiEnvironment
open Fcgi (asBytes)

/-! ## Writing a request -/

/-- The key of the length of the content. -/
def contentLength : Str := "CONTENT_LENGTH".toList

/-- `environment_variable`. -/
def environmentVariable (entry : Str × Str) : Bytes := asBytes entry.1 ++ 0 :: (asBytes entry.2 ++ [0])

/-- A pass of the loop over the variables. The length of the content goes in front. -/
def wrapVariable (toWrap : Bytes) (entry : Str × Str) : Bytes :=
  -- `environment_variable.append(&mut environment_variables_to_wrap)`
  if entry.1 = contentLength then environmentVariable entry ++ toWrap
  else toWrap ++ environmentVariable entry

/-- `environment_variables_to_wrap`. -/
def environmentVariablesToWrap (environment : Variables) : Bytes :=
  environment.entries.foldl wrapVariable []

/-- `environment_variables_netstring`. -/
def environmentVariablesNetstring (environment : Variables) : Bytes :=
  encode (environmentVariablesToWrap environment)

/-- `execute_scgi`: what is sent to the server, with the variables of the process of the web server. -/
def executeScgi (vars : List (Str × Str)) (script : ScriptRequest) (body : Bytes) : Bytes :=
  environmentVariablesNetstring (passedVariables vars .scgi script) ++ body

/-! ## Reading as the specification says -/

/-- Reads a header: a name that is not empty and a value, each up to a NUL byte. -/
def readHeader (input : Bytes) : Option ((Bytes × Bytes) × Bytes) :=
  (readTerminated 0 input).bind fun (name, input) =>
    if name = [] then none
    else (readTerminated 0 input).map fun (value, rest) => ((name, value), rest)

theorem readHeader_shorter {input rest : Bytes} {header : Bytes × Bytes}
    (h : readHeader input = some (header, rest)) : rest.length < input.length := by
  obtain ⟨⟨name, behind⟩, hname, hvalue⟩ := Option.bind_eq_some_iff.1 h
  have hfirst := readTerminated_shorter hname
  dsimp only at hvalue
  split at hvalue
  · cases hvalue
  · obtain ⟨⟨value, rest'⟩, hsecond, hpair⟩ := Option.map_eq_some_iff.1 hvalue
    obtain ⟨-, rfl⟩ := Prod.mk.inj hpair
    exact (readTerminated_shorter hsecond).trans hfirst

/-- The reader of headers. -/
def headerReader : ItemReader UInt8 (Bytes × Bytes) := ⟨readHeader, readHeader_shorter⟩

/-- Reads a request: the headers in the netstring, and the body behind it. -/
def parseRequest (input : Bytes) : Option (List (Bytes × Bytes) × Bytes) :=
  (Lib.Netstring.read input).bind fun (payload, body) =>
    (headerReader.readAll payload).map fun headers => (headers, body)

/-- The bytes of a variable. -/
def entryBytes (entry : Str × Str) : Bytes × Bytes := (asBytes entry.1, asBytes entry.2)

/-- A request in the form of the protocol: a netstring with headers, each variable of the environment once
and in some order, the length of the content first, and `SCGI` with the value 1 among them. A server reads
the headers and the body back. -/
structure Framed (environment : Variables) (body written : Bytes) (headers : List (Str × Str)) : Prop where
  netstring : written =
    decimal (headers.flatMap environmentVariable).length ++
      colon :: (headers.flatMap environmentVariable ++ [comma]) ++ body
  contentLengthFirst : headers.head?.map Prod.fst = some contentLength
  scgi : ("SCGI".toList, "1".toList) ∈ headers
  complete : headers.Perm environment.entries
  once : (headers.map Prod.fst).Nodup
  parsed : parseRequest written = some (headers.map entryBytes, body)

/-! ## The variables -/

section Environment

variable {vars : List (Str × Str)} {script : ScriptRequest} {environment : Variables}

theorem mem_entries_of_get {name value : Str} (h : environment.get name = some value) :
    (name, value) ∈ environment.entries := by
  obtain ⟨⟨other, value⟩, hentry, rfl⟩ := Option.map_eq_some_iff.1 h
  have hname : decide (other = name) = true :=
    List.find?_some (p := fun entry : Str × Str => decide (entry.1 = name)) hentry
  rw [← of_decide_eq_true hname]
  exact List.mem_of_find?_eq_some hentry

/-- The marker of the protocol is a variable that the server determines. -/
theorem scgi_mem (vars : List (Str × Str)) (script : ScriptRequest) :
    ("SCGI".toList, "1".toList) ∈ (passedVariables vars .scgi script).entries := by
  apply mem_entries_of_get
  rw [get_passedVariables_of_not_header vars .scgi script (by decide)]
  -- no header of the client has this name, so the server's value stays
  have hmem : ("SCGI".toList, some "1".toList) ∈ determined .scgi script := by
    rw [determined, scgiVariables, serverVariables, List.mem_append, List.mem_append]
    exact .inl (.inr List.mem_cons_self)
  have hnodup : ((determined .scgi script).map Prod.fst).Nodup := by
    rw [names_determined]
    exact nodup_determinedNames .scgi
  rw [LinkedHashMap.find_eq_some_of_mem hnodup hmem]
  rfl

/-- The length of the content is there, from a header or as zero. -/
theorem exists_contentLength (vars : List (Str × Str)) (script : ScriptRequest) :
    ∃ value, (passedVariables vars .scgi script).get contentLength = some value := by
  have hdefault : defaultLength .scgi contentLength = some "0".toList := rfl
  rw [get_passedVariables_of_header vars .scgi script (by decide), hdefault, Option.some_or,
    ← Option.isSome_iff_exists, Option.isSome_or, Option.isSome_some, Bool.or_true]

/-! ## The netstring -/

theorem foldl_wrapVariable {entries : List (Str × Str)} (h : ∀ entry ∈ entries, entry.1 ≠ contentLength)
    (toWrap : Bytes) :
    entries.foldl wrapVariable toWrap = toWrap ++ entries.flatMap environmentVariable := by
  induction entries generalizing toWrap with
  | nil => exact (List.append_nil _).symm
  | cons entry entries ih =>
      obtain ⟨hentry, hentries⟩ := List.forall_mem_cons.1 h
      rw [List.foldl_cons, ih hentries, wrapVariable, if_neg hentry, List.flatMap_cons, List.append_assoc]

/-- The headers: the length of the content, and the other variables in their order. -/
theorem exists_headers {value : Str} (hvalue : environment.get contentLength = some value) :
    ∃ headers : List (Str × Str),
      environmentVariablesToWrap environment = headers.flatMap environmentVariable ∧
        headers.head?.map Prod.fst = some contentLength ∧ headers.Perm environment.entries := by
  obtain ⟨before, after, hentries⟩ := List.append_of_mem (mem_entries_of_get hvalue)
  have hnodup := environment.nodup
  -- no other variable has this name, since a map has each name once
  rw [hentries, List.map_append, List.map_cons, List.nodup_middle, List.nodup_cons] at hnodup
  have hother : ∀ entry ∈ before ++ after, entry.1 ≠ contentLength := by
    rintro entry hentry hname
    apply hnodup.1
    rw [← List.map_append]
    rw [← hname]
    exact List.mem_map.2 ⟨entry, hentry, rfl⟩
  rw [List.forall_mem_append] at hother
  refine ⟨(contentLength, value) :: (before ++ after), ?_, rfl, ?_⟩
  · -- the variables before it are moved behind it, and the later ones are appended
    rw [environmentVariablesToWrap, hentries, List.foldl_append, List.foldl_cons,
      foldl_wrapVariable hother.2, foldl_wrapVariable hother.1, List.nil_append, wrapVariable, if_pos rfl,
      List.flatMap_cons, List.flatMap_append, List.append_assoc]
  · rw [hentries]
    exact List.perm_middle.symm

/-! ## Reading the netstring -/

/-- A variable is read back, whatever comes behind it. -/
theorem readHeader_environmentVariable {entry : Str × Str} (hname : (0 : UInt8) ∉ asBytes entry.1)
    (hvalue : (0 : UInt8) ∉ asBytes entry.2) (hne : entry.1 ≠ []) (rest : Bytes) :
    headerReader.read (environmentVariable entry ++ rest) = some (entryBytes entry, rest) := by
  -- the bytes of a text tell it, so only the empty name has none
  have hbytes : asBytes entry.1 ≠ [] := by
    intro hnil
    apply hne
    rw [← Utf8.fromUtf8Lossy_encode entry.1, ← asBytes, hnil]
    exact Utf8.fromUtf8Lossy_encode []
  have hinput : environmentVariable entry ++ rest =
      asBytes entry.1 ++ 0 :: (asBytes entry.2 ++ 0 :: rest) := by
    rw [environmentVariable, List.append_assoc, List.cons_append, List.append_assoc]
    rfl
  rw [hinput, show headerReader.read = readHeader from rfl, readHeader, readTerminated_append hname,
    Option.bind_some]
  dsimp only
  rw [if_neg hbytes, readTerminated_append hvalue]
  rfl

/-- All variables are read back. -/
theorem readAll_headers {headers : List (Str × Str)}
    (hnul : ∀ entry ∈ headers, (0 : UInt8) ∉ asBytes entry.1 ∧ (0 : UInt8) ∉ asBytes entry.2)
    (hnames : ∀ entry ∈ headers, entry.1 ≠ []) :
    headerReader.readAll (headers.flatMap environmentVariable) = some (headers.map entryBytes) := by
  let headerBytes (header : Bytes × Bytes) : Bytes := header.1 ++ 0 :: (header.2 ++ [0])
  have hbytes : headers.flatMap environmentVariable = (headers.map entryBytes).flatMap headerBytes := by
    rw [List.flatMap_map]
    rfl
  rw [hbytes]
  apply ItemReader.readAll_flatMap
  intro header hheader rest
  obtain ⟨entry, hentry, rfl⟩ := List.mem_map.1 hheader
  obtain ⟨hname, hvalue⟩ := hnul entry hentry
  exact readHeader_environmentVariable hname hvalue (hnames entry hentry) rest

/-- A variable with an empty name is not read. -/
theorem readHeader_emptyName {entry : Str × Str} (hname : entry.1 = []) (rest : Bytes) :
    headerReader.read (environmentVariable entry ++ rest) = none := by
  have hinput : environmentVariable entry ++ rest = [] ++ 0 :: (asBytes entry.2 ++ [0] ++ rest) := by
    rw [environmentVariable, hname]
    rfl
  rw [hinput, show headerReader.read = readHeader from rfl, readHeader,
    readTerminated_append List.not_mem_nil, Option.bind_some]
  rfl

/-- With an empty name among the variables, these are not read back. -/
theorem readAll_headers_emptyName {headers : List (Str × Str)}
    (hnul : ∀ entry ∈ headers, (0 : UInt8) ∉ asBytes entry.1 ∧ (0 : UInt8) ∉ asBytes entry.2)
    (hempty : ∃ entry ∈ headers, entry.1 = []) :
    headerReader.readAll (headers.flatMap environmentVariable) = none := by
  induction headers with
  | nil =>
      obtain ⟨entry, hentry, -⟩ := hempty
      exact absurd hentry List.not_mem_nil
  | cons first headers ih =>
      obtain ⟨⟨hname, hvalue⟩, hrest⟩ := List.forall_mem_cons.1 hnul
      rw [List.flatMap_cons]
      -- the reading fails at the first empty name, behind the variables that are read
      by_cases hfirst : first.1 = []
      · refine ItemReader.readAll_of_read_eq_none ?_ (readHeader_emptyName hfirst _)
        rw [environmentVariable, hfirst]
        exact List.cons_ne_nil _ _
      · obtain ⟨entry, hentry, hnil⟩ := hempty
        have hlater : entry ∈ headers := (List.mem_cons.1 hentry).resolve_left fun h => hfirst (h ▸ hnil)
        rw [ItemReader.readAll_of_read (readHeader_environmentVariable hname hvalue hfirst _),
          ih hrest ⟨entry, hlater, hnil⟩]
        rfl

/-- For every environment without NUL bytes and empty names, the request is in the form of the protocol, and
it is read back. -/
theorem executeScgi_framed (vars : List (Str × Str)) (script : ScriptRequest) (body : Bytes)
    (hnul : ∀ entry ∈ (passedVariables vars .scgi script).entries,
      (0 : UInt8) ∉ asBytes entry.1 ∧ (0 : UInt8) ∉ asBytes entry.2)
    (hnames : ∀ entry ∈ (passedVariables vars .scgi script).entries, entry.1 ≠ []) :
    ∃ headers,
      Framed (passedVariables vars .scgi script) body (executeScgi vars script body) headers := by
  obtain ⟨value, hvalue⟩ := exists_contentLength vars script
  obtain ⟨headers, hwrapped, hfirst, hperm⟩ := exists_headers hvalue
  have hread : headerReader.readAll (headers.flatMap environmentVariable) =
      some (headers.map entryBytes) :=
    readAll_headers (fun entry hentry => hnul entry (hperm.mem_iff.1 hentry)) fun entry hentry =>
      hnames entry (hperm.mem_iff.1 hentry)
  refine ⟨headers, ?_, hfirst, hperm.mem_iff.2 (scgi_mem vars script), hperm, ?_, ?_⟩
  · rw [executeScgi, environmentVariablesNetstring, hwrapped]
    rfl
  · exact (hperm.map Prod.fst).nodup_iff.2 (passedVariables vars .scgi script).nodup
  · rw [executeScgi, environmentVariablesNetstring, hwrapped, parseRequest, Lib.Netstring.read_encode,
      Option.bind_some]
    dsimp only
    rw [hread]
    rfl

end Environment

/-! ## A configured variable -/

/-- A request to `/` without headers, for a script with a configured variable. -/
def rootRequest (name value : String) : ScriptRequest where
  request :=
    { method := .get
      uri := ⟨"/".toList, none, Http.rootPath_no_question⟩
      headers := []
      version := .http11
      scheme := none
      authority := none }
  requestData := none
  socketData := ⟨⟨.v4 0, 0⟩, ⟨.v4 0, 0⟩, false⟩
  wwwroot := "/".toList
  executePathbuf := "/a.php".toList
  pathInfo := none
  serverAdministratorEmail := none
  additionalEnvironmentVariables := AList.singleton name.toList value.toList

/-- With the variable `APP_ENV` the request is in the form of the protocol. -/
theorem executeScgi_framed_appEnv :
    ∃ headers, Framed (passedVariables [] .scgi (rootRequest "APP_ENV" "production")) []
      (executeScgi [] (rootRequest "APP_ENV" "production") []) headers :=
  executeScgi_framed [] (rootRequest "APP_ENV" "production") [] (by decide +kernel) (by decide +kernel)

/-- With a variable whose name is empty no variable has a NUL byte, but the request is not read back. -/
theorem executeScgi_emptyName :
    (∀ entry ∈ (passedVariables [] .scgi (rootRequest "" "x")).entries,
      (0 : UInt8) ∉ asBytes entry.1 ∧ (0 : UInt8) ∉ asBytes entry.2) ∧
      parseRequest (executeScgi [] (rootRequest "" "x") []) = none := by
  have hnul : ∀ entry ∈ (passedVariables [] .scgi (rootRequest "" "x")).entries,
      (0 : UInt8) ∉ asBytes entry.1 ∧ (0 : UInt8) ∉ asBytes entry.2 := by decide +kernel
  refine ⟨hnul, ?_⟩
  obtain ⟨value, hvalue⟩ := exists_contentLength [] (rootRequest "" "x")
  obtain ⟨headers, hwrapped, -, hperm⟩ := exists_headers hvalue
  have hempty : ∃ entry ∈ (passedVariables [] .scgi (rootRequest "" "x")).entries, entry.1 = [] := by
    decide +kernel
  obtain ⟨entry, hentry, hname⟩ := hempty
  rw [executeScgi, environmentVariablesNetstring, hwrapped, parseRequest, Lib.Netstring.read_encode,
    Option.bind_some]
  dsimp only
  rw [readAll_headers_emptyName (fun other hother => hnul other (hperm.mem_iff.1 hother))
    ⟨entry, hperm.mem_iff.2 hentry, hname⟩]
  rfl

end Ferron.Modules.ScgiRequest
