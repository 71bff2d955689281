import Ferron.Modules.ForwardedHeaders

/-!
# Forwarded authentication

Before a request goes on, an authentication server is asked about it, over a connection from the pool or
over a new one. If the server agrees, the headers that `auth_to_copy` names are taken over from its
response: they tell the backend server who the client is.

Such a header is only replaced when the response has it. `unforged_iff` says that the request that goes on
has the values of the response under each of the names exactly if the response has each of these headers
that the client has sent; otherwise the client's own values reach the backend server
(`clientHeader_forwarded`). A header that is not named is left as it is (`getAll_copyHeaders`).
-/

set_option autoImplicit false

namespace Ferron.Modules.ForwardedAuth

open Ferron.Common Ferron.Http
open Ferron.Lib (exists_of_bind_ok)
open ForwardedHeaders (host connection xForwardedFor xForwardedProto xForwardedHost)

/-! ## The authentication request -/

/-- The parts of a URI that are read. -/
structure AuthUri where
  scheme : Option Str
  host : Option Str
  authority : Option Str
  path : Str
  query : Option Str
  deriving DecidableEq

/-- The request to the authentication server, a GET request without a body. -/
structure AuthRequest where
  uri : AuthUri
  headers : HeaderMap

/-- The response of the authentication server, without its body. -/
structure AuthResponse where
  status : UInt16
  headers : HeaderMap
  deriving DecidableEq

/-- `is_success`. -/
def isSuccess (status : UInt16) : Bool := 200 ≤ status && status < 300

/-- The errors that end the handling of a request: with its text, or of something that it calls. -/
inductive AuthError where
  | message (text : String)
  | invalid
  deriving DecidableEq

/-- `?` on a result of which only the value is used. -/
def orInvalid {α : Type} : Option α → Except AuthError α
  | some value => .ok value
  | none => .error .invalid

/-- The names of further headers. -/
def xForwardedUri : HeaderName := "x-forwarded-uri".toList
def xForwardedMethod : HeaderName := "x-forwarded-method".toList

section Asking

-- `Uri::from_str`.
variable (parseUri : Str → Option AuthUri)

/-- The host of the authentication server. -/
def setHost (authority : Option Str) (headers : HeaderMap) : Except AuthError HeaderMap :=
  match authority with
  | some authority => do
      let value ← orInvalid (headerValue authority)
      pure (headers.insert host value)
  | none => pure (headers.remove host)

/-- The host that the client has asked for, if it has asked for one. -/
def setForwardedHost (originalHost : Option HeaderValue) (headers : HeaderMap) : HeaderMap :=
  match originalHost with
  | some originalHost => headers.insert xForwardedHost originalHost
  | none => headers

/-- `auth_request`: the headers of the client, and those that tell about the client and its request. -/
def authRequest (url : AuthUri) (socketData : SocketData) (request : Request) :
    Except AuthError AuthRequest := do
  let uri ← orInvalid (parseUri (url.path ++ displayQuery url.query))
  let headers ← setHost url.authority request.headers
  -- keeps the connection for the next request
  let headers := headers.insert connection (asciiBytes "keep-alive".toList)
  let clientIp ← orInvalid (headerValue (displayIp socketData.remoteAddr.ip.toCanonical))
  let headers := headers.insert xForwardedFor clientIp
  let headers := headers.insert xForwardedProto
    (asciiBytes (if socketData.encrypted then "https".toList else "http".toList))
  let headers := setForwardedHost (request.headers.get host) headers
  let pathAndQuery ← orInvalid (headerValue (request.uri.path ++ displayQuery request.uri.query))
  let headers := headers.insert xForwardedUri pathAndQuery
  let method ← orInvalid (headerValue request.method.token)
  pure ⟨uri, headers.insert xForwardedMethod method⟩

/-! ## What the response is used for -/

/-- What the handler gives: the request goes on, there is a response, or there is a status code. -/
structure ResponseData where
  request : Option Request
  response : Option AuthResponse
  responseStatus : Option UInt16
  deriving DecidableEq

/-- A status code is given. -/
def statusData (status : UInt16) : ResponseData := ⟨none, none, some status⟩

/-- One header is taken over, if the response has it. `remove` drops all values at once, so the loop around
it in the source ends after them. -/
def copyHeader (response request : HeaderMap) (name : HeaderName) : HeaderMap :=
  -- a header that the response lacks is left as the client has sent it
  if response.containsKey name then
    (response.getAll name).foldl (fun headers value => headers.append name value) (request.remove name)
  else request

/-- The headers that are named are taken over. A text that is no header name is an error. -/
def copyHeaders (response : HeaderMap) : List Str → HeaderMap → Except AuthError HeaderMap
  | [], request => .ok request
  | text :: texts, request =>
      match headerName text with
      | none => .error .invalid
      | some name => copyHeaders response texts (copyHeader response request name)

/-- The handling of the response, if there is one. -/
def answered (proxyResponse : Option AuthResponse) (copied : List Str) (request : Request) :
    Except AuthError ResponseData :=
  match proxyResponse with
  | none => .ok (statusData 502)
  | some proxyResponse =>
      -- any other response goes to the client
      if isSuccess proxyResponse.status then do
        let headers ← copyHeaders proxyResponse.headers copied request.headers
        pure ⟨some { request with headers := headers }, none, none⟩
      else .ok ⟨none, some proxyResponse, none⟩

/-- How connecting has failed. -/
inductive ConnectError where
  | connectionRefused
  | notFound
  | hostUnreachable
  | timedOut
  | other

/-- The status code for a failed connection. -/
def ConnectError.status : ConnectError → UInt16
  | connectionRefused | notFound | hostUnreachable => 503
  | timedOut => 504
  | other => 502

/-- How the setup of TLS has ended: with an error of its settings or of the connection, or with a
connection, on which HTTP/2 has been agreed on or not. -/
inductive TlsResult where
  | invalid
  | failed
  | connected (enableHttp2 : Bool)

/-- What happens on the network: whether the connections in the pool are still ready, how connecting ends,
whether the stream can be set up, how TLS and the handshake of HTTP end, and the responses. -/
structure Network where
  pool : List Bool
  connect : Option ConnectError
  streamReady : Bool
  tls : TlsResult
  handshake : Bool → Bool
  sendRequest : AuthRequest → Option AuthResponse

/-- `http_forwarded_auth`. -/
def httpForwardedAuth (network : Network) (proxyRequest : AuthRequest) (originalRequest : Request)
    (forwardedAuthCopyHeaders : List Str) (useHttp2 : Bool) : Except AuthError ResponseData :=
  if network.handshake useHttp2 then
    answered (network.sendRequest proxyRequest) forwardedAuthCopyHeaders originalRequest
  else .ok (statusData 502)

/-- `http_forwarded_auth_kept_alive`. -/
def httpForwardedAuthKeptAlive (network : Network) (proxyRequest : AuthRequest)
    (originalRequest : Request) (forwardedAuthCopyHeaders : List Str) : Except AuthError ResponseData :=
  answered (network.sendRequest proxyRequest) forwardedAuthCopyHeaders originalRequest

/-- `forwarded_auth_copy_headers`. -/
def forwardedAuthCopyHeaders (config : ServerConfiguration) : List Str :=
  (config.getValues "auth_to_copy".toList).filterMap ServerConfigurationValue.asStr

/-- A new connection, with or without TLS. -/
def askAnew (network : Network) (encrypted : Bool) (proxyRequest : AuthRequest)
    (originalRequest : Request) (copied : List Str) : Except AuthError ResponseData :=
  match network.connect with
  | some error => .ok (statusData error.status)
  | none =>
      if !network.streamReady then .ok (statusData 502)
      else if !encrypted then httpForwardedAuth network proxyRequest originalRequest copied false
      else
        match network.tls with
        | .invalid => .error .invalid
        | .failed => .ok (statusData 502)
        | .connected enableHttp2 =>
            httpForwardedAuth network proxyRequest originalRequest copied enableHttp2

/-- Whether the scheme of the authentication server is that of TLS. -/
def encryptedScheme (scheme : Option Str) : Except AuthError Bool :=
  if scheme = some "http".toList then .ok false
  else if scheme = some "https".toList then .ok true
  else .error (.message "Only HTTP and HTTPS reverse proxy URLs are supported.")

/-- `request_handler`. A request goes on unasked when no authentication server is configured. -/
def requestHandler (network : Network) (authTo : Option Str) (config : ServerConfiguration)
    (socketData : SocketData) (request : Request) : Except AuthError ResponseData :=
  match authTo with
  | none => .ok ⟨some request, none, none⟩
  | some authTo => do
      let url ← orInvalid (parseUri authTo)
      let encrypted ← encryptedScheme url.scheme
      if url.host.isNone then
        .error (.message "The reverse proxy URL doesn't include the host")
      else
        let proxyRequest ← authRequest parseUri url socketData request
        let copied := forwardedAuthCopyHeaders config
        -- The first ready connection is taken out of the pool, and those before it are dropped.
        if network.pool.contains true then httpForwardedAuthKeptAlive network proxyRequest request copied
        else askAnew network encrypted proxyRequest request copied

end Asking

/-! ## Copying -/

theorem getAll_foldl_append (name other : HeaderName) (values : List HeaderValue)
    (headers : HeaderMap) :
    (values.foldl (fun headers value => headers.append name value) headers).getAll other =
      headers.getAll other ++ if other = name then values else [] := by
  induction values generalizing headers with
  | nil => simp
  | cons value values ih =>
      rw [List.foldl_cons, ih, HeaderMap.getAll_append]
      -- the value goes behind those that are there
      by_cases hname : other = name <;> simp [hname]

/-- One header gets the values of the response, if there are any. -/
theorem getAll_copyHeader (response request : HeaderMap) (name other : HeaderName) :
    (copyHeader response request name).getAll other =
      if other = name ∧ response.getAll name ≠ [] then response.getAll name
      else request.getAll other := by
  rw [copyHeader]
  by_cases hkey : response.containsKey name = true
  · have hvalues := HeaderMap.containsKey_iff.1 hkey
    rw [if_pos hkey, getAll_foldl_append, HeaderMap.getAll_remove]
    by_cases hname : other = name
    · simp [hname, hvalues]
    · simp [hname]
  · have hvalues : ¬ response.getAll name ≠ [] := fun h => hkey (HeaderMap.containsKey_iff.2 h)
    rw [if_neg hkey, if_neg fun h => hvalues h.2]

/-- The headers that are named get the values of the response, if there are any, and the others stay. -/
theorem getAll_copyHeaders {response request forwarded : HeaderMap} {texts : List Str}
    (hcopied : copyHeaders response texts request = .ok forwarded) (other : HeaderName) :
    forwarded.getAll other =
      if other ∈ texts.filterMap headerName ∧ response.getAll other ≠ [] then response.getAll other
      else request.getAll other := by
  induction texts generalizing request with
  -- nothing is left to take over
  | nil =>
      rw [copyHeaders, Except.ok.injEq] at hcopied
      simp [hcopied]
  | cons text texts ih =>
      rw [copyHeaders] at hcopied
      cases hname : headerName text with
      | none =>
          rw [hname] at hcopied
          exact absurd hcopied (by simp)
      | some name =>
          rw [hname] at hcopied
          -- a name that is listed twice gets the same values again
          rw [ih hcopied, List.filterMap_cons_some hname, getAll_copyHeader]
          by_cases hsame : other = name
          · by_cases hnone : response.getAll name = [] <;> simp [hsame, hnone]
          · simp [hsame]

/-! ## Requests that go on -/

section Requests

variable {parseUri : Str → Option AuthUri} {network : Network} {config : ServerConfiguration}
  {socketData : SocketData} {request forwarded : Request} {data : ResponseData}

/-- A request goes on after a successful response only. -/
theorem answered_request {proxyResponse : Option AuthResponse} {copied : List Str}
    (hrun : answered proxyResponse copied request = .ok data) (hforwarded : data.request = some forwarded) :
    ∃ response, proxyResponse = some response ∧ isSuccess response.status = true ∧
      copyHeaders response.headers copied request.headers = .ok forwarded.headers := by
  cases proxyResponse with
  | none =>
      rw [answered, Except.ok.injEq] at hrun
      rw [← hrun] at hforwarded
      exact absurd hforwarded (by simp [statusData])
  | some response =>
      rw [answered] at hrun
      by_cases hsuccess : isSuccess response.status = true
      · rw [if_pos hsuccess] at hrun
        obtain ⟨headers, hheaders, hdata⟩ := exists_of_bind_ok hrun
        cases hdata
        cases hforwarded
        exact ⟨response, rfl, hsuccess, hheaders⟩
      · rw [if_neg hsuccess, Except.ok.injEq] at hrun
        rw [← hrun] at hforwarded
        exact absurd hforwarded (by simp)

/-- Whatever the variant of the connection, a request goes on after an answer only. -/
theorem askAnew_request {encrypted : Bool} {proxyRequest : AuthRequest} {copied : List Str}
    (hrun : askAnew network encrypted proxyRequest request copied = .ok data)
    (hforwarded : data.request = some forwarded) :
    answered (network.sendRequest proxyRequest) copied request = .ok data := by
  -- where a status code is given, no request goes on
  have hstatus : ∀ status, (.ok (statusData status) : Except AuthError ResponseData) ≠ .ok data := by
    rintro status heq
    rw [Except.ok.injEq] at heq
    rw [← heq] at hforwarded
    exact absurd hforwarded (by simp [statusData])
  have hhttp : ∀ useHttp2, httpForwardedAuth network proxyRequest request copied useHttp2 = .ok data →
      answered (network.sendRequest proxyRequest) copied request = .ok data := by
    intro useHttp2 hhandshake
    rw [httpForwardedAuth] at hhandshake
    split at hhandshake
    · exact hhandshake
    · exact absurd hhandshake (hstatus 502)
  rw [askAnew] at hrun
  cases hconnect : network.connect with
  | some error =>
      rw [hconnect] at hrun
      exact absurd hrun (hstatus _)
  | none =>
      simp only [hconnect] at hrun
      by_cases hready : (!network.streamReady) = true
      · rw [if_pos hready] at hrun
        exact absurd hrun (hstatus 502)
      · rw [if_neg hready] at hrun
        by_cases hplain : (!encrypted) = true
        · rw [if_pos hplain] at hrun
          exact hhttp false hrun
        · rw [if_neg hplain] at hrun
          cases htls : network.tls with
          | invalid =>
              rw [htls] at hrun
              cases hrun
          | failed =>
              rw [htls] at hrun
              exact absurd hrun (hstatus 502)
          | connected enableHttp2 =>
              rw [htls] at hrun
              exact hhttp enableHttp2 hrun

/-- The authentication server has been asked about every request that goes on, and has agreed. -/
theorem requestHandler_request {authTo : Str}
    (hrun : requestHandler parseUri network (some authTo) config socketData request = .ok data)
    (hforwarded : data.request = some forwarded) :
    ∃ url proxyRequest response, parseUri authTo = some url ∧
      authRequest parseUri url socketData request = .ok proxyRequest ∧
      network.sendRequest proxyRequest = some response ∧ isSuccess response.status = true ∧
      copyHeaders response.headers (forwardedAuthCopyHeaders config) request.headers =
        .ok forwarded.headers := by
  rw [requestHandler] at hrun
  obtain ⟨url, hparsed, hrun⟩ := exists_of_bind_ok hrun
  have hurl : parseUri authTo = some url := by
    cases hfound : parseUri authTo with
    | none =>
        rw [hfound] at hparsed
        cases hparsed
    | some found =>
        rw [hfound] at hparsed
        cases hparsed
        rfl
  obtain ⟨encrypted, -, hrun⟩ := exists_of_bind_ok hrun
  by_cases hhost : url.host.isNone = true
  · rw [if_pos hhost] at hrun
    cases hrun
  · rw [if_neg hhost] at hrun
    obtain ⟨proxyRequest, hproxy, hrun⟩ := exists_of_bind_ok hrun
    have hanswered : answered (network.sendRequest proxyRequest) (forwardedAuthCopyHeaders config) request =
        .ok data := by
      dsimp only at hrun
      by_cases hpooled : network.pool.contains true = true
      · rw [if_pos hpooled] at hrun
        exact hrun
      · rw [if_neg hpooled] at hrun
        exact askAnew_request hrun hforwarded
    obtain ⟨response, hresponse, hsuccess, hcopied⟩ := answered_request hanswered hforwarded
    exact ⟨url, proxyRequest, response, hurl, hproxy, hresponse, hsuccess, hcopied⟩

/-- The names of the headers that are taken over. -/
def copiedNames (config : ServerConfiguration) : List HeaderName :=
  (forwardedAuthCopyHeaders config).filterMap headerName

/-- A request that goes on has the values of the successful response under each of the names, and no others,
exactly if the response has each of these headers that the client has sent. -/
theorem unforged_iff {authTo : Str}
    (hrun : requestHandler parseUri network (some authTo) config socketData request = .ok data)
    (hforwarded : data.request = some forwarded) :
    ∃ url proxyRequest response, parseUri authTo = some url ∧
      authRequest parseUri url socketData request = .ok proxyRequest ∧
      network.sendRequest proxyRequest = some response ∧ isSuccess response.status = true ∧
      ((∀ name ∈ copiedNames config, forwarded.headers.getAll name = response.headers.getAll name) ↔
        ∀ name ∈ copiedNames config,
          request.headers.containsKey name = true → response.headers.containsKey name = true) := by
  obtain ⟨url, proxyRequest, response, hurl, hproxy, hresponse, hsuccess, hcopied⟩ :=
    requestHandler_request hrun hforwarded
  refine ⟨url, proxyRequest, response, hurl, hproxy, hresponse, hsuccess, ?_⟩
  apply forall₂_congr
  intro name hname
  rw [getAll_copyHeaders hcopied, HeaderMap.containsKey_iff, HeaderMap.containsKey_iff]
  by_cases hnone : response.headers.getAll name = []
  · -- the response lacks the header: what the client has sent is there
    simp [hnone]
  · have hmem : name ∈ (forwardedAuthCopyHeaders config).filterMap headerName := hname
    simp [hnone, hmem]

end Requests

/-! ## A header that the server does not send -/

/-- The URIs `http://auth` and `/`. -/
def serverUri (text : Str) : Option AuthUri :=
  if text = "http://auth".toList then
    some ⟨some "http".toList, some "auth".toList, some "auth".toList, ['/'], none⟩
  else if text = ['/'] then some ⟨none, none, none, ['/'], none⟩
  else none

/-- `auth_to_copy "X-User"`. -/
def copyUser : ServerConfiguration where
  entries := AList.singleton "auth_to_copy".toList ⟨[⟨[.string "X-User".toList], ∅⟩]⟩
  filters := ⟨true, none, none, none, none, none⟩

/-- A connection to a server that agrees to every request, with some headers. -/
def agreeing (headers : HeaderMap) : Network where
  pool := [true]
  connect := none
  streamReady := true
  tls := .failed
  handshake := fun _ => true
  sendRequest := fun _ => some ⟨200, headers⟩

/-- A header that names the user. -/
def userHeader (user : String) : HeaderMap := [("x-user".toList, asciiBytes user.toList)]

/-- A request with some headers. -/
def rootRequest (headers : HeaderMap) : Request := ⟨.get, ⟨['/'], none, rootPath_no_question⟩, headers⟩

/-- A connection of a client. -/
def clientSocket : SocketData := ⟨⟨.v4 0xc0000201, 50000⟩, ⟨.v4 0xc0000202, 80⟩, false⟩

/-- The server's `X-User` takes the place of the client's. -/
theorem unforged_iff_user :
    ∃ url proxyRequest response, serverUri "http://auth".toList = some url ∧
      authRequest serverUri url clientSocket (rootRequest (userHeader "admin")) = .ok proxyRequest ∧
      (agreeing (userHeader "alice")).sendRequest proxyRequest = some response ∧
      isSuccess response.status = true ∧
      ((∀ name ∈ copiedNames copyUser,
          (userHeader "alice").getAll name = response.headers.getAll name) ↔
        ∀ name ∈ copiedNames copyUser, (userHeader "admin").containsKey name = true →
          response.headers.containsKey name = true) :=
  have hrun : requestHandler serverUri (agreeing (userHeader "alice")) (some "http://auth".toList) copyUser
      clientSocket (rootRequest (userHeader "admin")) =
        .ok ⟨some (rootRequest (userHeader "alice")), none, none⟩ := rfl
  unforged_iff hrun rfl

/-- The client's `X-User` goes on to the backend server when the response of the server has none. -/
theorem clientHeader_forwarded :
    copiedNames copyUser = ["x-user".toList] ∧
      (∀ proxyRequest, (agreeing []).sendRequest proxyRequest = some ⟨200, []⟩) ∧
      requestHandler serverUri (agreeing []) (some "http://auth".toList) copyUser clientSocket
        (rootRequest (userHeader "admin")) = .ok ⟨some (rootRequest (userHeader "admin")), none, none⟩ ∧
      (rootRequest (userHeader "admin")).headers.getAll "x-user".toList ≠
        HeaderMap.getAll [] "x-user".toList := by
  refine ⟨rfl, fun _ => rfl, rfl, ?_⟩
  exact List.cons_ne_nil _ _

end Ferron.Modules.ForwardedAuth
