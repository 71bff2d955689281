import Ferron.Common.HeaderPlaceholders
import Ferron.Common.Hostname
import Ferron.Config.Kdl
import Ferron.Modules.RemoveBase

/-!
# Redirects of the core module

The core module redirects requests over plain HTTP to HTTPS, and with `wwwredirect` requests for a host
without "www." to the one with it. It builds the new host in two ways: with a port in the `Host` header
it puts "www." before the name, without one it takes the name as it is, so that the redirect leads to
where it came from. And the path is the one without the location prefix. `converges_iff` says when the
redirect leads to the host with "www.", the port and the path of the request.
-/

set_option autoImplicit false

namespace Ferron.Modules.CoreRedirects

open Ferron.Common Ferron.Config Ferron.Http Ferron.Modules.RemoveBase

/-! ## The core module -/

/-- `CoreModuleHandlers`: the ports of the server, and whether there are configurations with HTTPS. -/
structure CoreModule where
  defaultHttpPort : Option UInt16
  defaultHttpsPort : Option UInt16
  hasHttps : Bool

/-- A URL that is built of its parts. -/
structure Location where
  scheme : Str
  authority : Str
  pathAndQuery : Str
  deriving DecidableEq

/-- Other libraries: `to_lowercase`, `parse::<IpAddr>`, and whether a URL can be built. -/
structure Library where
  toLowercase : Str → Str
  parseIpAddr : Str → Option IpAddr
  builds : Location → Bool

/-- A request with the scheme of its target. -/
structure SchemeRequest extends CoreRequest where
  scheme : Option Str

/-- `path_and_query`: a target of an authority alone has none. -/
def SchemeRequest.pathAndQuery (request : SchemeRequest) : Option Str :=
  if request.scheme.isSome || request.host.isNone then
    some (request.request.uri.path ++ displayQuery request.request.uri.query)
  else none

/-- Why a request is redirected. -/
inductive Cause where
  | https
  | www
  deriving DecidableEq

/-- What the core module answers with: the request for the modules behind it with a new remote address or
not, a redirect, the status code of an error response, or an error. -/
inductive Answer where
  | passed (request : SchemeRequest) (newRemoteAddress : Option SocketAddr)
  | redirect (cause : Cause) (location : Location)
  | status (code : Nat)
  | error

/-- A property with a boolean value. -/
def boolValue (config : ServerConfiguration) (name : Str) : Option Bool :=
  (config.getValue name).bind ServerConfigurationValue.asBool

/-- `host_name` and `host_port`. -/
def hostParts (hostHeader : Str) : Str × Option Str :=
  let parts := hostHeader.splitOn ':'
  if 1 < parts.length &&
      !(parts.head?.any (fun part => part.head? = some '[') &&
        parts.getLast?.any fun part => part.getLast? = some ']') then
    ([':'].intercalate parts.dropLast, parts.getLast?)
  else ([':'].intercalate parts, none)

/-- `header::HOST`. -/
def host : HeaderName := "host".toList

section Handler

variable (library : Library) (core : CoreModule) (config : ServerConfiguration)
  (socketData : SocketData)

/-- The condition of the redirect to HTTPS. -/
def redirectsToHttps : Bool :=
  !(boolValue config "no_redirect_to_https".toList).getD false && core.hasHttps &&
    config.filters.port.isNone &&
    ((boolValue config "auto_tls".toList).getD
        ((config.filters.hostname.isSome || config.filters.ip.isSome ||
            (boolValue config "auto_tls_on_demand".toList).getD false) &&
          !isLocalhost library.toLowercase config.filters.ip config.filters.hostname) ||
      (config.entries.lookup "tls".toList).isSome)

/-- The answer with a redirect, when its URL can be built. -/
def answerRedirect (cause : Cause) (location : Location) : Answer :=
  if library.builds location then .redirect cause location else .error

/-- The port that a request for the configured host comes to. -/
def configuredPort : Option UInt16 :=
  config.filters.port.or (if socketData.encrypted then core.defaultHttpsPort else core.defaultHttpPort)

/-- The port of the request is the one that the configuration is for. -/
def portMatches (hostPort : Option Str) : Bool :=
  hostPort.all fun port => (parseU16 port).isSome && parseU16 port == configuredPort core config socketData

/-- The redirect from URL without "www." to URL with "www.". -/
def wwwRedirect (request : SchemeRequest) (newRemoteAddress : Option SocketAddr) : Answer :=
  match config.filters.hostname with
  | none => .passed request newRemoteAddress
  | some domain =>
      if (boolValue config "wwwredirect".toList).getD false then
        match request.request.headers.get host with
        | none => .passed request newRemoteAddress
        | some hostHeaderValue =>
            match toStr hostHeaderValue, request.pathAndQuery with
            | none, _ => .error
            | some _, none => .status 400
            | some hostHeader, some pathAndQuery =>
                let (hostName, hostPort) := hostParts hostHeader
                if hostName == domain && portMatches core config socketData hostPort &&
                    !"www.".toList.isPrefixOf hostName then
                  answerRedirect library .www
                    ⟨if socketData.encrypted then "https".toList else "http".toList,
                      match hostPort with
                      | some port => "www.".toList ++ hostName ++ ':' :: port
                      | none => hostName,
                      pathAndQuery⟩
                else .passed request newRemoteAddress
      else .passed request newRemoteAddress

/-- The redirect from HTTP to HTTPS, and the other one when there is none. -/
def httpsRedirect (request : SchemeRequest) (newRemoteAddress : Option SocketAddr) : Answer :=
  match core.defaultHttpPort, core.defaultHttpsPort with
  | some defaultHttpPort, some defaultHttpsPort =>
      if redirectsToHttps library core config &&
          (!socketData.encrypted && socketData.localAddr.port == defaultHttpPort) then
        match request.request.headers.get host with
        | none => .status 400
        | some hostHeaderValue =>
            match toStr hostHeaderValue, request.pathAndQuery with
            | none, _ => .error
            | some _, none => .status 400
            | some hostHeader, some pathAndQuery =>
                answerRedirect library .https
                  ⟨"https".toList,
                    if defaultHttpsPort = 443 then (hostParts hostHeader).1
                    else (hostParts hostHeader).1 ++ ':' :: displayNat 10 defaultHttpsPort.toNat,
                    pathAndQuery⟩
      else wwwRedirect library core config socketData request newRemoteAddress
  | _, _ => wwwRedirect library core config socketData request newRemoteAddress

/-- The request without the location prefix. -/
def withoutPrefix (request : SchemeRequest) : SchemeRequest :=
  { request with
    toCoreRequest := removePathPrefix
      ((config.getValue "UNDOCUMENTED_REMOVE_PATH_PREFIX".toList).bind ServerConfigurationValue.asStr)
      request.toCoreRequest }

/-- `request_handler`. -/
def requestHandler (request : SchemeRequest) : Answer :=
  if isProxyRequest request.toCoreRequest then .passed request none
  else
    let request := withoutPrefix config request
    if (boolValue config "trust_x_forwarded_for".toList).getD false then
      match request.request.headers.get "x-forwarded-for".toList with
      | none => httpsRedirect library core config socketData request none
      | some xForwardedForValue =>
          match toStr xForwardedForValue with
          | none => .error
          | some xForwardedFor =>
              match library.parseIpAddr
                  (((xForwardedFor.splitOn ',').headD []).filter (· ≠ ' ')) with
              | none => .status 400
              | some ip =>
                  httpsRedirect library core config socketData request
                    (some ⟨ip, socketData.remoteAddr.port⟩)
    else httpsRedirect library core config socketData request none

end Handler

/-! ## The parts of a host header -/

/-- There is a port behind the host: a colon that is not within the brackets of an address. -/
def HasPort (hostHeader : Str) : Prop :=
  ':' ∈ hostHeader ∧ ¬ (hostHeader.head? = some '[' ∧ hostHeader.getLast? = some ']')

theorem head?_splitOn (hostHeader : Str) :
    (hostHeader.splitOn ':').head?.any (fun part => part.head? = some '[') =
      decide (hostHeader.head? = some '[') := by
  cases hostHeader with
  | nil => rfl
  | cons c hostHeader =>
      obtain ⟨first, parts, hparts⟩ := List.exists_cons_of_ne_nil
        (List.splitOn_ne_nil ':' hostHeader)
      rw [List.splitOn_cons_eq_if_modifyHead, hparts]
      by_cases hc : c = ':'
      · subst hc
        rfl
      · have hne : (c == ':') = false := beq_eq_false_iff_ne.2 hc
        rw [hne, if_neg Bool.false_ne_true]
        rfl

/-- What a host header is split into. -/
theorem hostParts_cases (hostHeader : Str) :
    (∃ name port, hostHeader = name ++ ':' :: port ∧ HasPort hostHeader ∧
      hostParts hostHeader = (name, some port)) ∨
    ¬ HasPort hostHeader ∧ hostParts hostHeader = (hostHeader, none) := by
  by_cases hmem : ':' ∈ hostHeader
  · -- the last part is what follows the last colon
    obtain ⟨back, front, hsplit, hnot⟩ := List.eq_append_cons_of_mem (List.mem_reverse.2 hmem)
    obtain ⟨name, port, hheader, hport⟩ : ∃ name port : Str, hostHeader = name ++ ':' :: port ∧
        ':' ∉ port := by
      refine ⟨front.reverse, back.reverse, ?_, fun h => hnot (List.mem_reverse.1 h)⟩
      rw [← List.reverse_reverse hostHeader, hsplit]
      simp
    have hparts : hostHeader.splitOn ':' = name.splitOn ':' ++ [port] := by
      rw [hheader, List.splitOn_append_cons_self, List.splitOn_eq_singleton hport]
    have hlength : 1 < (hostHeader.splitOn ':').length := by
      have hpos := List.length_pos_iff.2 (List.splitOn_ne_nil ':' name)
      rw [hparts, List.length_append, List.length_singleton]
      omega
    have hlast : (hostHeader.splitOn ':').getLast?.any (fun part => part.getLast? = some ']') =
        decide (hostHeader.getLast? = some ']') := by
      rw [hparts, List.getLast?_concat, hheader, List.getLast?_append, List.getLast?_cons, Option.any_some]
      cases port.getLast? with
      | none => rfl
      | some c => rfl
    by_cases hbracket : hostHeader.head? = some '[' ∧ hostHeader.getLast? = some ']'
    · refine Or.inr ⟨fun h => h.2 hbracket, ?_⟩
      rw [hostParts, head?_splitOn, hlast, decide_eq_true hbracket.1, decide_eq_true hbracket.2,
        List.intercalate_splitOn]
      simp
    · refine Or.inl ⟨name, port, hheader, ⟨hmem, hbracket⟩, ?_⟩
      rw [hostParts, head?_splitOn, hlast, if_pos, hparts, List.dropLast_concat, List.getLast?_concat,
        List.intercalate_splitOn]
      simp only [Bool.and_eq_true, decide_eq_true_eq, Bool.not_eq_true', Bool.and_eq_false_iff,
        decide_eq_false_iff_not]
      exact ⟨hlength, not_and_or.1 hbracket⟩
  · refine Or.inr ⟨fun h => hmem h.1, ?_⟩
    rw [hostParts, List.splitOn_eq_singleton hmem]
    simp

/-- Of a host with "www." the name has it, too. -/
theorem www_isPrefixOf_hostParts (rest : Str) :
    "www.".toList.isPrefixOf (hostParts ("www.".toList ++ rest)).1 = true := by
  rw [List.isPrefixOf_iff_prefix]
  rcases hostParts_cases ("www.".toList ++ rest) with ⟨name, port, hheader, -, hparts⟩ | ⟨-, hparts⟩
  · rw [hparts]
    -- the colon does not come before the end of "www."
    have hname : name <+: "www.".toList ++ rest := ⟨':' :: port, hheader.symm⟩
    have hcolon : name ++ [':'] <+: "www.".toList ++ rest := by
      refine ⟨port, ?_⟩
      rw [hheader, List.append_assoc, List.singleton_append]
    rcases Nat.lt_or_ge name.length 4 with hlt | hge
    · have hwww : name ++ [':'] <+: "www.".toList :=
        List.prefix_of_prefix_length_le hcolon (List.prefix_append _ _) (by
          rw [List.length_append, List.length_singleton]
          exact hlt)
      have hmem := hwww.subset (List.mem_append_right name List.mem_cons_self)
      exact absurd hmem (by decide)
    · exact List.prefix_of_prefix_length_le (List.prefix_append _ _) hname hge
  · rw [hparts]
    exact List.prefix_append _ _

/-! ## The redirect to "www." -/

section Www

variable {library : Library} {core : CoreModule} {config : ServerConfiguration}
  {socketData : SocketData} {request : SchemeRequest} {location : Location}

/-- The host that a request asks for in its header. -/
def askedHost (request : SchemeRequest) : Option Str := (request.request.headers.get host).bind toStr

theorem answerRedirect_eq {cause cause' : Cause} {location' : Location}
    (h : answerRedirect library cause location = .redirect cause' location') :
    cause = cause' ∧ location = location' := by
  rw [answerRedirect] at h
  split at h
  · exact ⟨(Answer.redirect.inj h).1, (Answer.redirect.inj h).2⟩
  · nomatch h

/-- The authority that a host is redirected to. -/
def wwwAuthority (header : Str) : Str :=
  match (hostParts header).2 with
  | some port => "www.".toList ++ (hostParts header).1 ++ ':' :: port
  | none => (hostParts header).1

/-- What is known of a request that is redirected to "www.". -/
theorem of_wwwRedirect {newRemoteAddress : Option SocketAddr}
    (h : wwwRedirect library core config socketData request newRemoteAddress = .redirect .www location) :
    ∃ header, askedHost request = some header ∧ request.pathAndQuery = some location.pathAndQuery ∧
      "www.".toList.isPrefixOf (hostParts header).1 = false ∧
      location.authority = wwwAuthority header := by
  rw [wwwRedirect] at h
  split at h
  · nomatch h
  · split at h
    · split at h
      · nomatch h
      · rename_i value hvalue
        split at h
        · nomatch h
        · nomatch h
        · rename_i header pathAndQuery hheader hpath
          dsimp only at h
          split at h
          · rename_i hcondition
            obtain ⟨-, rfl⟩ := answerRedirect_eq h
            refine ⟨header, ?_, hpath, ?_, rfl⟩
            · rw [askedHost, hvalue, Option.bind_some, hheader]
            · rw [Bool.and_eq_true, Bool.not_eq_true'] at hcondition
              exact hcondition.2
          · nomatch h
    · nomatch h

/-- A redirect to "www." comes after the one to HTTPS was passed over. -/
theorem wwwRedirect_of_httpsRedirect {newRemoteAddress : Option SocketAddr}
    (h : httpsRedirect library core config socketData request newRemoteAddress =
      .redirect .www location) :
    wwwRedirect library core config socketData request newRemoteAddress = .redirect .www location := by
  rw [httpsRedirect] at h
  split at h
  · split at h
    · split at h
      · nomatch h
      · split at h
        · nomatch h
        · nomatch h
        · exact absurd (answerRedirect_eq h).1 (by decide)
    · exact h
  · exact h

theorem wwwRedirect_of_requestHandler
    (h : requestHandler library core config socketData request = .redirect .www location) :
    isProxyRequest request.toCoreRequest = false ∧ ∃ newRemoteAddress,
      wwwRedirect library core config socketData (withoutPrefix config request) newRemoteAddress =
        .redirect .www location := by
  rw [requestHandler] at h
  cases hproxy : isProxyRequest request.toCoreRequest with
  | true =>
      rw [hproxy, if_pos rfl] at h
      nomatch h
  | false =>
      refine ⟨rfl, ?_⟩
      rw [hproxy, if_neg Bool.false_ne_true] at h
      dsimp only at h
      split at h
      · split at h
        · exact ⟨_, wwwRedirect_of_httpsRedirect h⟩
        · split at h
          · nomatch h
          · split at h
            · nomatch h
            · exact ⟨_, wwwRedirect_of_httpsRedirect h⟩
      · exact ⟨_, wwwRedirect_of_httpsRedirect h⟩

/-- The location prefix of a configuration. -/
def locationPrefix (config : ServerConfiguration) : Option Str :=
  (config.getValue "UNDOCUMENTED_REMOVE_PATH_PREFIX".toList).bind ServerConfigurationValue.asStr

/-- No prefix is removed from the path of a request. -/
def KeepsPath (config : ServerConfiguration) (request : SchemeRequest) : Prop :=
  ∀ location ∈ locationPrefix config,
    (newPath location request.request.uri.path).getD request.request.uri.path = request.request.uri.path

theorem removePathPrefix_headers (location : Option Str) (request : CoreRequest) :
    (removePathPrefix location request).request.headers = request.request.headers := by
  unfold removePathPrefix
  split
  · rfl
  · split
    · rfl
    · rfl

theorem removePathPrefix_host (location : Option Str) (request : CoreRequest) :
    (removePathPrefix location request).host = request.host := by
  unfold removePathPrefix
  split
  · rfl
  · split
    · rfl
    · rfl

theorem removePathPrefix_query (location : Option Str) (request : CoreRequest) :
    (removePathPrefix location request).request.uri.query = request.request.uri.query := by
  unfold removePathPrefix
  split
  · rfl
  · split
    · exact rewriteUri_query _ _
    · rfl

/-- The path is the same when no prefix is removed, and only then. -/
theorem removePathPrefix_path_iff (hproxy : isProxyRequest request.toCoreRequest = false) :
    (removePathPrefix (locationPrefix config) request.toCoreRequest).request.uri.path =
      request.request.uri.path ↔ KeepsPath config request := by
  unfold removePathPrefix
  rw [hproxy, if_neg Bool.false_ne_true, KeepsPath]
  cases locationPrefix config with
  | none => simp
  | some location => simp

theorem askedHost_withoutPrefix : askedHost (withoutPrefix config request) = askedHost request := by
  have hheaders := removePathPrefix_headers (locationPrefix config) request.toCoreRequest
  change ((removePathPrefix (locationPrefix config) request.toCoreRequest).request.headers.get host).bind
    toStr = _
  rw [hheaders]
  rfl

/-- The path and the query stay the same when no prefix is removed, and only then. -/
theorem pathAndQuery_withoutPrefix {pathAndQuery : Str}
    (hproxy : isProxyRequest request.toCoreRequest = false)
    (h : (withoutPrefix config request).pathAndQuery = some pathAndQuery) :
    some pathAndQuery = request.pathAndQuery ↔ KeepsPath config request := by
  rw [← removePathPrefix_path_iff hproxy]
  change (if request.scheme.isSome ||
      (removePathPrefix (locationPrefix config) request.toCoreRequest).host.isNone then
    some ((removePathPrefix (locationPrefix config) request.toCoreRequest).request.uri.path ++
      displayQuery (removePathPrefix (locationPrefix config) request.toCoreRequest).request.uri.query)
    else none) = some pathAndQuery at h
  rw [removePathPrefix_host, removePathPrefix_query] at h
  split at h
  · rename_i htarget
    rw [← Option.some.inj h, SchemeRequest.pathAndQuery, if_pos htarget, Option.some_inj,
      List.append_left_inj]
  · nomatch h

end Www

/-! ## Following the redirect -/

/-- A redirect leads to "www." before the host that was asked for, with its port, and to the path and query
of the request; and no request that follows it, under whatever configuration, is redirected to "www."
again. -/
structure Converges (library : Library) (sent : SchemeRequest) (header : Str) (location : Location) :
    Prop where
  authority : location.authority = "www.".toList ++ header
  pathAndQuery : some location.pathAndQuery = sent.pathAndQuery
  ends : ∀ (core : CoreModule) (config : ServerConfiguration) (socketData : SocketData)
    (next : SchemeRequest), askedHost next = some location.authority →
      ∀ again, requestHandler library core config socketData next ≠ .redirect .www again

/-- A host with "www." is not redirected. -/
theorem not_redirected (library : Library) {rest : Str} (core : CoreModule)
    (config : ServerConfiguration) (socketData : SocketData) {next : SchemeRequest}
    (hnext : askedHost next = some ("www.".toList ++ rest)) (again : Location) :
    requestHandler library core config socketData next ≠ .redirect .www again := by
  intro h
  obtain ⟨-, newRemoteAddress, hwww⟩ := wwwRedirect_of_requestHandler h
  obtain ⟨header, hheader, -, hnot, -⟩ := of_wwwRedirect hwww
  rw [askedHost_withoutPrefix, hnext] at hheader
  rw [← Option.some.inj hheader, www_isPrefixOf_hostParts] at hnot
  nomatch hnot

/-- The new host has "www." exactly when there is a port. -/
theorem wwwAuthority_eq_iff (header : Str) :
    wwwAuthority header = "www.".toList ++ header ↔ HasPort header := by
  rw [wwwAuthority]
  rcases hostParts_cases header with ⟨name, port, hheader, hport, hparts⟩ | ⟨hport, hparts⟩
  · rw [hparts]
    dsimp only
    refine iff_of_true ?_ hport
    rw [hheader, List.append_assoc]
  · rw [hparts]
    dsimp only
    refine iff_of_false ?_ hport
    intro h
    have hlength := congrArg List.length h
    rw [List.length_append] at hlength
    have hwww : "www.".toList.length = 4 := rfl
    omega

/-- A redirect to "www." converges exactly when the `Host` header has a port and no location prefix is
removed from the path. -/
theorem converges_iff (library : Library) (core : CoreModule) (config : ServerConfiguration)
    (socketData : SocketData) (sent : SchemeRequest) (location : Location) (header : Str)
    (hheader : askedHost sent = some header)
    (hredirect : requestHandler library core config socketData sent = .redirect .www location) :
    Converges library sent header location ↔ HasPort header ∧ KeepsPath config sent := by
  obtain ⟨hproxy, newRemoteAddress, hwww⟩ := wwwRedirect_of_requestHandler hredirect
  obtain ⟨header', hheader', hpath, -, hauthority⟩ := of_wwwRedirect hwww
  rw [askedHost_withoutPrefix, hheader] at hheader'
  obtain rfl := Option.some.inj hheader'
  rw [← wwwAuthority_eq_iff, ← hauthority, ← pathAndQuery_withoutPrefix hproxy hpath]
  constructor
  · rintro ⟨hwww, hsame, -⟩
    exact ⟨hwww, hsame⟩
  · rintro ⟨hwww, hsame⟩
    refine ⟨hwww, hsame, ?_⟩
    intro core config socketData next hnext
    rw [hwww] at hnext
    exact not_redirected library core config socketData hnext

/-! ## A host without and with a port -/

/-- A library that builds every URL. -/
def buildsAll : Library := ⟨lowerName, fun _ => none, fun _ => true⟩

/-- A server with the default ports and without HTTPS. -/
def defaultPorts : CoreModule := ⟨some 80, some 443, false⟩

/-- `example.com { wwwredirect #true }`. -/
def exampleConfiguration : ServerConfiguration where
  entries := AList.singleton "wwwredirect".toList ⟨[⟨[.bool true], ∅⟩]⟩
  filters := ⟨true, some "example.com".toList, none, none, none, none⟩

/-- A connection to the port of HTTP. -/
def plainConnection : SocketData := ⟨⟨.v4 0, 50000⟩, ⟨.v4 0, 80⟩, false⟩

/-- A request for the root of a host. -/
def rootRequest (header : Str) : SchemeRequest where
  version := .http11
  host := none
  request := ⟨Method.get, ⟨['/'], none, rootPath_no_question⟩, [(host, asciiBytes header)]⟩
  originalUrl := none
  scheme := none

/-- With a port the redirect converges. -/
theorem converges_withPort :
    Converges buildsAll (rootRequest "example.com:80".toList) "example.com:80".toList
      ⟨"http".toList, "www.example.com:80".toList, "/".toList⟩ := by
  refine (converges_iff buildsAll defaultPorts exampleConfiguration plainConnection
    (rootRequest "example.com:80".toList) ⟨"http".toList, "www.example.com:80".toList, "/".toList⟩
    "example.com:80".toList (by decide) (by rfl)).2 ⟨⟨by decide, by decide⟩, ?_⟩
  intro location hlocation
  nomatch hlocation

/-- Without a port a request is redirected to where it came from. -/
theorem requestHandler_withoutPort :
    askedHost (rootRequest "example.com".toList) = some "example.com".toList ∧
      requestHandler buildsAll defaultPorts exampleConfiguration plainConnection
        (rootRequest "example.com".toList) =
          .redirect .www ⟨"http".toList, "example.com".toList, "/".toList⟩ :=
  ⟨by decide, by rfl⟩

end Ferron.Modules.CoreRedirects
