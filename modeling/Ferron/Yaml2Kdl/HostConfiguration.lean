import Ferron.Config.Kdl
import Ferron.Rust.Collections
import Ferron.Yaml2Kdl.Yaml

/-!
# The conversion of a section

`obtainHostConfiguration` converts the global section, a host, a location or an error configuration. Most
properties become directives one by one: these are the rows of `hostTranslations`. The handlers for SCGI,
FastCGI, WSGI and ASGI are made of several properties, and with a path they become a location. What is for
HTTPS only is collected in a document of its own.

The nodes are those of the document, without the comments in front of them.
-/

set_option autoImplicit false

namespace Ferron.Yaml2Kdl

open Ferron.Config

/-! ## Directives -/

/-- What stands behind the name of a directive. -/
structure Arguments where
  values : List KdlValue
  props : List (String × KdlValue) := []

/-- A directive. -/
def directive (name : String) (arguments : Arguments) : KdlNode where
  name := name.toList
  entries := arguments.values.map (fun value => ⟨none, value⟩) ++
    arguments.props.map fun prop => ⟨some prop.1.toList, prop.2⟩
  children := none

/-- A Boolean value, which is left out when it is true. -/
def flag (value : Yaml) : List Arguments :=
  match value.asBool with
  | none => []
  | some value => [{ values := if value then [] else [.bool false] }]

/-- A Boolean value. -/
def boolean (value : Yaml) : List Arguments :=
  (value.asBool.map fun value => { values := [.bool value] }).toList

/-- A text. -/
def text (value : Yaml) : List Arguments :=
  (value.asStr.map fun value => { values := [.string value] }).toList

/-- An integer. -/
def integer (value : Yaml) : List Arguments :=
  (value.asI64.map fun value => { values := [.integer value] }).toList

/-- An integer or nothing. -/
def integerOrNull (value : Yaml) : List Arguments :=
  match value.asI64 with
  | some value => [{ values := [.integer value] }]
  | none => if value.isNull then [{ values := [.null] }] else []

/-- Some arguments for each item of a sequence. -/
def each (arguments : Yaml → Option Arguments) (value : Yaml) : List Arguments :=
  (value.asVec.getD []).filterMap arguments

/-- The texts of a sequence. -/
def texts : Yaml → List Arguments :=
  each fun item => item.asStr.map fun item => { values := [.string item] }

/-- A text or the texts of a sequence. -/
def textOrTexts (value : Yaml) : List Arguments :=
  match value.asStr with
  | some value => [{ values := [.string value] }]
  | none => texts value

/-- A property with a Boolean value, which may be the negation of the one that is given. -/
def boolProp (name : String) (value : Yaml) (change : Bool → Bool) : List (String × KdlValue) :=
  (value.asBool.map fun value => (name, .bool (change value))).toList

/-- A property with a text. -/
def textProp (name : String) (value : Yaml) : List (String × KdlValue) :=
  (value.asStr.map fun value => (name, .string value)).toList

/-- A property with the texts of a sequence, between commas. -/
def joinedProp (name : String) (value : Yaml) : List (String × KdlValue) :=
  (value.asVec.map fun items =>
    (name, .string (List.intercalate ",".toList (items.filterMap Yaml.asStr)))).toList

/-- `rewriteMap`. -/
def rewriteMap : Yaml → List Arguments :=
  each fun value => (value.index "regex").asStr.bind fun regex =>
    (value.index "replacement").asStr.map fun replacement =>
      { values := [.string regex, .string replacement]
        props := boolProp "file" (value.index "isNotFile") (!·) ++
          boolProp "directory" (value.index "isNotDirectory") (!·) ++
          boolProp "allow_double_slashes" (value.index "allowDoubleSlashes") id ++
          boolProp "last" (value.index "last") id }

/-- `users`. -/
def users : Yaml → List Arguments :=
  each fun value => (value.index "name").asStr.bind fun user =>
    (value.index "pass").asStr.map fun pass => { values := [.string user, .string pass] }

/-- `nonStandardCodes`. -/
def nonStandardCodes : Yaml → List Arguments :=
  each fun value => (value.index "scode").asI64.map fun scode =>
    { values := [.integer scode]
      props := textProp "url" (value.index "url") ++ textProp "regex" (value.index "regex") ++
        textProp "location" (value.index "location") ++ textProp "realm" (value.index "realm") ++
        boolProp "brute_protection" (value.index "disableBruteProtection") (!·) ++
        joinedProp "users" (value.index "userList") ++ joinedProp "allowed" (value.index "users") }

/-- `errorPages`. -/
def errorPages : Yaml → List Arguments :=
  each fun value => (value.index "scode").asI64.bind fun scode =>
    (value.index "path").asStr.map fun path => { values := [.integer scode, .string path] }

/-- `cgiScriptInterpreters`. -/
def cgiScriptInterpreters (value : Yaml) : List Arguments :=
  value.properties.filterMap fun (extension, interpreter) =>
    extension.asStr.bind fun extension =>
      match interpreter.asVec with
      | some interpreter =>
          some { values := .string extension ::
            (interpreter.filterMap Yaml.asStr).map KdlValue.string }
      | none => if interpreter.isNull then some { values := [.string extension, .null] } else none

/-- `disableProxyXForwarded`. -/
def disableProxyXForwarded (value : Yaml) : List Arguments :=
  if value.asBool = some true then
    ["X-Forwarded-For", "X-Forwarded-Proto", "X-Forwarded-Host"].map fun header =>
      { values := [.string header.toList] }
  else []

/-! ## Properties that become directives -/

/-- How a property becomes directives of one name, when a module is loaded, if it is of one. -/
structure Translation where
  property : String
  module : Option String
  name : String
  arguments : Yaml → List Arguments

/-- The directives for a value. -/
def Translation.nodes (translation : Translation) (modules : List Str) (value : Yaml) : KdlDocument :=
  if translation.module.all fun module => modules.contains module.toList then
    (translation.arguments value).map (directive translation.name)
  else []

/-- The directives for a property, if it is one of the translations. -/
def translate (translations : List Translation) (modules : List Str) (property : Str) (value : Yaml) :
    KdlDocument :=
  match translations.find? fun translation => translation.property.toList = property with
  | some translation => translation.nodes modules value
  | none => []

/-- The properties of a section that become directives one by one. -/
def hostTranslations : List Translation := [
  ⟨"serverAdministratorEmail", none, "server_administrator_email", text⟩,
  ⟨"disableToHTTPSRedirect", none, "no_redirect_to_https", flag⟩,
  ⟨"wwwredirect", none, "wwwredirect", flag⟩,
  ⟨"enableIPSpoofing", none, "trust_x_forwarded_for", flag⟩,
  ⟨"allowDoubleSlashes", none, "allow_double_slashes", flag⟩,
  ⟨"rewriteMap", none, "rewrite", rewriteMap⟩,
  ⟨"enableRewriteLogging", none, "rewrite_log", flag⟩,
  ⟨"wwwroot", none, "root", text⟩,
  ⟨"disableTrailingSlashRedirects", none, "no_trailing_redirect", flag⟩,
  ⟨"users", none, "user", users⟩,
  ⟨"nonStandardCodes", none, "status", nonStandardCodes⟩,
  ⟨"errorPages", none, "error_page", errorPages⟩,
  ⟨"enableETag", none, "etag", flag⟩,
  ⟨"enableCompression", none, "compressed", flag⟩,
  ⟨"enableDirectoryListing", none, "directory_listing", flag⟩,
  ⟨"proxyTo", some "rproxy", "proxy", textOrTexts⟩,
  ⟨"cacheVaryHeaders", some "cache", "cache_vary", texts⟩,
  ⟨"cacheIgnoreHeaders", some "cache", "cache_ignore", texts⟩,
  ⟨"maximumCacheResponseSize", some "cache", "cache_max_response_size", integerOrNull⟩,
  ⟨"cgiScriptExtensions", some "cgi", "cgi_extension", texts⟩,
  ⟨"cgiScriptInterpreters", some "cgi", "cgi_interpreter", cgiScriptInterpreters⟩,
  ⟨"authTo", some "fauth", "auth_to", text⟩,
  ⟨"forwardedAuthCopyHeaders", some "fauth", "auth_to_copy", texts⟩,
  ⟨"enableLoadBalancerHealthCheck", some "rproxy", "lb_health_check", flag⟩,
  ⟨"loadBalancerHealthCheckMaximumFails", some "rproxy", "lb_health_check_max_fails", integer⟩,
  ⟨"disableProxyCertificateVerification", some "rproxy", "proxy_no_verification", flag⟩,
  ⟨"proxyInterceptErrors", some "rproxy", "proxy_intercept_errors", flag⟩,
  ⟨"disableProxyXForwarded", some "rproxy", "proxy_request_header_remove", disableProxyXForwarded⟩]

/-- `secureProxyTo`, for the document that is for HTTPS. -/
def secureProxyTo : Translation := ⟨"secureProxyTo", some "rproxy", "proxy", textOrTexts⟩

/-! ## The handlers -/

/-- A text that is kept until the handlers are made. -/
inductive Setting where
  | scgiTo
  | scgiPath
  | fcgiTo
  | fcgiPath
  | wsgiApplicationPath
  | wsgiPath
  | wsgidApplicationPath
  | wsgidPath
  | asgiApplicationPath
  | asgiPath
  deriving DecidableEq

namespace Setting

/-- The property that sets it. -/
def property : Setting → String
  | scgiTo => "scgiTo"
  | scgiPath => "scgiPath"
  | fcgiTo => "fcgiTo"
  | fcgiPath => "fcgiPath"
  | wsgiApplicationPath => "wsgiApplicationPath"
  | wsgiPath => "wsgiPath"
  | wsgidApplicationPath => "wsgidApplicationPath"
  | wsgidPath => "wsgidPath"
  | asgiApplicationPath => "asgiApplicationPath"
  | asgiPath => "asgiPath"

/-- All settings. -/
def all : List Setting :=
  [scgiTo, scgiPath, fcgiTo, fcgiPath, wsgiApplicationPath, wsgiPath, wsgidApplicationPath, wsgidPath,
    asgiApplicationPath, asgiPath]

/-- The setting of a property. -/
def ofProperty (property : Str) : Option Setting :=
  all.find? fun setting => setting.property.toList = property

end Setting

/-- What is made of the properties so far. -/
structure HostSection where
  nodes : KdlDocument
  secureNodes : KdlDocument
  customHeaders : HashMap Str Str
  settings : Setting → Option Str
  fcgiScriptExtensions : List Yaml

/-- The section before its first property. -/
def HostSection.start (customHeaders : HashMap Str Str) : HostSection :=
  ⟨[], [], customHeaders, fun _ => none, []⟩

/-- The custom headers with those of a section. -/
def insertHeaders (value : Yaml) (customHeaders : HashMap Str Str) : HashMap Str Str :=
  value.properties.foldl (fun headers (name, value) =>
    match name.asStr, value.asStr with
    | some name, some value => headers.insert name value
    | _, _ => headers) customHeaders

/-- A property without sections in it. -/
def HostSection.apply (modules : List Str) (property : Str) (value : Yaml) (host : HostSection) :
    HostSection :=
  if property = "customHeaders".toList then
    { host with customHeaders := insertHeaders value host.customHeaders }
  else if property = "secureProxyTo".toList then
    { host with secureNodes := host.secureNodes ++ secureProxyTo.nodes modules value }
  else if property = "fcgiScriptExtensions".toList then
    { host with fcgiScriptExtensions := value.asVec.getD host.fcgiScriptExtensions }
  else
    match Setting.ofProperty property with
    | some setting =>
        { host with
          settings := Function.update host.settings setting (value.asStr.or (host.settings setting)) }
    | none =>
        { host with nodes := host.nodes ++ translate hostTranslations modules property value }

/-- The location for a handler with a path. -/
def handlerLocation (path : Str) (handler : KdlNode) : KdlNode :=
  { directive "location" ⟨[.string path], [("remove_base", .bool true)]⟩ with children := some [handler] }

/-- A handler, in a location when it has a path. -/
def pushHandler (path : Option Str) (handler : KdlNode) (nodes : KdlDocument) : KdlDocument :=
  match path with
  | some path => handlerLocation path handler :: nodes
  | none => nodes ++ [handler]

/-- The handler of a Python application. -/
def pushApplication (modules : List Str) (name : String) (applicationPath path : Option Str)
    (nodes : KdlDocument) : KdlDocument :=
  if modules.contains name.toList then
    match applicationPath with
    | some applicationPath => pushHandler path (directive name ⟨[.string applicationPath], []⟩) nodes
    | none => nodes
  else nodes

/-- The URL of SCGI and FastCGI when none is set. -/
def defaultTo : Str := "tcp://localhost:4000/".toList

/-- The handler for SCGI. -/
def pushScgi (modules : List Str) (host : HostSection) (nodes : KdlDocument) : KdlDocument :=
  if modules.contains "scgi".toList then
    pushHandler (host.settings .scgiPath)
      (directive "scgi" ⟨[.string ((host.settings .scgiTo).getD defaultTo)], []⟩) nodes
  else nodes

/-- The handler for FastCGI. The extensions stand outside of its location. -/
def pushFcgi (modules : List Str) (host : HostSection) (nodes : KdlDocument) : KdlDocument :=
  if modules.contains "fcgi".toList then
    let fcgiTo := KdlValue.string ((host.settings .fcgiTo).getD defaultTo)
    let extensions := (texts (.array host.fcgiScriptExtensions)).map (directive "fcgi_extension")
    match host.settings .fcgiPath with
    | some path => handlerLocation path (directive "fcgi" ⟨[fcgiTo], []⟩) :: (nodes ++ extensions)
    | none => nodes ++ [directive "fcgi" ⟨[fcgiTo], [("pass", .bool false)]⟩] ++ extensions
  else nodes

/-- How the table of custom headers is iterated. -/
abbrev HeaderOrder := HashSet.TableOrder (Str × Str)

/-- The directives for the custom headers. -/
def headerNodes (order : HeaderOrder) (customHeaders : HashMap Str Str) : KdlDocument :=
  (order.arrange (customHeaders.entries.map fun header => (header.1, header.2))).map fun header =>
    directive "header" ⟨[.string header.1, .string header.2], []⟩

/-- What is behind the last property: the handlers and the custom headers. -/
def HostSection.finish (order : HeaderOrder) (modules : List Str) (host : HostSection) :
    (KdlDocument × Option KdlDocument) × HashMap Str Str :=
  let nodes := pushScgi modules host host.nodes
  let nodes := nodes ++ headerNodes order host.customHeaders
  let nodes := pushFcgi modules host nodes
  let nodes := pushApplication modules "wsgi" (host.settings .wsgiApplicationPath)
    (host.settings .wsgiPath) nodes
  let nodes := pushApplication modules "wsgid" (host.settings .wsgidApplicationPath)
    (host.settings .wsgidPath) nodes
  let nodes := pushApplication modules "asgi" (host.settings .asgiApplicationPath)
    (host.settings .asgiPath) nodes
  ((nodes, if host.secureNodes.isEmpty then none else some host.secureNodes), host.customHeaders)

/-! ## Sections -/

/-- A location. -/
def locationNode (path : Str) (config : KdlDocument) : KdlNode :=
  { directive "location" ⟨[.string path], []⟩ with children := some config }

/-- An error configuration, with its status code if there is one. -/
def errorConfigNode (scode : Option Int) (config : KdlDocument) : KdlNode :=
  { directive "error_config" ⟨scode.toList.map KdlValue.integer, []⟩ with children := some config }

section

variable (order : HeaderOrder) (modules : List Str)

mutual

/-- `obtain_host_configuration`: the document, the one for HTTPS, and the custom headers behind it. -/
def obtainHostConfiguration :
    Yaml → HashMap Str Str → (KdlDocument × Option KdlDocument) × HashMap Str Str
  | .hash properties, customHeaders =>
      (obtainProperties properties (.start customHeaders)).finish order modules
  | _, customHeaders => (HostSection.start customHeaders).finish order modules

/-- The properties, one after the other. -/
def obtainProperties : List (Yaml × Yaml) → HostSection → HostSection
  | [], host => host
  | property :: properties, host => obtainProperties properties (obtainProperty property host)

/-- A property. -/
def obtainProperty : Yaml × Yaml → HostSection → HostSection
  | (.string property, .array items), host =>
      if property = "locations".toList then obtainLocations items host
      else if property = "errorConfig".toList then obtainErrorConfigs items host
      else host.apply modules property (.array items)
  | (.string property, value), host => host.apply modules property value
  | _, host => host

/-- `locations`, the last one first. Each is put in front. -/
def obtainLocations : List Yaml → HostSection → HostSection
  | [], host => host
  | location :: locations, host =>
      let host := obtainLocations locations host
      match (location.index "path").asStr with
      | none => host
      | some path =>
          let (config, secureConfig) := (obtainHostConfiguration location host.customHeaders).1
          { host with
            nodes := locationNode path config :: host.nodes
            secureNodes := (secureConfig.map (locationNode path)).toList ++ host.secureNodes }

/-- `errorConfig`, the last one first. What is for HTTPS is put in front of the rest. -/
def obtainErrorConfigs : List Yaml → HostSection → HostSection
  | [], host => host
  | errorConfig :: errorConfigs, host =>
      let host := obtainErrorConfigs errorConfigs host
      let (config, secureConfig) := (obtainHostConfiguration errorConfig host.customHeaders).1
      let scode := (errorConfig.index "scode").asI64
      { host with
        nodes := (secureConfig.map (errorConfigNode scode)).toList ++
          errorConfigNode scode config :: host.nodes }

end

end

end Ferron.Yaml2Kdl
