import Ferron.Common.IpDisplay
import Ferron.Rust.LinkedHashMap
import Ferron.Yaml2Kdl.HostConfiguration

/-!
# The conversion of a YAML configuration

`convertYamlToKdl` makes a KDL document of a YAML configuration: first the block that is global only, then
one block for each SNI hostname, then the global section and the hosts, each with a block for the secure
port behind it when there is something for HTTPS in it.
-/

set_option autoImplicit false

namespace Ferron.Yaml2Kdl

open Ferron.Common Ferron.Config

/-- A top-level block. -/
def block (name : Str) (children : KdlDocument) : KdlNode := ⟨name, [], some children⟩

/-! ## The global configuration -/

/-- The properties in `http2Settings`. -/
def http2Translations : List Translation := [
  ⟨"initialWindowSize", none, "h2_initial_window_size", integer⟩,
  ⟨"maxFrameSize", none, "h2_max_frame_size", integer⟩,
  ⟨"maxConcurrentStreams", none, "h2_max_concurrent_streams", integer⟩,
  ⟨"maxHeaderListSize", none, "h2_max_header_list_size", integer⟩,
  ⟨"enableConnectProtocol", none, "h2_enable_connect_protocol", boolean⟩]

/-- `useAutomaticTLSHTTPChallenge`. -/
def useAutomaticTlsHttpChallenge (value : Yaml) : List Arguments :=
  (value.asBool.map fun value =>
    { values := [.string (if value then "http-01".toList else "tls-alpn-01".toList)] }).toList

/-- The global properties that become directives one by one. -/
def globalTranslations : List Translation := [
  ⟨"logFilePath", none, "log", text⟩,
  ⟨"errorLogFilePath", none, "error_log", text⟩,
  ⟨"useClientCertificate", none, "tls_client_certificate", boolean⟩,
  ⟨"cipherSuite", none, "tls_cipher_suite", texts⟩,
  ⟨"ecdhCurve", none, "tls_ecdh_curves", texts⟩,
  ⟨"tlsMinVersion", none, "tls_min_version", text⟩,
  ⟨"tlsMaxVersion", none, "tls_max_version", text⟩,
  ⟨"blocklist", none, "block", texts⟩,
  ⟨"enableOCSPStapling", none, "ocsp_stapling", boolean⟩,
  ⟨"automaticTLSContactEmail", none, "auto_tls_contact", text⟩,
  ⟨"automaticTLSContactCacheDirectory", none, "auto_tls_cache", text⟩,
  ⟨"automaticTLSLetsEncryptProduction", none, "auto_tls_letsencrypt_production", flag⟩,
  ⟨"useAutomaticTLSHTTPChallenge", none, "auto_tls_challenge", useAutomaticTlsHttpChallenge⟩,
  ⟨"timeout", none, "timeout", integerOrNull⟩,
  ⟨"loadBalancerHealthCheckWindow", some "rproxy", "lb_health_check_window", integer⟩,
  ⟨"maximumCacheEntries", some "cache", "cache_max_entries", integerOrNull⟩,
  ⟨"wsgiClearModuleImportPath", some "wsgi", "wsgi_clear_imports", boolean⟩,
  ⟨"asgiClearModuleImportPath", some "asgi", "asgi_clear_imports", boolean⟩]

/-- The modules that have a global directive of their own. -/
def moduleDirectives : List (String × String) :=
  [("cgi", "cgi"), ("cache", "cache"), ("example", "example_handler"), ("fproxy", "forward_proxy")]

/-- What is made of the global properties so far. -/
structure GlobalConfiguration where
  nodes : KdlDocument
  sniConfiguration : KdlDocument := []
  port : Int := 80
  securePort : Int := 443
  secure : Bool := false
  enableHttp2 : Bool := true
  enableHttp3 : Bool := false
  cert : Option Str := none
  key : Option Str := none
  disableNonEncryptedServer : Bool := false
  environmentVariables : LinkedHashMap Str Str := .new
  automaticTls : Bool := false

/-- `loadModules`: the names of the modules. -/
def loadServerModules (globalProperties : List (Yaml × Yaml)) : List Str :=
  (((Yaml.get globalProperties "loadModules").bind Yaml.asVec).getD []).filterMap Yaml.asStr

/-- The directives of the modules that have one. -/
def moduleNodes (modules : List Str) : KdlDocument :=
  modules.filterMap fun module =>
    (moduleDirectives.find? fun entry => entry.1.toList = module).map fun entry =>
      directive entry.2 ⟨[], []⟩

/-- The block of an SNI hostname with a certificate and a key. -/
def sniBlock (entry : Yaml × Yaml) : Option KdlNode :=
  entry.1.asStr.bind fun sniHostname =>
    (entry.2.index "cert").asStr.bind fun sniCert =>
      (entry.2.index "key").asStr.map fun sniKey =>
        block sniHostname [directive "auto_tls" ⟨[.bool false], []⟩,
          directive "tls" ⟨[.string sniCert, .string sniKey], []⟩]

/-- The environment variables of a mapping. -/
def insertVariables (value : Yaml) (environment : LinkedHashMap Str Str) : LinkedHashMap Str Str :=
  value.properties.foldl (fun environment (name, value) =>
    match name.asStr, value.asStr with
    | some name, some value => environment.insert name value
    | _, _ => environment) environment

/-- A global property. -/
def GlobalConfiguration.apply (modules : List Str) (config : GlobalConfiguration)
    (entry : Yaml × Yaml) : GlobalConfiguration :=
  match entry.1.asStr with
  | none => config
  | some property =>
      let value := entry.2
      if property = "port".toList then { config with port := value.asI64.getD config.port }
      else if property = "sport".toList then
        { config with securePort := value.asI64.getD config.securePort }
      else if property = "secure".toList then
        { config with secure := value.asBool.getD config.secure }
      else if property = "http2Settings".toList then
        { config with nodes := config.nodes ++ value.properties.flatMap fun (setting, value) =>
            (setting.asStr.map fun setting =>
              translate http2Translations modules setting value).getD [] }
      else if property = "enableHTTP2".toList then
        { config with enableHttp2 := value.asBool.getD config.enableHttp2 }
      else if property = "enableHTTP3".toList then
        { config with enableHttp3 := value.asBool.getD config.enableHttp3 }
      else if property = "cert".toList then { config with cert := value.asStr.or config.cert }
      else if property = "key".toList then { config with key := value.asStr.or config.key }
      else if property = "sni".toList then
        { config with
          sniConfiguration := config.sniConfiguration ++ value.properties.filterMap sniBlock }
      else if property = "disableNonEncryptedServer".toList then
        { config with
          disableNonEncryptedServer := value.asBool.getD config.disableNonEncryptedServer }
      else if property = "environmentVariables".toList then
        { config with
          environmentVariables := insertVariables value config.environmentVariables }
      else if property = "enableAutomaticTLS".toList then
        { config with automaticTls := value.asBool.getD config.automaticTls }
      else
        { config with nodes := config.nodes ++ translate globalTranslations modules property value }

/-- The modules that get the environment variables. -/
def environmentModules : List String := ["cgi", "fcgi", "scgi", "wsgi", "wsgid"]

/-- An environment variable is put in front for each of the modules. -/
def insertEnvironment (modules : List Str) (nodes : KdlDocument) (entry : Str × Str) :
    KdlDocument :=
  environmentModules.foldl (fun nodes module =>
    if modules.contains module.toList then
      directive (module ++ "_environment") ⟨[.string entry.1, .string entry.2], []⟩ :: nodes
    else nodes) nodes

/-- The global directives: what is behind the last property is put in front. -/
def GlobalConfiguration.directives (modules : List Str) (config : GlobalConfiguration) :
    KdlDocument :=
  let nodes := config.environmentVariables.entries.foldl (insertEnvironment modules) config.nodes
  let tls := (config.cert.bind fun cert => config.key.map fun key =>
    directive "tls" ⟨[.string cert, .string key], []⟩).toList
  let protocols := [some "h1", if config.enableHttp2 then some "h2" else none,
    if config.enableHttp3 then some "h3" else none].filterMap id
  [directive "default_http_port"
      ⟨[if config.disableNonEncryptedServer then .null else .integer config.port], []⟩,
    directive "default_https_port"
      ⟨[if config.secure then .integer config.securePort else .null], []⟩,
    directive "auto_tls" ⟨if config.automaticTls then [] else [.bool false], []⟩,
    directive "protocols" ⟨protocols.map fun protocol => .string protocol.toList, []⟩] ++ tls ++ nodes

/-- `obtain_global_configuration`: the global block, the blocks of the SNI hostnames, the modules and the
secure port. -/
def obtainGlobalConfiguration (yamlConfiguration : Yaml) :
    KdlNode × List KdlNode × List Str × UInt16 :=
  let globalProperties := (yamlConfiguration.index "global").properties
  let modules := loadServerModules globalProperties
  let config := globalProperties.foldl (GlobalConfiguration.apply modules)
    { nodes := moduleNodes modules }
  (block "*".toList (config.directives modules), config.sniConfiguration, modules,
    asU16 config.securePort)

/-! ## The document -/

/-- The name of a host: its domain, without a port behind it, or its IP address. -/
def hostName (host : Yaml) : Option Str :=
  match (host.index "domain").asStr with
  | some domain =>
      match rsplitOnce ':' domain with
      | some (front, back) => if (parseU16 back).isSome then some front else some domain
      | none => some domain
  | none => (host.index "ip").asStr

/-- The name of the block of a host for the secure port. -/
def secureName (name : Str) (securePort : UInt16) : Str :=
  name ++ ":".toList ++ displayNat 10 securePort.toNat

/-- The blocks of a section: one for all ports and one for the secure port, when there is something in
them. -/
def sectionBlocks (name : Str) (securePort : UInt16) (config : KdlDocument)
    (secureConfig : Option KdlDocument) : KdlDocument :=
  (if config.isEmpty then [] else [block name config]) ++
    (secureConfig.map (block (secureName name securePort))).toList

/-- `convert_yaml_to_kdl`, from the YAML configuration on. -/
def convertYamlToKdl (order : HeaderOrder) (yamlConfiguration : Yaml) : KdlDocument :=
  let (globalConfiguration, sniConfigurations, modules, securePort) :=
    obtainGlobalConfiguration yamlConfiguration
  let ((config, secureConfig), customHeaders) :=
    obtainHostConfiguration order modules (yamlConfiguration.index "global") ∅
  globalConfiguration :: sniConfigurations ++
    sectionBlocks "*".toList securePort config secureConfig ++
    ((yamlConfiguration.index "hosts").asVec.getD []).flatMap fun host =>
      match hostName host with
      | none => []
      | some name =>
          let (config, secureConfig) := (obtainHostConfiguration order modules host customHeaders).1
          sectionBlocks name securePort config secureConfig

end Ferron.Yaml2Kdl
