import Ferron.Common.MatchLocation
import Ferron.Common.Config
import Ferron.Modules.CgiResponse
import Ferron.Modules.FcgiDecoder
import Ferron.Modules.CgiHead
import Ferron.Lib.Framing
import Ferron.Modules.FcgiRecords
import Ferron.Config.Premerge
import Ferron.Modules.Cache
import Ferron.Modules.BodyReplacer
import Ferron.Modules.ReplacedTrailers
import Ferron.Modules.Replace
import Ferron.Modules.CacheKey
import Ferron.Modules.StaticTraversal
import Ferron.Modules.TrailingRedirect
import Ferron.Modules.ScriptLookup
import Ferron.Modules.StaticLookup
import Ferron.Modules.PathTransparency
import Ferron.RequestHandler
import Ferron.HandlerOrder
import Ferron.Util.SplitStreamByMap
import Ferron.Util.ProxyProtocol
import Ferron.Modules.RemoveBase
import Ferron.Modules.ReverseProxy
import Ferron.Config.ErrorConfiguration
import Ferron.Config.FindConfiguration
import Ferron.Config.NestedBlocks
import Ferron.Modules.CacheIsolation
import Ferron.Modules.PathConfinement
import Ferron.Modules.RoundRobin
import Ferron.Modules.Limit
import Ferron.Modules.ConnectionTrack
import Ferron.Config.MatchCondition
import Ferron.Modules.ForwardedHeaders
import Ferron.HeaderDirectives
import Ferron.Modules.BruteForce
import Ferron.Common.ModuleCache
import Ferron.Modules.CgiEnvironment
import Ferron.Modules.FcgiParams
import Ferron.Config.EmptyBlocks
import Ferron.Lib.Fuel
import Ferron.Lib.Expansion
import Ferron.Config.LoadSimulation
import Ferron.Config.Snippets
import Ferron.Lib.Overwrite
import Ferron.Acme.AcmeCache
import Ferron.Modules.BasicAuth
import Ferron.HostLookup
import Ferron.RequestRouting
import Ferron.Modules.HealthChecks
import Ferron.Lib.LabelledLines
import Ferron.Modules.CacheReuse
import Ferron.Modules.CacheVary
import Ferron.Modules.CacheLifetime
import Ferron.ResponseHeaders
import Ferron.CachedHeaders
import Ferron.Lib.History
import Ferron.Acme.Renewal
import Ferron.Yaml2Kdl.Yaml
import Ferron.Yaml2Kdl.HostConfiguration
import Ferron.Yaml2Kdl.Convert
import Ferron.Config.YamlLegacy
import Ferron.Util.SanitizedShape
import Ferron.Rust.U64
import Ferron.Modules.RangeRequests
import Ferron.Lib.Template
import Ferron.Common.PlaceholderLoops
import Ferron.Config.GlobalConfiguration
import Ferron.Config.WrittenCodes
import Ferron.Config.ErrorScopes
import Ferron.Config.SnippetUses
import Ferron.Config.LoadTermination
import Ferron.Lib.SortedSearch
import Ferron.TlsUtil
import Ferron.Modules.Rewrite
import Ferron.Modules.CoreRedirects
import Ferron.Common.IpListMembership
import Ferron.Config.Validation
import Ferron.Modules.Blocklist
import Ferron.Modules.StatusRules
import Ferron.Modules.LeastConnections
import Ferron.Modules.LoadBalancing
import Ferron.Modules.CgiStatus
import Ferron.Lib.Netstring
import Ferron.Modules.ScgiRequest
import Ferron.Modules.EntityTags
import Ferron.Modules.Precompressed
import Ferron.Modules.ForwardedAuth
import Ferron.Lib.FairRun
import Ferron.Common.MonoioFileStream
import Ferron.Modules.Buffer
import Ferron.Modules.CacheLimit
import Ferron.Config.LanguageChoice
import Ferron.Lib.FirstMatch
import Ferron.Config.MappedAddresses
import Ferron.Modules.StatusOrder
import Ferron.Modules.AcceptEncoding
import Ferron.Modules.DynamicCompression
import Ferron.Lib.Markup
import Ferron.Modules.DirectoryListing
import Ferron.Lib.Reader
import Ferron.Rust.Net
import Ferron.Config.HostSpecifier
import Ferron.Observability.TraceSpans
import Ferron.Common.ConditionOrder
import Ferron.Acme.ChallengeLists
import Ferron.Acme.Provision
import Ferron.Acme.RecordCleanUp
import Ferron.Acme.OneAccount
import Ferron.Observability.LogFile
import Ferron.HeadersInForce
import Ferron.Acme.CertificateOrigin
import Ferron.Lib.KeyedList
import Ferron.Yaml2Kdl.SectionNodes
import Ferron.Yaml2Kdl.SectionDocument
import Ferron.Yaml2Kdl.SameDocument
import Ferron.Yaml2Kdl.SectionOrder
import Ferron.Yaml2Kdl.GlobalOrder
import Ferron.Yaml2Kdl.KeyOrder
import Ferron.Common.QValueHeader
import Ferron.Config.InheritedValues
import Ferron.Yaml2Kdl.ConvertedDocument
import Ferron.Lib.Layers
import Ferron.Yaml2Kdl.SectionParts
import Ferron.Yaml2Kdl.GlobalValues
import Ferron.Yaml2Kdl.ConfigurationParts
import Ferron.Yaml2Kdl.GlobalProperty
import Ferron.Lib.Reconcile
import Ferron.Server.Listeners
import Ferron.Lib.Failure
import Ferron.Server.Reloads
import Ferron.Lib.LockedUpdates
import Ferron.Server.OnDemand
import Ferron.Lib.JsonStrings
import Ferron.Server.OnDemandRuns
import Ferron.Modules.SendNetIo
import Ferron.Lib.Workers
import Ferron.Config.ModuleLoading
import Ferron.Config.LoadedModules
