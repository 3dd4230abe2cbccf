import Vince.Transitions
import Vince.GoText
import Vince.Effects
import Vince.ConfigLex
import Vince.LexLayout
import Vince.LexTermination
import Vince.LexProgress
import Vince.LexText
import Vince.LexPositions
import Vince.LuaBlocks
import Vince.DirectiveTable
import Vince.ConfigAnalyze
import Vince.ArgumentChecks
import Vince.ConfigParse
import Vince.ParseReads
import Vince.AnalyzeCalls
import Vince.ParseForest
import Vince.ParseSoundness
import Vince.LastWrites
import Vince.ServerRules
import Vince.GoSlices
import Vince.RuleHeap
import Vince.RuleCollect
import Vince.RulePlaces
import Vince.VirtualHost
import Vince.ServerLookup
import Vince.Listeners
import Vince.LocationMatch
import Vince.Footprint
import Vince.RequestVariables
import Vince.StringTemplate
import Vince.TemplateRendering
import Vince.ProxyOptions
import Vince.ProxyDirector
import Vince.LoadSafety
import Vince.Worklist
import Vince.ConfigInclude
import Vince.PayloadIndices
import Vince.IncludeServing
import Vince.CombineIncludes
import Vince.ContextTracking
import Vince.AccessControl
import Vince.ReadModifyWrite
import Vince.PolicyStore
import Vince.ConfigBuild
import Vince.EnquoteWords
import Vince.BuildRoundTrip
import Vince.BuildComments
import Vince.IfStatements
import Vince.Census
import Vince.Buffers
import Vince.StreamProxy
import Vince.ConnManager
import Vince.Lru
import Vince.FileCache
import Vince.UnusedFiles
import Vince.CacheLogger
import Vince.BigEndian
import Vince.OrderedMap
import Vince.RaftStore
import Vince.RaftLog
import Vince.RaftIndices
import Vince.RateLimit
import Vince.RateWindows
import Vince.Binary64
import Vince.GoNumbers
import Vince.ParseRate
import Vince.KeyedWrites
import Vince.SslOptions
import Vince.UpstreamServer
import Vince.MetricLabels
import Vince.RequestReply
import Vince.OpaTxn
import Vince.Uvarint
import Vince.BadgerValues
import Vince.Utf8
import Vince.KvCommands
import Vince.OAuthContext
import Vince.OAuthStore
import Vince.OAuthRecords
import Vince.OAuthServer
import Vince.OAuthAccess
import Vince.OAuthWrites
import Vince.OAuthIssue
import Vince.OAuthErrors
import Vince.OAuthRefresh
import Vince.PathSegments
import Vince.OAuthRedirects
import Vince.OAuthFailedIssue
import Vince.OAuthNewGrants
import Vince.Rotation
import Vince.FairRounds
import Vince.SmoothWeights
import Vince.RoundRobinWeights
import Vince.UpstreamBalance
import Vince.ConnPool
import Vince.OAuthCalls
import Vince.OAuthRuns
import Vince.LimiterRaces
import Vince.CipherNames
import Vince.SliceOwners
import Vince.RequestRaces
import Vince.KvReplica
import Vince.GitPaths
import Vince.GitRepos
import Vince.ErrorFreeRuns
import Vince.FormatCommand
