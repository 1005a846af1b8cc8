import RestCache.Foundation.Transition
import RestCache.Foundation.UniqueDecoding
import RestCache.Foundation.UriComponent
import RestCache.Keys.EscapeKeyPart
import RestCache.Redis.Cluster
import RestCache.Redis.Tracking
import RestCache.Redis.UntrackDead
import RestCache.Redis.FreshPass
import RestCache.Foundation.JsonText
import RestCache.Foundation.CaseMapping
import RestCache.Foundation.PosixPath
import RestCache.Foundation.RegExp
import RestCache.Keys.AuthKey
import RestCache.Keys.CacheKey
import RestCache.Recv.Coalescing
import RestCache.Config.RouteRegExp
import RestCache.Recv.Advertised
import RestCache.Recv.Answers
import RestCache.Recv.AnswersAgree
import RestCache.Recv.CallerIsolation
import RestCache.Recv.EtagPair
import RestCache.Recv.RoleDeletion
import RestCache.Router.Dispatch
import RestCache.Router.RoutePath
import RestCache.Config.PurgeReach
import RestCache.Config.MixedPattern
import RestCache.Config.RelatedPurge
import RestCache.Config.StaticPattern
import RestCache.Config.ConstraintPattern
import RestCache.Invalidation.RawWrites
import RestCache.Invalidation.RoutedWrite
import RestCache.Store.ExactPurge
import RestCache.Recv.OneOriginCall
import RestCache.Recv.SickCache
import RestCache.Recv.ReplayedType
import RestCache.Admin.ClientCache
import RestCache.Strategy.SharedRoutes
import RestCache.Strategy.OmittedOptions
import RestCache.Boot.DefaultRoutes
import RestCache.Store.Dashboard
import RestCache.Redis.Provider
import RestCache.Redis.FailedCommands
import RestCache.Strategy.DeepFreeze
import RestCache.Recv.Directives
import RestCache.Admin.DocumentPurge
import RestCache.Invalidation.DocumentWrites
import RestCache.Boot.ResetOnListen
