import Spacegate.Kernel.ActiveRequests
import Spacegate.Kernel.BackendBalance
import Spacegate.Kernel.FallbackRequest
import Spacegate.Kernel.HostnameTreeValues
import Spacegate.Kernel.Listener
import Spacegate.Kernel.QueryPairs
import Spacegate.Kernel.RouteOrder
import Spacegate.Kernel.StaticFileServed
import Spacegate.Kernel.XRequestId
import Spacegate.Config.FsConcurrent
import Spacegate.Config.FsConfined
import Spacegate.Config.FsCreateRoute
import Spacegate.Config.HigressUrl
import Spacegate.Config.K8sFilterRuns
import Spacegate.Config.K8sListen
import Spacegate.Config.K8sPlugins
import Spacegate.Config.K8sSecrets
import Spacegate.Config.RedisNames
import Spacegate.Config.RedisPluginKey
import Spacegate.Shell.GatewayEvents
import Spacegate.Shell.KubePluginOrder
import Spacegate.AdminServer.VersionControl
import Spacegate.Plugin.PluginRepository
import Spacegate.Plugin.RedisCount
import Spacegate.Plugin.RedisKeys
import Spacegate.Plugin.RedisLimit
import Spacegate.AiGateway.CallbackEntries
import Spacegate.AiGateway.CompletedAt
import Spacegate.AiGateway.EnqueueFailure
import Spacegate.AiGateway.Metrics
import Spacegate.AiGateway.QueueAck
import Spacegate.AiGateway.QueueAttempts
import Spacegate.AiGateway.QueueBodies
import Spacegate.AiGateway.QueuePlugin
import Spacegate.AiGateway.QueueRepeat
import Spacegate.AiGateway.RuleListing
import Spacegate.AiGateway.UploadEnds
import Spacegate.AiGateway.WaitHub
import Spacegate.PluginWasm.BearerChallenge
import Spacegate.PluginWasm.CallResponses
import Spacegate.PluginWasm.ContextTable
import Spacegate.PluginWasm.FreshIds
import Spacegate.PluginWasm.HeaderCalls
import Spacegate.PluginWasm.ModuleCache
import Spacegate.PluginWasm.PausedRequests
import Spacegate.PluginWasm.SharedData
import Spacegate.PluginWasm.SharedMetrics
import Spacegate.PluginWasm.SharedQueues
import Spacegate.PluginWasm.VmResponses
