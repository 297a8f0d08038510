import TokenDog.Lib.Scan
import TokenDog.Policies.Basic
import TokenDog.Policies.LoadOnly
import TokenDog.Policies.Affinity
import TokenDog.Policies.LoadCacheAware
import TokenDog.Policies.Balancer
import TokenDog.Policies.Padding
import TokenDog.QueueBound
import TokenDog.Worker
import TokenDog.Server
import TokenDog.Selection
import TokenDog.Lib.Runs
import TokenDog.Lib.Lockstep
import TokenDog.StaticRuns
import TokenDog.CacheCredit
import TokenDog.HealthFiltering
import TokenDog.Discovery.Pools
import TokenDog.K8sRuns
import TokenDog.ModeSimulation
import TokenDog.LoadAttribution
import TokenDog.Lib.Ledger
import TokenDog.Discovery.Pods
import TokenDog.Discovery.Handlers
import TokenDog.Discovery.Agreement
import TokenDog.Discovery.Sections
import TokenDog.Discovery.Interleaving
import TokenDog.Discovery.Selectors
import TokenDog.Discovery.Uniqueness
import TokenDog.Discovery.Reconciliation
import TokenDog.Discovery.StaleSnapshots
import TokenDog.Lib.SetUpdate
import TokenDog.Lib.Interleaved
import TokenDog.Middleware.Context
import TokenDog.Runtime
import TokenDog.Middleware.Handler
import TokenDog.Accounting
import TokenDog.Middleware.ProxyAccounting
import TokenDog.Routes.Prefill
import TokenDog.Routes.LogprobsMerge
import TokenDog.Routes.PdHandler
import TokenDog.Routes.PdAccounting
import TokenDog.Routes.Delivery
import TokenDog.Routes.Framing
import TokenDog.Routes.WorkerUrls
import TokenDog.Routes.Bootstrap
import TokenDog.Policies.JoinShortestQueue
import TokenDog.SessionStability
import TokenDog.Lib.Files
import TokenDog.Config.Logging
import TokenDog.Lib.Mutex
import TokenDog.Config.Rotation
import TokenDog.Config.RotationBound
import TokenDog.Config.FailedRotation
import TokenDog.Routes.Fallback
import TokenDog.Rebuilds
import TokenDog.Config.Auth
import TokenDog.Lib.Histories
import TokenDog.Routes.ErrorReports
import TokenDog.Routes.RequestLine
import TokenDog.Routes.Transparency
import TokenDog.Policies.CacheScores
import TokenDog.Json.Paths
import TokenDog.Routes.MergeFrame
import TokenDog.Routes.MergedArrays
import TokenDog.Json.Entries
import TokenDog.Routes.PrefillLimits
import TokenDog.Middleware.RoutingKeys
import TokenDog.Lib.Residues
import TokenDog.Policies.Fairness
import TokenDog.Health.Objects
import TokenDog.Health.Rounds
import TokenDog.Health.Selections
import TokenDog.Config.SelectorText
import TokenDog.Config.Settings
import TokenDog.Lib.Conservation
import TokenDog.Health.Reports
import TokenDog.Discovery.Watcher
import TokenDog.Gateway
import TokenDog.Lib.Exchanges
import TokenDog.Routes.Protocol
import TokenDog.Provision
import TokenDog.GatewayAccounting
import TokenDog.Lib.Draining
import TokenDog.Config.Bindings
import TokenDog.Config.CommandLine
import TokenDog.Routes.Admission
import TokenDog.Health.Unfailing
import TokenDog.PolicyRuns
import TokenDog.LoadRuns
import TokenDog.Routes.Serving
import TokenDog.CacheRuns
import TokenDog.Recovery
import TokenDog.Tenure
