import PredictorService.Lib.Runs
import PredictorService.Lib.FinMap
import PredictorService.Common.Util
import PredictorService.ServiceRouter.Entity
import PredictorService.ServiceRouter.Thrift
import PredictorService.ServiceRouter.RouterDb
import PredictorService.ServiceRouter.RouterDbProofs
import PredictorService.Thirdparty.City
import PredictorService.ServiceRouter.UpdateRace
import PredictorService.Lib.Outbox
import PredictorService.ServiceRouter.ConnectionPool
import PredictorService.ServiceRouter.Registry
import PredictorService.ServiceRouter.RegistryNodes
import PredictorService.ServiceRouter.RegistryDiscover
import PredictorService.ServiceRouter.RegistryConfig
import PredictorService.Lib.TaskPool
import PredictorService.Server.HttpService
import PredictorService.Server.RequestSets
import PredictorService.Server.Reconcile
import PredictorService.Server.RegisterWaits
import PredictorService.Server.ExactRequest
import PredictorService.Lib.Futures
import PredictorService.Server.ModelManager
import PredictorService.Server.ModelManagerProofs
import PredictorService.Server.PredictorRouter
import PredictorService.Server.SplitRequest
import PredictorService.Server.SliceIdentity
import PredictorService.Server.ServedVersion
import PredictorService.ServiceRouter.Heartbeat
import PredictorService.ServiceRouter.FailedUnregister
import PredictorService.ServiceRouter.HeartbeatLock
import PredictorService.ServiceRouter.LoadBalance
import PredictorService.ServiceRouter.BalancerCache
import PredictorService.Lib.Windows
import PredictorService.ServiceRouter.RoundRobin
import PredictorService.ServiceRouter.EdgeNodes
import PredictorService.ServiceRouter.BatchDiscover
import PredictorService.ServiceRouter.ServerKeys
import PredictorService.Server.Bookkeeping
import PredictorService.Server.ServiceMap
import PredictorService.Server.Models
import PredictorService.Server.ParallelPredict
import PredictorService.Lib.SortedMap
import PredictorService.BuildTools.EntityGenerator
import PredictorService.Lib.Loops
import PredictorService.BuildTools.EntityCodec
import PredictorService.BuildTools.EntityRoundTrips
import PredictorService.ServiceRouter.ServerCodec
import PredictorService.Lib.MachineInts
import PredictorService.ServiceRouter.StaticWeight
import PredictorService.ServiceRouter.ThriftRetry
import PredictorService.ServiceRouter.Locality
import PredictorService.Lib.Wheel
import PredictorService.ServiceRouter.WeightedRoundRobin
import PredictorService.ServiceRouter.WeightedFairness
import PredictorService.ServiceRouter.HostAddress
import PredictorService.Lib.Rounding
import PredictorService.Server.ThreadCounts
import PredictorService.Common.Metrics
import PredictorService.ServiceRouter.ShardRoles
import PredictorService.Server.RouterDispatch
import PredictorService.Server.WorkMode
import PredictorService.Lib.Ring
import PredictorService.Server.PostBody
import PredictorService.ServiceRouter.FileRegistry
import PredictorService.ServiceRouter.FileUpdates
import PredictorService.ServiceRouter.HeartbeatInterval
import PredictorService.ServiceRouter.DefaultShard
import PredictorService.ServiceRouter.ConfigKeys
import PredictorService.BuildTools.EntityStrictness
import PredictorService.ServiceRouter.ServerStrictness
import PredictorService.Server.SelfForward
import PredictorService.FeatureMaster.Feature
import PredictorService.FeatureMaster.Parameter
import PredictorService.FeatureMaster.ParameterConfig
import PredictorService.FeatureMaster.ParameterExtractor
import PredictorService.FeatureMaster.CrossFeatures
import PredictorService.FeatureMaster.Extraction
import PredictorService.FeatureMaster.ParameterSigns
import PredictorService.FeatureMaster.ReInit
import PredictorService.FeatureMaster.Buckets
import PredictorService.Lib.Rejoin
import PredictorService.Server.TfModel
import PredictorService.Lib.Writes
import PredictorService.Server.TfEstimators
import PredictorService.Server.BatchVector
import PredictorService.Server.SlicePartition
import PredictorService.Server.FeatureIndex
import PredictorService.Lib.Delimited
import PredictorService.Server.ModelNames
import PredictorService.Lib.Csr
import PredictorService.Server.XGBoost
import PredictorService.ServiceFramework.HttpServerManager
import PredictorService.ServiceFramework.HttpClientManager
import PredictorService.Common.Meter
import PredictorService.Server.Service
import PredictorService.Sdk.ServiceCall
import PredictorService.Sdk.PredictorClient
import PredictorService.Sdk.EndToEnd
import PredictorService.Sdk.RouterNetwork
import PredictorService.Lib.Dag
import PredictorService.Lib.Worklist
import PredictorService.Lib.Normpath
import PredictorService.BuildTools.DependencyAnalyzer
import PredictorService.BuildTools.TopologicalSort
import PredictorService.BuildTools.BuildFile
import PredictorService.BuildTools.LoadTargets
import PredictorService.ServiceRouter.RegistrySources
import PredictorService.ServiceRouter.Network
import PredictorService.ServiceRouter.Convergence
import PredictorService.BuildTools.TestScheduler
import PredictorService.BuildTools.TestRunner
