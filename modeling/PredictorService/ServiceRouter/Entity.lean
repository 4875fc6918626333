/-
  PredictorService.ServiceRouter.Entity — the entities of `service_router_entity.config`
  that the router's code works on, with the defaults the generator gives them.

  The 16, 32 and 64 bit members keep their machine types. An `unordered_map` member is a
  finite map, a `vector` a list. Of `ClientOption` only what the modelled functions read
  is here.
-/

import PredictorService.Lib.FinMap

namespace PredictorService.ServiceRouter

open PredictorService.Lib (FinMap)

inductive ServerStatus where
  | available
  | unavailable
  deriving DecidableEq, Repr

inductive ServerProtocol where
  | http
  | thrift
  | redis
  deriving DecidableEq, Repr

/-- The generated names are lower case. -/
def toStringServerProtocol : ServerProtocol → String
  | .http => "http"
  | .thrift => "thrift"
  | .redis => "redis"

inductive LoadBalanceMethod where
  | random
  | roundrobin
  | localfirst
  | consistent
  | configurableWeight
  | activeWeight
  | userDefined
  | iprangefirst
  | staticWeight
  | idcfirst
  deriving DecidableEq, Repr

def toStringLoadBalanceMethod : LoadBalanceMethod → String
  | .random => "random"
  | .roundrobin => "roundrobin"
  | .localfirst => "localfirst"
  | .consistent => "consistent"
  | .configurableWeight => "configurable_weight"
  | .activeWeight => "active_weight"
  | .userDefined => "user_defined"
  | .iprangefirst => "iprangefirst"
  | .staticWeight => "static_weight"
  | .idcfirst => "idcfirst"

/-- An `enumclass int`: the values are 0, 1, 2 in this order. -/
inductive ShardType where
  | all
  | leader
  | follower
  deriving DecidableEq, Repr

def ShardType.toUInt32 : ShardType → UInt32
  | .all => 0
  | .leader => 1
  | .follower => 2

structure ServerAddress where
  host : String := ""
  port : UInt16 := 0
  deriving DecidableEq, Repr

structure BalanceLocalFirstConfig where
  localIp : String := ""
  diffRange : Int32 := 256
  deriving DecidableEq, Repr

structure ClientOption where
  serviceName : String
  shardId : UInt32 := 4294967295
  partitionHash : Int64 := 0
  routeToEdgeNode : Bool := false
  shardType : ShardType := .leader
  protocol : ServerProtocol
  loadBalance : LoadBalanceMethod
  targetServerAddress : ServerAddress := {}
  userBalance : String := ""
  localFirstConfig : BalanceLocalFirstConfig := {}
  idc : String := ""
  dc : String := "default"
  deriving DecidableEq, Repr

structure Server where
  host : String := ""
  port : UInt16 := 0
  serviceName : String := ""
  protocol : ServerProtocol := .thrift
  status : ServerStatus := .unavailable
  idc : String := ""
  dc : String := "default"
  updateTime : UInt64 := 0
  weight : Int32 := 1
  hostLong : UInt32 := 0
  shardList : List UInt32 := []
  availableShardList : List UInt32 := []
  followerShardList : List UInt32 := []
  followerAvailableShardList : List UInt32 := []
  otherSettings : FinMap String String := ∅
  isEdgeNode : Bool := false
  partitionList : List Int64 := []
  deriving DecidableEq

/-- A server without shards. -/
def availableServer (serviceName host : String) : Server := { host, port := 9000, serviceName, status := .available }

structure ServiceRouterConfig where
  ttlInMs : Int32 := 3000
  loadBalance : LoadBalanceMethod := .random
  totalShards : Int32 := 0
  pullInterval : Int32 := 3
  deriving DecidableEq, Repr

structure ServiceConfig where
  router : ServiceRouterConfig := {}
  configs : FinMap String String := ∅
  deriving DecidableEq

/-- `int` members; `thriftServiceCall` compares them with counters that start at -1. -/
structure ThriftRetryOption where
  connectionRetry : Int := 0
  timeoutRetry : Int := 0
  deriving DecidableEq, Repr

end PredictorService.ServiceRouter
