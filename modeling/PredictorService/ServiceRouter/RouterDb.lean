/-
  PredictorService.ServiceRouter.RouterDb — the routing table (service_router/router.cc,
  class `RouterDb`).

  The table maps a 64 bit key to a list of servers. The key of a route (service, protocol,
  route id, shard type, data centre) is four rounds of `CityHash64WithSeed`, which is a
  parameter here (`H : Hash64`). `updateServers` picks the servers that are alive, groups
  them by route, copies the table, drops the keys of the service's last partition lists,
  lays the new lists over the copy and publishes it.

  `ipToInt` throws on a host whose fields are no ints; `updateServers` does not catch it
  and has changed nothing by then (`none`, and `RouterDb.apply` keeps the table).
-/

import PredictorService.Common.Util
import PredictorService.ServiceRouter.Entity

namespace PredictorService.ServiceRouter

open PredictorService.Lib (FinMap)
open PredictorService.Common (ipToInt)

/-- `CityHash64WithSeed`: bytes and seed. -/
abbrev Hash64 := String → UInt64 → UInt64

/-- For a service without shards. -/
def ROUTER_DEFAULT_SHARD_ID : UInt32 := 4294967295

/-- The arguments of `getServiceKey`. -/
structure Route where
  serviceName : String
  protocol : ServerProtocol
  routeId : Int64
  type : ShardType
  dc : String
  deriving DecidableEq

/-- A `ServerList` is its servers; the hash code it also stores is computed from them. -/
abbrev ServerList := List Server

/-- What the constructor of `ServiceRegistry` takes. -/
abbrev Services := FinMap UInt64 ServerList

structure RouterDb where
  serviceRegistry : Services := ∅
  lastPartitionKeys : FinMap String (Finset UInt64) := ∅
  configs : FinMap String ServiceConfig := ∅

variable (H : Hash64)

def getServiceKey (r : Route) : UInt64 :=
  let key := H r.dc r.routeId.toUInt64
  let key := H r.serviceName key
  let key := H (toStringServerProtocol r.protocol) key
  H (toString r.type.toUInt32.toNat) key

/-- `getServiceKey` is collision-free on the routes in play. -/
def CollisionFree (K : Set Route) : Prop := Set.InjOn (getServiceKey H) K

namespace RouterDb

def selectServers (db : RouterDb) (r : Route) : Option ServerList := db.serviceRegistry.lookup (getServiceKey H r)

def getConfig (db : RouterDb) (serviceName : String) : ServiceConfig := (db.configs.lookup serviceName).getD {}

def getRouterConfig (db : RouterDb) (serviceName : String) : ServiceRouterConfig := (db.getConfig serviceName).router

def updateConfig (db : RouterDb) (name : String) (config : ServiceConfig) : RouterDb :=
  { db with configs := db.configs.insert name config }

/-- Neither timed out (in 64 bit arithmetic) nor unavailable. -/
def isPicked (config : ServiceRouterConfig) (now : UInt64) (t : Server) : Bool :=
  !(now > t.updateTime + config.ttlInMs.toInt64.toUInt64) && t.status = .available

/-- The servers that are alive, or all of them when none is. -/
def pickServers (db : RouterDb) (serviceName : String) (list : List Server) (now : UInt64) : List Server :=
  if list = [] then list
  else
    let result := list.filter (isPicked (db.getRouterConfig serviceName) now)
    if result = [] then list else result

/-! ## The new lists -/

/-- The two maps that `updateServers` fills. -/
structure Built where
  shardServers : FinMap UInt64 (List Server) := ∅
  partitionServers : FinMap UInt64 (List Server) := ∅

def shardRoute (serviceName : String) (t : Server) (type : ShardType) (shardId : UInt32) : Route :=
  ⟨serviceName, t.protocol, shardId.toUInt64.toInt64, type, t.dc⟩

def partitionRoute (serviceName : String) (t : Server) (partitionHash : Int64) : Route :=
  ⟨serviceName, t.protocol, partitionHash, .follower, t.dc⟩

/-- The shards the server leads, with the default id when it has no shards at all. -/
def leaderShards (t : Server) : List UInt32 :=
  if t.shardList = [] ∧ t.followerShardList = [] then t.availableShardList ++ [ROUTER_DEFAULT_SHARD_ID]
  else t.availableShardList

/-- One round of the loop over the picked servers. -/
def addServer (serviceName : String) (built : Built) (t : Server) : Option Built := do
  let hostLong ← ipToInt t.host
  let t := { t with hostLong := hostLong }
  if t.isEdgeNode then
    return { built with
      partitionServers := t.partitionList.foldl (fun m partitionHash =>
        FinMap.pushBack m (getServiceKey H (partitionRoute serviceName t partitionHash)) t) built.partitionServers }
  let shardServers := (leaderShards t).foldl (fun m shardId =>
    FinMap.pushBack (FinMap.pushBack m (getServiceKey H (shardRoute serviceName t .leader shardId)) t)
      (getServiceKey H (shardRoute serviceName t .all shardId)) t) built.shardServers
  let shardServers := t.followerAvailableShardList.foldl (fun m shardId =>
    FinMap.pushBack (FinMap.pushBack m (getServiceKey H (shardRoute serviceName t .follower shardId)) t)
      (getServiceKey H (shardRoute serviceName t .all shardId)) t) shardServers
  return { built with shardServers := shardServers }

def buildServers (serviceName : String) (pickResult : List Server) : Option Built :=
  pickResult.foldlM (addServer H serviceName) {}

/-! ## The update -/

/-- First section of `last_partition_keys_`: drop the service's old partition lists. -/
def cleanPartitions (serviceName : String) (partitionKeys : FinMap String (Finset UInt64)) (currentServices : Services) :
    FinMap String (Finset UInt64) × Services :=
  match partitionKeys.lookup serviceName with
  | none => (partitionKeys, currentServices)
  | some keys => (partitionKeys.insert serviceName ∅, FinMap.eraseAll currentServices keys)

/-- Second section of `last_partition_keys_`: add the new ones and remember their keys. -/
def addPartitions (serviceName : String) (partitionServers : FinMap UInt64 (List Server))
    (partitionKeys : FinMap String (Finset UInt64)) (currentServices : Services) :
    FinMap String (Finset UInt64) × Services :=
  let keys := (partitionKeys.lookup serviceName).getD ∅
  (partitionKeys.insert serviceName (keys ∪ partitionServers.keys), partitionServers ∪ currentServices)

/-- `updateServers` once the new lists are built. -/
def publish (db : RouterDb) (serviceName : String) (built : Built) : RouterDb :=
  let currentServices := db.serviceRegistry
  let (partitionKeys, currentServices) := cleanPartitions serviceName db.lastPartitionKeys currentServices
  let currentServices := built.shardServers ∪ currentServices
  let (partitionKeys, currentServices) :=
    addPartitions serviceName built.partitionServers partitionKeys currentServices
  { db with serviceRegistry := currentServices, lastPartitionKeys := partitionKeys }

/-- `updateServers` at the time `now`; `none` when it throws. -/
def updateServers (db : RouterDb) (serviceName : String) (list : List Server) (now : UInt64) : Option RouterDb := do
  let built ← buildServers H serviceName (db.pickServers serviceName list now)
  return db.publish serviceName built

/-- What happens to a `RouterDb`. -/
inductive Ev where
  | updateServers (serviceName : String) (list : List Server) (now : UInt64)
  | updateConfig (name : String) (config : ServiceConfig)

/-- A call that throws leaves the table as it was. -/
def apply (db : RouterDb) : Ev → RouterDb
  | .updateServers serviceName list now => (db.updateServers H serviceName list now).getD db
  | .updateConfig name config => db.updateConfig name config

/-- Sequential calls, one after another. -/
def run (db : RouterDb) (evs : List Ev) : RouterDb := evs.foldl (apply H) db

end RouterDb

end PredictorService.ServiceRouter
