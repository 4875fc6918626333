/-
  PredictorService.ServiceRouter.Registry — the consul registry
  (service_router/registry.cc, class `ConsulRegistry`).

  Every call is asynchronous: it sends a request, and the response runs later on a thread
  of the callback pool. A failed request puts an entry into `fallbacks_`; `fallback()`
  (a timer of the event base) takes all entries and calls again. The machine is:
  - `registerServer` / `unregisterServer` send a set or a delete (`requests`). Consul
    answers them (`answer`), applying one iff it answers true, and the response is
    delivered later (`deliver`), in any order.
  - `discover` and `getConfig` start a task. A values read is one task, and what the
    callback does after its index check is another one, because other callbacks run
    between the two. `getConfig` first waits for a version read.
  - `fallback` moves the entries to `work`, and `retry` calls again for one of them.

  A server's JSON and the decoding of what consul returns are parameters (`Codec`). The
  `...Sync` variants send the same requests and wait for their delivery. Metrics and the
  choice of the consul client are left out.
-/

import Mathlib.Data.Finset.Insert
import Mathlib.Data.List.Infix
import PredictorService.Lib.FinMap
import PredictorService.ServiceRouter.Entity

namespace PredictorService.ServiceRouter

open PredictorService.Lib (FinMap)

/-! ## Paths -/

namespace ConsulNode

def getNodeName (server : Server) : String :=
  toStringServerProtocol server.protocol ++ ":" ++ server.host ++ ":" ++ toString server.port.toNat

/-- The paths below read only the service name of their server. -/
def getNodesPath (serviceName : String) : String := "ads-core/services/" ++ serviceName ++ "/nodes/"

def getNodePath (server : Server) : String := getNodesPath server.serviceName ++ getNodeName server

def getConfigPath (serviceName : String) : String := "ads-core/services/" ++ serviceName ++ "/config/"

def getConfigsPath (serviceName : String) : String := getConfigPath serviceName ++ "configs/"

def getRouterConfigPath (serviceName : String) : String := getConfigPath serviceName ++ "router"

def getConfigVersionPath (serviceName : String) : String := getConfigPath serviceName ++ "version"

end ConsulNode

namespace ConsulRegistry

open ConsulNode

/-- What the registry reads and writes through other code. -/
structure Codec where
  /-- `serialize` and `common::toJson`. -/
  toJson : Server → Option String
  /-- `proxygen::Base64::decode`. -/
  base64 : String → String
  /-- `common::fromJson` and `Server::deserialize`. -/
  parseServer : String → Option Server
  /-- `common::fromJson` and `ServiceRouterConfig::deserialize`. -/
  parseRouterConfig : String → Option ServiceRouterConfig

structure ConsulValue where
  key : String
  value : String
  deriving DecidableEq, Repr

/-- What `processValues` reads from a response. -/
structure ConsulValues where
  consulIndex : UInt64
  value : List ConsulValue
  deriving DecidableEq, Repr

inductive FallbackType where
  | register
  | unregister
  | discover
  | getConfig
  deriving DecidableEq, Repr

structure FallBackDetail where
  server : Server
  type : FallbackType
  deriving DecidableEq

/-- A set of a server's node to its JSON, or a delete. -/
structure Request where
  server : Server
  json : Option String
  deriving DecidableEq

inductive Task where
  /-- `discover` waits for the values under the nodes path. -/
  | nodes (serviceName : String)
  | notifyDiscover (serviceName : String) (servers : List Server)
  /-- `getConfig` waits for the version. -/
  | version (serviceName : String)
  /-- It waits for the values, having read that version (`none`: the read failed). -/
  | config (serviceName : String) (version : Option String)
  /-- An empty config goes back to `fallbacks_`. -/
  | queueConfig (serviceName : String)
  | notifyConfig (serviceName : String) (config : ServiceConfig) (items : List (String × String))
  deriving DecidableEq

structure St where
  /-- `callback_thread_pool_` can still be locked. -/
  pool : Bool := true
  fallbacks : FinMap String FallBackDetail := ∅
  /-- The entries that the running `fallback()` has not called yet. -/
  work : FinMap String FallBackDetail := ∅
  /-- Set and delete requests without an answer, in the order they were sent. -/
  requests : List Request := []
  /-- Answers that are not delivered yet. -/
  responses : List (Request × Bool) := []
  tasks : List Task := []
  lastIndexes : FinMap String UInt64 := ∅
  configVersions : FinMap String String := ∅
  serviceSubscribers : Finset String := ∅
  configSubscribers : Finset String := ∅
  /-- The service and the key of the subscriber that is stored under the two written together. -/
  configItemSubscribers : FinMap String (String × String) := ∅
  useStatic : Bool := false
  staticNodes : FinMap String (List Server) := ∅
  /-- The node keys of consul. -/
  consul : FinMap String String := ∅
  /-- The nodes responses processed so far, latest first. -/
  delivered : List (String × ConsulValues) := []
  /-- What the subscribers were called with, latest first. -/
  notified : List (String × List Server) := []
  configNotified : List (String × ServiceConfig) := []
  configItemNotified : List (String × String × String) := []

variable (c : Codec)

/-! ## Registration -/

def checkServerValid (server : Server) : Bool := server.serviceName ≠ ""

def registerServer (s : St) (server : Server) : St :=
  match c.toJson server with
  | none => s
  | some json =>
    if checkServerValid server ∧ s.pool then { s with requests := s.requests ++ [⟨server, some json⟩] } else s

def unregisterServer (s : St) (server : Server) : St :=
  if checkServerValid server ∧ s.pool then { s with requests := s.requests ++ [⟨server, none⟩] } else s

def Request.type (r : Request) : FallbackType := if r.json.isSome then .register else .unregister

/-- What consul holds under the path once it has answered true. -/
def applyRequest (consul : FinMap String String) (r : Request) : FinMap String String :=
  match r.json with
  | some json => consul.insert (getNodePath r.server) json
  | none => consul.erase (getNodePath r.server)

def answer (s : St) (r : Request) (ok : Bool) : St :=
  { s with requests := s.requests.erase r, responses := (r, ok) :: s.responses,
           consul := if ok then applyRequest s.consul r else s.consul }

/-- The callback of a set or a delete. -/
def deliver (s : St) (r : Request) (ok : Bool) : St :=
  let s := { s with responses := s.responses.erase (r, ok) }
  if ok then s else { s with fallbacks := s.fallbacks.insert (getNodeName r.server) ⟨r.server, r.type⟩ }

/-! ## Discovery -/

/-- The server that stands for a whole service. -/
def serviceServer (serviceName : String) : Server := { serviceName := serviceName }

def notifyDiscover (s : St) (serviceName : String) (servers : List Server) : St :=
  if serviceName ∈ s.serviceSubscribers then { s with notified := (serviceName, servers) :: s.notified } else s

def discover (s : St) (serviceName : String) : St :=
  if !s.useStatic then
    if s.pool then { s with tasks := s.tasks ++ [.nodes serviceName] } else s
  else
    let servers := (s.staticNodes.lookup serviceName).getD []
    if servers ≠ [] then notifyDiscover s serviceName servers else s

/-- Whether the index is another one than the last, and the map with it recorded. -/
def checkUpdate (lastIndexes : FinMap String UInt64) (key : String) (index : UInt64) : Bool × FinMap String UInt64 :=
  if index = (lastIndexes.lookup key).getD 0 then (false, lastIndexes) else (true, lastIndexes.insert key index)

/-- The servers of a nodes listing; what does not decode is skipped. -/
def readNodes (values : List ConsulValue) : List Server := values.filterMap fun t => c.parseServer (c.base64 t.value)

/-- Up to the notification, which is a task of its own. -/
def processDiscover (s : St) (serviceName : String) (values : ConsulValues) : St :=
  let (isUpdate, lastIndexes) := checkUpdate s.lastIndexes (getNodesPath serviceName) values.consulIndex
  let s := { s with lastIndexes := lastIndexes, delivered := (serviceName, values) :: s.delivered }
  if values.value = [] ∨ !isUpdate then s
  else { s with tasks := s.tasks ++ [.notifyDiscover serviceName (readNodes c values.value)] }

/-- The callback of a nodes read; `none` when the read failed. -/
def deliverNodes (s : St) (serviceName : String) (res : Option ConsulValues) : St :=
  let s := { s with tasks := s.tasks.erase (.nodes serviceName) }
  match res with
  | some values => processDiscover c s serviceName values
  | none =>
    { s with fallbacks := s.fallbacks.insert (getNodesPath serviceName) ⟨serviceServer serviceName, .discover⟩ }

/-! ## Configuration -/

def getConfig (s : St) (serviceName : String) : St :=
  if s.pool then { s with tasks := s.tasks ++ [.version serviceName] } else s

/-- Whether to go on after the version read, the versions with it recorded, and the decoded
    version. -/
def checkConfigUpdate (configVersions : FinMap String String) (serviceName : String) (versionRes : Option String) :
    Bool × FinMap String String × Option String :=
  match versionRes with
  | none => (true, configVersions, none)
  | some value =>
    let version := c.base64 value
    if configVersions.lookup serviceName = some version then (false, configVersions, some version)
    else (true, configVersions.insert serviceName version, some version)

def readVersion (s : St) (serviceName : String) (versionRes : Option String) : St :=
  let (goOn, configVersions, version) := checkConfigUpdate c s.configVersions serviceName versionRes
  let s := { s with tasks := s.tasks.erase (.version serviceName), configVersions := configVersions }
  if goOn then { s with tasks := s.tasks ++ [.config serviceName version] } else s

def contains (s t : String) : Bool := t.toList <:+: s.toList

/-- One round of the loop over the values: the config so far and the items, in order. -/
def readConfigItem (serviceName : String) (acc : ServiceConfig × List (String × String)) (t : ConsulValue) :
    ServiceConfig × List (String × String) :=
  let vval := c.base64 t.value
  if contains t.key (getConfigVersionPath serviceName) then acc
  else if contains t.key (getRouterConfigPath serviceName) then
    match c.parseRouterConfig vval with
    | some router => ({ acc.1 with router := router }, acc.2)
    | none => acc
  else if contains t.key (getConfigsPath serviceName) then
    let configKey := String.ofList (t.key.toList.drop (getConfigsPath serviceName).length)
    ({ acc.1 with configs := acc.1.configs.insert configKey vval }, acc.2 ++ [(configKey, vval)])
  else acc

def readConfig (serviceName : String) (values : List ConsulValue) : ServiceConfig × List (String × String) :=
  values.foldl (readConfigItem c serviceName) ({}, [])

/-- Up to the entry in `fallbacks_` or the notification, which are tasks of their own. -/
def processConfig (s : St) (serviceName : String) (values : ConsulValues) : St :=
  let (isUpdate, lastIndexes) := checkUpdate s.lastIndexes (getConfigPath serviceName) values.consulIndex
  let s := { s with lastIndexes := lastIndexes }
  if values.value = [] then { s with tasks := s.tasks ++ [.queueConfig serviceName] }
  else if !isUpdate then s
  else
    let (config, items) := readConfig c serviceName values.value
    { s with tasks := s.tasks ++ [.notifyConfig serviceName config items] }

def queueConfig (s : St) (serviceName : String) : St :=
  { s with fallbacks := s.fallbacks.insert (getConfigPath serviceName) ⟨serviceServer serviceName, .getConfig⟩ }

/-- The callback of a config read; `none` when the read failed. -/
def deliverConfig (s : St) (serviceName : String) (version : Option String) (res : Option ConsulValues) : St :=
  let s := { s with tasks := s.tasks.erase (.config serviceName version) }
  match res with
  | some values => processConfig c s serviceName values
  | none => queueConfig s serviceName

def notifyConfig (s : St) (serviceName : String) (config : ServiceConfig) (items : List (String × String)) : St :=
  let heard := items.filterMap fun item =>
    (s.configItemSubscribers.lookup (serviceName ++ item.1)).map fun subscriber => (subscriber.1, subscriber.2, item.2)
  let s := { s with configItemNotified := heard.reverse ++ s.configItemNotified }
  if serviceName ∈ s.configSubscribers then { s with configNotified := (serviceName, config) :: s.configNotified } else s

/-! ## Retries -/

/-- The round runs on the event base, so there is one at a time. -/
def fallback (s : St) : Option St :=
  if s.work = ∅ then some { s with work := s.fallbacks, fallbacks := ∅ } else none

def retry (s : St) (key : String) : Option St :=
  match s.work.lookup key with
  | none => none
  | some detail =>
    let s := { s with work := s.work.erase key }
    match detail.type with
    | .register => some (registerServer c s detail.server)
    | .unregister => some (unregisterServer s detail.server)
    | .discover => some (discover s detail.server.serviceName)
    | .getConfig => some (getConfig s detail.server.serviceName)

/-! ## The machine -/

inductive Ev where
  | registerServer (server : Server)
  | unregisterServer (server : Server)
  | discover (serviceName : String)
  | getConfig (serviceName : String)
  | answer (r : Request) (ok : Bool)
  | deliver (r : Request) (ok : Bool)
  | deliverNodes (serviceName : String) (res : Option ConsulValues)
  | runNotifyDiscover (serviceName : String) (servers : List Server)
  | readVersion (serviceName : String) (versionRes : Option String)
  | deliverConfig (serviceName : String) (version : Option String) (res : Option ConsulValues)
  | runQueueConfig (serviceName : String)
  | runNotifyConfig (serviceName : String) (config : ServiceConfig) (items : List (String × String))
  | fallback
  | retry (key : String)
  | subscribe (serviceName : String)
  | unsubscribe (serviceName : String)
  | subscribeConfig (serviceName : String)
  | unsubscribeConfig (serviceName : String)
  | subscribeConfigItem (serviceName configKey : String)
  | unsubscribeConfigItem (serviceName configKey : String)
  | enableStatic
  | disableStatic
  | pushStaticNodes (serviceName : String) (servers : List Server)
  | poolGone
  deriving DecidableEq

def step (s : St) : Ev → Option St
  | .registerServer server => some (registerServer c s server)
  | .unregisterServer server => some (unregisterServer s server)
  | .discover serviceName => some (discover s serviceName)
  | .getConfig serviceName => some (getConfig s serviceName)
  | .answer r ok => if r ∈ s.requests then some (answer s r ok) else none
  | .deliver r ok => if (r, ok) ∈ s.responses then some (deliver s r ok) else none
  | .deliverNodes serviceName res =>
    if .nodes serviceName ∈ s.tasks then some (deliverNodes c s serviceName res) else none
  | .runNotifyDiscover serviceName servers =>
    if .notifyDiscover serviceName servers ∈ s.tasks then
      some (notifyDiscover { s with tasks := s.tasks.erase (.notifyDiscover serviceName servers) } serviceName servers)
    else none
  | .readVersion serviceName versionRes =>
    if .version serviceName ∈ s.tasks then some (readVersion c s serviceName versionRes) else none
  | .deliverConfig serviceName version res =>
    if .config serviceName version ∈ s.tasks then some (deliverConfig c s serviceName version res) else none
  | .runQueueConfig serviceName =>
    if .queueConfig serviceName ∈ s.tasks then
      some (queueConfig { s with tasks := s.tasks.erase (.queueConfig serviceName) } serviceName)
    else none
  | .runNotifyConfig serviceName config items =>
    if .notifyConfig serviceName config items ∈ s.tasks then
      some (notifyConfig { s with tasks := s.tasks.erase (.notifyConfig serviceName config items) }
        serviceName config items)
    else none
  | .fallback => fallback s
  | .retry key => retry c s key
  | .subscribe serviceName => some { s with serviceSubscribers := insert serviceName s.serviceSubscribers }
  | .unsubscribe serviceName => some { s with serviceSubscribers := s.serviceSubscribers.erase serviceName }
  | .subscribeConfig serviceName => some { s with configSubscribers := insert serviceName s.configSubscribers }
  | .unsubscribeConfig serviceName => some { s with configSubscribers := s.configSubscribers.erase serviceName }
  | .subscribeConfigItem serviceName configKey =>
    some { s with
      configItemSubscribers := s.configItemSubscribers.insert (serviceName ++ configKey) (serviceName, configKey) }
  | .unsubscribeConfigItem serviceName configKey =>
    some { s with configItemSubscribers := s.configItemSubscribers.erase (serviceName ++ configKey) }
  | .enableStatic => some { s with useStatic := true }
  | .disableStatic => some { s with useStatic := false }
  | .pushStaticNodes serviceName servers =>
    some { s with staticNodes := s.staticNodes.insert serviceName servers }
  | .poolGone => some { s with pool := false }

/-! ## A codec for plain servers -/

def jsonList (l : List String) : String := "[" ++ String.intercalate "," l ++ "]"

/-- The JSON of a server without other settings. -/
def plainJson (t : Server) : String :=
  "\x7b\"Host\":\"" ++ t.host ++ "\",\"Port\":" ++ toString t.port.toNat ++ ",\"ServiceName\":\"" ++ t.serviceName ++
    "\",\"Protocol\":\"" ++ toStringServerProtocol t.protocol ++ "\",\"Status\":\"" ++
    (if t.status = .available then "available" else "unavailable") ++ "\",\"Idc\":\"" ++ t.idc ++ "\",\"Dc\":\"" ++ t.dc ++
    "\",\"UpdateTime\":" ++ toString t.updateTime.toNat ++ ",\"Weight\":" ++ toString t.weight.toInt ++
    ",\"HostLong\":" ++ toString t.hostLong.toNat ++ ",\"ShardList\":" ++ jsonList (t.shardList.map (toString ·.toNat)) ++
    ",\"AvailableShardList\":" ++ jsonList (t.availableShardList.map (toString ·.toNat)) ++
    ",\"FollowerShardList\":" ++ jsonList (t.followerShardList.map (toString ·.toNat)) ++
    ",\"FollowerAvailableShardList\":" ++ jsonList (t.followerAvailableShardList.map (toString ·.toNat)) ++
    ",\"OtherSettings\":\x7b\x7d,\"IsEdgeNode\":" ++ (if t.isEdgeNode then "true" else "false") ++
    ",\"PartitionList\":" ++ jsonList (t.partitionList.map (toString ·.toInt)) ++ "\x7d"

def plainServer : Server := availableServer "predictor" "10.0.0.1"

def otherServer : Server := availableServer "predictor" "10.0.0.2"

/-- Values as consul returns them, with their text and what the text decodes to. The
    optional members are left out. -/
def plainValues : List (String × String × Server) :=
  [("eyJIb3N0IjoiMTAuMC4wLjEiLCJQb3J0Ijo5MDAwLCJTZXJ2aWNlTmFtZSI6InByZWRpY3RvciIsIlByb3RvY29sIjoidGhyaWZ0IiwiU3R" ++
      "hdHVzIjoiYXZhaWxhYmxlIiwiVXBkYXRlVGltZSI6MCwiV2VpZ2h0IjoxLCJTaGFyZExpc3QiOltdLCJPdGhlclNldHRpbmdzIjp7fX0=",
    "\x7b\"Host\":\"10.0.0.1\",\"Port\":9000,\"ServiceName\":\"predictor\",\"Protocol\":\"thrift\",\"Status\":\"" ++
      "available\",\"UpdateTime\":0,\"Weight\":1,\"ShardList\":[],\"OtherSettings\":\x7b\x7d\x7d",
    plainServer),
   ("eyJIb3N0IjoiMTAuMC4wLjIiLCJQb3J0Ijo5MDAwLCJTZXJ2aWNlTmFtZSI6InByZWRpY3RvciIsIlByb3RvY29sIjoidGhyaWZ0IiwiU3R" ++
      "hdHVzIjoiYXZhaWxhYmxlIiwiVXBkYXRlVGltZSI6MCwiV2VpZ2h0IjoxLCJTaGFyZExpc3QiOltdLCJPdGhlclNldHRpbmdzIjp7fX0=",
    "\x7b\"Host\":\"10.0.0.2\",\"Port\":9000,\"ServiceName\":\"predictor\",\"Protocol\":\"thrift\",\"Status\":\"" ++
      "available\",\"UpdateTime\":0,\"Weight\":1,\"ShardList\":[],\"OtherSettings\":\x7b\x7d\x7d",
    otherServer)]

def slowRouter : ServiceRouterConfig := { ttlInMs := 5000 }

def slowRouterJson : String :=
  "\x7b\"TtlInMs\":5000,\"LoadBalance\":\"random\",\"TotalShards\":0,\"PullInterval\":3\x7d"

/-- The JSON as consul returns it. -/
def slowRouterValue : String :=
  "eyJUdGxJbk1zIjo1MDAwLCJMb2FkQmFsYW5jZSI6InJhbmRvbSIsIlRvdGFsU2hhcmRzIjowLCJQdWxsSW50ZXJ2YWwiOjN9"

/-- The codec on these values. -/
def plainCodec : Codec where
  toJson t := some (plainJson t)
  base64 value :=
    if value = "djI=" then "v2"
    else if value = slowRouterValue then slowRouterJson
    else ((plainValues.find? fun p => p.1 = value).map fun p => p.2.1).getD ""
  parseServer json := (plainValues.find? fun p => p.2.1 = json).map fun p => p.2.2
  parseRouterConfig json := if json = slowRouterJson then some slowRouter else none

end ConsulRegistry

end PredictorService.ServiceRouter
