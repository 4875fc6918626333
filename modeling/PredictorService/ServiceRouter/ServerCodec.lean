/-
  PredictorService.ServiceRouter.ServerCodec — servers on their way through consul.

  A server is registered as the JSON of its `serialize()`, and what is discovered is read
  by `deserialize`. Both are generated from `service_router_entity.config`. The schema is
  `Sound`, so the values of its classes come back; `Server.toValue` and `Server.ofValue` go
  between the registry's servers and these values. `folly::toJson` and `folly::parseJson`
  are parameters.
-/

import PredictorService.BuildTools.EntityCodec
import PredictorService.ServiceRouter.Registry

namespace PredictorService.ServiceRouter

open PredictorService.Lib
open PredictorService.BuildTools

/-! ## The schema -/

def serverProtocolDecl : EnumDecl where
  name := "ServerProtocol"
  enumType := .string
  items := ["HTTP", "THRIFT", "REDIS"]

def serverStatusDecl : EnumDecl where
  name := "ServerStatus"
  enumType := .string
  items := ["AVAILABLE", "UNAVAILABLE"]

def serverDecl : ClassDecl where
  name := "Server"
  members :=
    [{ name := "host", type := .plain (.pod .string) },
     { name := "port", type := .plain (.pod .uint16) },
     { name := "service_name", type := .plain (.pod .string) },
     { name := "protocol", type := .plain (.named "ServerProtocol"), init := "ServerProtocol::THRIFT" },
     { name := "status", type := .plain (.named "ServerStatus"), init := "ServerStatus::UNAVAILABLE" },
     { name := "idc", type := .plain (.pod .string), serializeName := "Idc", isoptional := true },
     { name := "dc", type := .plain (.pod .string), serializeName := "Dc", isoptional := true, init := "\"default\"" },
     { name := "update_time", type := .plain (.pod .uint64), init := "0" },
     { name := "weight", type := .plain (.pod .int), init := "1" },
     { name := "host_long", type := .plain (.pod .uint32), serializeName := "HostLong", isoptional := true, init := "0" },
     { name := "shard_list", type := .vector (.pod .uint32) },
     { name := "available_shard_list", type := .vector (.pod .uint32), serializeName := "AvailableShardList",
       isoptional := true },
     { name := "follower_shard_list", type := .vector (.pod .uint32), serializeName := "FollowerShardList",
       isoptional := true },
     { name := "follower_available_shard_list", type := .vector (.pod .uint32),
       serializeName := "FollowerAvailableShardList", isoptional := true },
     { name := "other_settings", type := .map .string (.pod .string) },
     { name := "is_edge_node", type := .plain (.pod .bool), serializeName := "IsEdgeNode", isoptional := true,
       init := "false" },
     { name := "partition_list", type := .vector (.pod .int64), serializeName := "PartitionList", isoptional := true }]

/-- `service_router_entity.config`. -/
def serviceRouterEntity : Schema :=
  [.enumclass { name := "ThriftTransport", enumType := .string, items := ["HEADER", "RSOCKET", "HTTP2"] },
   .enumclass { name := "RegistryType", enumType := .string, items := ["CONSUL", "AGENT"] },
   .enumclass serverStatusDecl,
   .enumclass serverProtocolDecl,
   .enumclass
    { name := "LoadBalanceMethod", enumType := .string,
      items := ["RANDOM", "ROUNDROBIN", "LOCALFIRST", "CONSISTENT", "CONFIGURABLE_WEIGHT", "ACTIVE_WEIGHT",
        "USER_DEFINED", "IPRANGEFIRST", "STATIC_WEIGHT", "IDCFIRST"] },
   .cls
    { name := "ServerAddress",
      members :=
        [{ name := "host", type := .plain (.pod .string) },
         { name := "port", type := .plain (.pod .uint16), init := "0" }] },
   .cls
    { name := "BalanceLocalFirstConfig",
      members :=
        [{ name := "local_ip", type := .plain (.pod .string) },
         { name := "diff_range", type := .plain (.pod .int), init := "256" }] },
   .enumclass { name := "ShardType", enumType := .int, items := ["ALL", "LEADER", "FOLLOWER"] },
   .cls
    { name := "ClientOption",
      members :=
        [{ name := "service_name", type := .plain (.pod .string) },
         { name := "shard_id", type := .plain (.pod .uint32), init := "4294967295" },
         { name := "partition_hash", type := .plain (.pod .int64), init := "0" },
         { name := "route_to_edge_node", type := .plain (.pod .bool), init := "false" },
         { name := "shard_type", type := .plain (.named "ShardType"), init := "ShardType::LEADER" },
         { name := "protocol", type := .plain (.named "ServerProtocol") },
         { name := "load_balance", type := .plain (.named "LoadBalanceMethod") },
         { name := "target_server_address", type := .plain (.named "ServerAddress") },
         { name := "timeout_ms", type := .plain (.pod .int), init := "0" },
         { name := "user_balance", type := .plain (.pod .string) },
         { name := "local_first_config", type := .plain (.named "BalanceLocalFirstConfig") },
         { name := "max_conn_per_server", type := .plain (.pod .int), init := "0" },
         { name := "thrift_compression_method", type := .plain (.pod .uint16), init := "3" },
         { name := "idc", type := .plain (.pod .string) },
         { name := "dc", type := .plain (.pod .string), init := "\"default\"" }] },
   .cls
    { name := "ServerOption",
      members :=
        [{ name := "service_name", type := .plain (.pod .string) },
         { name := "server_address", type := .plain (.named "ServerAddress") },
         { name := "reuse_port", type := .plain (.pod .bool), init := "false" }] },
   .cls serverDecl,
   .cls
    { name := "ServiceRouterConfig",
      members :=
        [{ name := "ttl_in_ms", type := .plain (.pod .int), init := "3000" },
         { name := "load_balance", type := .plain (.named "LoadBalanceMethod"), init := "LoadBalanceMethod::RANDOM" },
         { name := "total_shards", type := .plain (.pod .int), init := "0" },
         { name := "pull_interval", type := .plain (.pod .int), init := "3" }] },
   .cls
    { name := "ServiceConfig",
      members :=
        [{ name := "router", type := .plain (.named "ServiceRouterConfig") },
         { name := "configs", type := .map .string (.pod .string) }] },
   .cls
    { name := "Service",
      members :=
        [{ name := "config", type := .plain (.named "ServiceConfig") },
         { name := "nodes", type := .map .string (.named "Server") }] },
   .cls
    { name := "ThriftRetryOption",
      members :=
        [{ name := "connection_retry", type := .plain (.pod .int), init := "0" },
         { name := "timeout_retry", type := .plain (.pod .int), init := "0" }] }]

/-- What the generator writes for it. -/
def serviceRouterProgram : Program :=
  match generate serviceRouterEntity with
  | .ok P => P
  | .error _ => ⟨[], []⟩

theorem generate_serviceRouterEntity : generate serviceRouterEntity = .ok serviceRouterProgram := by
  rfl

theorem sound_serviceRouterEntity : Sound serviceRouterEntity := by
  decide +kernel

/-! ## Servers as values -/

/-- The number of the enumerator. -/
def ServerProtocol.item : ServerProtocol → Nat
  | .http => 0
  | .thrift => 1
  | .redis => 2

def ServerProtocol.ofItem : Nat → Option ServerProtocol
  | 0 => some .http
  | 1 => some .thrift
  | 2 => some .redis
  | _ => none

def ServerStatus.item : ServerStatus → Nat
  | .available => 0
  | .unavailable => 1

def ServerStatus.ofItem : Nat → Option ServerStatus
  | 0 => some .available
  | 1 => some .unavailable
  | _ => none

def stringValue (s : String) : Value := .scalar (.string s)

def intValue (n : Int) : Value := .scalar (.int n)

def mapValue (m : FinMap String String) : Value :=
  .map ((SortedMap.ofFinMap m).map fun e => (.string e.1, stringValue e.2))

/-- The values of the members, in the order of the class. -/
def Server.memberValues (s : Server) : List Value :=
  [stringValue s.host, intValue s.port.toNat, stringValue s.serviceName, .enum s.protocol.item, .enum s.status.item,
    stringValue s.idc, stringValue s.dc, intValue s.updateTime.toNat, intValue s.weight.toInt, intValue s.hostLong.toNat,
    .vector (s.shardList.map fun n => intValue n.toNat), .vector (s.availableShardList.map fun n => intValue n.toNat),
    .vector (s.followerShardList.map fun n => intValue n.toNat),
    .vector (s.followerAvailableShardList.map fun n => intValue n.toNat), mapValue s.otherSettings,
    .scalar (.bool s.isEdgeNode), .vector (s.partitionList.map fun n => intValue n.toInt)]

def Server.toValue (s : Server) : Value := .object s.memberValues

def asString : Value → Option String
  | .scalar (.string s) => some s
  | _ => none

def asBool : Value → Option Bool
  | .scalar (.bool b) => some b
  | _ => none

def asInt : Value → Option Int
  | .scalar (.int n) => some n
  | _ => none

def asItem : Value → Option Nat
  | .enum item => some item
  | _ => none

def asInts : Value → Option (List Int)
  | .vector vs => vs.mapM asInt
  | _ => none

def asEntry (e : Scalar × Value) : Option (String × String) :=
  match e with
  | (.string k, .scalar (.string v)) => some (k, v)
  | _ => none

def asMap : Value → Option (FinMap String String)
  | .map es => (es.mapM asEntry).map SortedMap.toFinMap
  | _ => none

/-- The server whose members have these values; `none` when one is not of its type. -/
def Server.ofValue : Value → Option Server
  | .object [host, port, serviceName, protocol, status, idc, dc, updateTime, weight, hostLong, shardList,
      availableShardList, followerShardList, followerAvailableShardList, otherSettings, isEdgeNode, partitionList] => do
    return {
      host := ← asString host
      port := .ofNat (← asInt port).toNat
      serviceName := ← asString serviceName
      protocol := ← (asItem protocol).bind ServerProtocol.ofItem
      status := ← (asItem status).bind ServerStatus.ofItem
      idc := ← asString idc
      dc := ← asString dc
      updateTime := .ofNat (← asInt updateTime).toNat
      weight := .ofInt (← asInt weight)
      hostLong := .ofNat (← asInt hostLong).toNat
      shardList := (← asInts shardList).map fun n => .ofNat n.toNat
      availableShardList := (← asInts availableShardList).map fun n => .ofNat n.toNat
      followerShardList := (← asInts followerShardList).map fun n => .ofNat n.toNat
      followerAvailableShardList := (← asInts followerAvailableShardList).map fun n => .ofNat n.toNat
      otherSettings := ← asMap otherSettings
      isEdgeNode := ← asBool isEdgeNode
      partitionList := (← asInts partitionList).map .ofInt }
  | _ => none

@[simp] theorem asString_stringValue (s : String) : asString (stringValue s) = some s := rfl

@[simp] theorem asInt_intValue (n : Int) : asInt (intValue n) = some n := rfl

@[simp] theorem protocol_ofItem_item (p : ServerProtocol) : ServerProtocol.ofItem p.item = some p := by
  cases p <;> rfl

@[simp] theorem status_ofItem_item (p : ServerStatus) : ServerStatus.ofItem p.item = some p := by
  cases p <;> rfl

@[simp] theorem asInts_map {α : Type} (f : α → Int) (l : List α) :
    asInts (.vector (l.map fun a => intValue (f a))) = some (l.map f) := by
  rw [asInts, mapM_eq_some_iff, List.forall₂_map_left_iff, List.forall₂_map_right_iff, List.forall₂_same]
  exact fun a _ => rfl

@[simp] theorem asMap_mapValue (m : FinMap String String) : asMap (mapValue m) = some m := by
  have hentries : ((SortedMap.ofFinMap m).map fun e => (Scalar.string e.1, stringValue e.2)).mapM asEntry =
      some (SortedMap.ofFinMap m) := by
    rw [mapM_eq_some_iff, List.forall₂_map_left_iff, List.forall₂_same]
    exact fun e _ => rfl
  rw [mapValue, asMap, hentries, Option.map_some, SortedMap.toFinMap_ofFinMap]

theorem Server.ofValue_toValue (s : Server) : Server.ofValue s.toValue = some s := by
  simp [Server.toValue, Server.memberValues, Server.ofValue, asItem, asBool, Function.comp_def]

/-! ## Their types -/

theorem hasPod_uint16 (n : UInt16) : (Scalar.int n.toNat).HasPod .uint16 := by
  have hn : n.toNat < 65536 := n.toNat_lt
  simp only [Scalar.HasPod, Pod.wrap]
  omega

theorem hasPod_uint32 (n : UInt32) : (Scalar.int n.toNat).HasPod .uint32 := by
  have hn : n.toNat < 4294967296 := n.toNat_lt
  simp only [Scalar.HasPod, Pod.wrap]
  omega

theorem hasPod_uint64 (n : UInt64) : (Scalar.int n.toNat).HasPod .uint64 := by
  have hn : n.toNat < 18446744073709551616 := n.toNat_lt
  simp only [Scalar.HasPod, Pod.wrap]
  omega

theorem hasPod_int (n : Int32) : (Scalar.int n.toInt).HasPod .int := by
  have hlow := n.le_toInt
  have hhigh := n.toInt_lt
  simp only [Scalar.HasPod, Pod.wrap, Int.bmod_def]
  omega

theorem hasPod_int64 (n : Int64) : (Scalar.int n.toInt).HasPod .int64 := by
  have hlow := n.le_toInt
  have hhigh := n.toInt_lt
  simp only [Scalar.HasPod, Pod.wrap, Int.bmod_def]
  omega

section Typed

variable {S : Schema} {recur : String → Value → Prop}

theorem typed_vector {α : Type} {p : Pod} {f : α → Int} (hf : ∀ a, (Scalar.int (f a)).HasPod p) (l : List α) :
    TypedMember S recur (.vector (.pod p)) (.vector (l.map fun a => intValue (f a))) := by
  refine ⟨_, rfl, fun x hx => ?_⟩
  obtain ⟨a, -, rfl⟩ := List.mem_map.mp hx
  exact ⟨.int (f a), rfl, hf a⟩

theorem string_lt_string {k k' : String} (h : k < k') : Scalar.string k < Scalar.string k' :=
  Sum.Lex.inr (Sum.Lex.inr h)

theorem typed_map (m : FinMap String String) : TypedMember S recur (.map .string (.pod .string)) (mapValue m) := by
  refine ⟨_, rfl, ?_, fun e he => ?_⟩
  · refine List.pairwise_map.mpr ((SortedMap.sorted_ofFinMap m).imp fun h => ?_)
    exact string_lt_string h
  · obtain ⟨p, -, rfl⟩ := List.mem_map.mp he
    exact ⟨trivial, .string p.2, rfl, trivial⟩

end Typed

theorem Server.typed (s : Server) : Typed serviceRouterEntity 1 "Server" s.toValue := by
  have hprotocol : s.protocol.item < 3 := by cases s.protocol <;> decide
  have hstatus : s.status.item < 2 := by cases s.status <;> decide
  refine ⟨serverDecl, s.memberValues, rfl, rfl, ?_⟩
  exact .cons ⟨.string s.host, rfl, trivial⟩ <| .cons ⟨.int s.port.toNat, rfl, hasPod_uint16 s.port⟩ <|
    .cons ⟨.string s.serviceName, rfl, trivial⟩ <| .cons ⟨s.protocol.item, hprotocol, rfl⟩ <|
    .cons ⟨s.status.item, hstatus, rfl⟩ <| .cons ⟨.string s.idc, rfl, trivial⟩ <| .cons ⟨.string s.dc, rfl, trivial⟩ <|
    .cons ⟨.int s.updateTime.toNat, rfl, hasPod_uint64 s.updateTime⟩ <|
    .cons ⟨.int s.weight.toInt, rfl, hasPod_int s.weight⟩ <|
    .cons ⟨.int s.hostLong.toNat, rfl, hasPod_uint32 s.hostLong⟩ <| .cons (typed_vector hasPod_uint32 s.shardList) <|
    .cons (typed_vector hasPod_uint32 s.availableShardList) <| .cons (typed_vector hasPod_uint32 s.followerShardList) <|
    .cons (typed_vector hasPod_uint32 s.followerAvailableShardList) <| .cons (typed_map s.otherSettings) <|
    .cons ⟨.bool s.isEdgeNode, rfl, trivial⟩ <| .cons (typed_vector hasPod_int64 s.partitionList) .nil

theorem stringKeys_vector {α : Type} (f : α → Int) (l : List α) :
    (Value.vector (l.map fun a => intValue (f a))).StringKeys := by
  refine .vector fun x hx => ?_
  obtain ⟨a, -, rfl⟩ := List.mem_map.mp hx
  exact .scalar _

theorem stringKeys_map (m : FinMap String String) : (mapValue m).StringKeys := by
  have hentry : ∀ e ∈ (SortedMap.ofFinMap m).map fun e => (Scalar.string e.1, stringValue e.2),
      (∃ k, e.1 = .string k) ∧ e.2.StringKeys := by
    intro e he
    obtain ⟨p, -, rfl⟩ := List.mem_map.mp he
    exact ⟨⟨p.1, rfl⟩, .scalar _⟩
  exact .map (fun e he => (hentry e he).1) fun e he => (hentry e he).2

theorem Server.stringKeys (s : Server) : s.toValue.StringKeys := by
  have hprotocol : s.protocol.item < 2147483648 := by cases s.protocol <;> decide
  have hstatus : s.status.item < 2147483648 := by cases s.status <;> decide
  refine .object ?_
  simp only [Server.memberValues, List.forall_mem_cons, List.not_mem_nil, false_implies, implies_true, and_true]
  exact ⟨.scalar _, .scalar _, .scalar _, .enum hprotocol, .enum hstatus, .scalar _, .scalar _, .scalar _, .scalar _,
    .scalar _, stringKeys_vector _ _, stringKeys_vector _ _, stringKeys_vector _ _, stringKeys_vector _ _,
    stringKeys_map _, .scalar _, stringKeys_vector _ _⟩

/-! ## The generated functions -/

/-- `serialize()`. -/
def Server.serialize (s : Server) : Option BuildTools.Dynamic := serviceRouterProgram.serialize 1 "Server" s.toValue

/-- The value of the member of this name. -/
def Server.member (s : Server) (name : String) : Value :=
  (((serverDecl.members.map (·.name)).zip s.memberValues).lookup name).getD (.object [])

/-- `deserialize(data)` of the object `t`; `none` when it returns false. -/
def Server.deserialize (t : Server) (data : BuildTools.Dynamic) : Option Server :=
  (serviceRouterProgram.deserialize (fun _ => t.member) 1 "Server" data).bind Server.ofValue

theorem Server.roundtrip (s : Server) : ∃ d, s.serialize = some d ∧ d.IsJson ∧ ∀ t : Server, t.deserialize d = some s := by
  obtain ⟨d, hd, -, -⟩ := roundtrip_of_sound generate_serviceRouterEntity sound_serviceRouterEntity (fun _ => s.member) 1
    "Server" s.toValue s.typed
  refine ⟨d, hd, isJson_of_serialize 1 "Server" s.toValue d s.stringKeys hd, fun t => ?_⟩
  obtain ⟨d', hd', -, hback⟩ := roundtrip_of_sound generate_serviceRouterEntity sound_serviceRouterEntity
    (fun _ => t.member) 1 "Server" s.toValue s.typed
  rw [hd] at hd'
  cases hd'
  rw [Server.deserialize, hback, Option.bind_some, Server.ofValue_toValue]

/-! ## In the registry -/

namespace ConsulRegistry

/-- The registry's codec with the generated code. `toJson` and `parseJson` are `folly`'s, and
    `none` when they throw: `common::toJson` then leaves its text empty. -/
def Codec.generated (c : Codec) (toJson : BuildTools.Dynamic → Option String)
    (parseJson : String → Option BuildTools.Dynamic) : Codec :=
  { c with
    toJson := fun s => s.serialize.map fun d => (toJson d).getD ""
    parseServer := fun json => (parseJson json).bind ({} : Server).deserialize }

/-- Where JSON brings back what a server is serialized to, a listing that has the text of
    its registration is read with this very server in its place. -/
theorem registered_server_is_discovered (c : Codec) (toJson : BuildTools.Dynamic → Option String)
    (parseJson : String → Option BuildTools.Dynamic) (s : Server)
    (hjson : ∀ d, s.serialize = some d → d.IsJson → (toJson d).bind parseJson = some d) :
    (∃ d, s.serialize = some d ∧ ∀ t : Server, t.deserialize d = some s) ∧
      ∃ json, (c.generated toJson parseJson).toJson s = some json ∧
        ∀ (pre post : List ConsulValue) (t : ConsulValue), c.base64 t.value = json →
          readNodes (c.generated toJson parseJson) (pre ++ t :: post) =
            readNodes (c.generated toJson parseJson) pre ++ s :: readNodes (c.generated toJson parseJson) post := by
  obtain ⟨d, hd, hisjson, hback⟩ := s.roundtrip
  obtain ⟨json, htext, hparse⟩ := Option.bind_eq_some_iff.mp (hjson d hd hisjson)
  refine ⟨⟨d, hd, hback⟩, json, ?_, fun pre post t ht => ?_⟩
  · simp [Codec.generated, hd, htext]
  · have hread : (c.generated toJson parseJson).parseServer ((c.generated toJson parseJson).base64 t.value) = some s := by
      show (parseJson (c.base64 t.value)).bind ({} : Server).deserialize = some s
      rw [ht, hparse, Option.bind_some, hback]
    simp only [readNodes, List.filterMap_append, List.filterMap_cons, hread]

/-- A server with all of its kinds of members set. -/
def edgeServer : Server where
  host := "10.0.0.1"
  port := 65535
  serviceName := "predictor"
  protocol := .redis
  status := .available
  idc := "bj"
  updateTime := 18446744073709551615
  weight := -3
  hostLong := 4294967295
  shardList := [0, 4294967295]
  otherSettings := (∅ : FinMap String String).insert "zone" "b"
  isEdgeNode := true
  partitionList := [-1]

/-- Its JSON, with `update_time` as a signed number. -/
def edgeServerJson : String :=
  "\x7b\"AvailableShardList\":[],\"Dc\":\"default\",\"FollowerAvailableShardList\":[],\"FollowerShardList\":[]," ++
    "\"Host\":\"10.0.0.1\",\"HostLong\":4294967295,\"Idc\":\"bj\",\"IsEdgeNode\":true,\"OtherSettings\":" ++
    "\x7b\"zone\":\"b\"\x7d,\"PartitionList\":[-1],\"Port\":65535,\"Protocol\":\"redis\",\"ServiceName\":" ++
    "\"predictor\",\"ShardList\":[0,4294967295],\"Status\":\"available\",\"UpdateTime\":-1,\"Weight\":-3\x7d"

def scalarText : Scalar → String
  | .bool b => if b then "true" else "false"
  | .int n => toString n
  | .string s => "\"" ++ s ++ "\""

mutual

/-- The JSON of a `dynamic` whose strings have no characters to escape. -/
def plainText : BuildTools.Dynamic → String
  | .scalar s => scalarText s
  | .array ds => "[" ++ String.intercalate "," (plainTexts ds) ++ "]"
  | .object es => "\x7b" ++ String.intercalate "," (plainEntries es) ++ "\x7d"

def plainTexts : List BuildTools.Dynamic → List String
  | [] => []
  | d :: ds => plainText d :: plainTexts ds

def plainEntries : List (Scalar × BuildTools.Dynamic) → List String
  | [] => []
  | e :: es => (scalarText e.1 ++ ":" ++ plainText e.2) :: plainEntries es

end

/-- The JSON as consul returns it. -/
def edgeServerValue : String :=
  "eyJBdmFpbGFibGVTaGFyZExpc3QiOltdLCJEYyI6ImRlZmF1bHQiLCJGb2xsb3dlckF2YWlsYWJsZVNoYXJkTGlzdCI6W10sIkZvbGxvd2Vy" ++
    "U2hhcmRMaXN0IjpbXSwiSG9zdCI6IjEwLjAuMC4xIiwiSG9zdExvbmciOjQyOTQ5NjcyOTUsIklkYyI6ImJqIiwiSXNFZGdlTm9kZSI6dHJ1" ++
    "ZSwiT3RoZXJTZXR0aW5ncyI6eyJ6b25lIjoiYiJ9LCJQYXJ0aXRpb25MaXN0IjpbLTFdLCJQb3J0Ijo2NTUzNSwiUHJvdG9jb2wiOiJyZWRp" ++
    "cyIsIlNlcnZpY2VOYW1lIjoicHJlZGljdG9yIiwiU2hhcmRMaXN0IjpbMCw0Mjk0OTY3Mjk1XSwiU3RhdHVzIjoiYXZhaWxhYmxlIiwiVXBk" ++
    "YXRlVGltZSI6LTEsIldlaWdodCI6LTN9"

def edgeCodec : Codec :=
  { plainCodec with base64 := fun value => if value = edgeServerValue then edgeServerJson else "" }

/-- `folly::parseJson` on this text. -/
def parseEdgeServer (json : String) : Option BuildTools.Dynamic :=
  if json = edgeServerJson then edgeServer.serialize else none

theorem edgeServer_is_discovered :
    edgeServer.serialize.map plainText = some edgeServerJson ∧
      readNodes (edgeCodec.generated (fun d => some (plainText d)) parseEdgeServer)
        [⟨ConsulNode.getNodePath edgeServer, edgeServerValue⟩] = [edgeServer] := by
  have htext : edgeServer.serialize.map plainText = some edgeServerJson := by decide +kernel
  refine ⟨htext, ?_⟩
  obtain ⟨-, json, hjson, hread⟩ := registered_server_is_discovered edgeCodec (fun d => some (plainText d))
    parseEdgeServer edgeServer fun d hd _ => by
      rw [hd, Option.map_some, Option.some_inj] at htext
      simp [parseEdgeServer, htext, hd]
  have hsame : json = edgeServerJson := by
    have hmap : edgeServer.serialize.map plainText = some json := hjson
    rw [htext] at hmap
    exact (Option.some.inj hmap).symm
  have hbase64 : edgeCodec.base64 edgeServerValue = json := by simp [edgeCodec, hsame]
  exact hread [] [] _ hbase64

end ConsulRegistry

end PredictorService.ServiceRouter
