/-
  PredictorService.ServiceRouter.EdgeNodes — partition lists of edge nodes: the frame of a
  routing update and the discovery of an edge node (service_router/router.cc,
  `RouterDb::updateServers`, `Router::edgeDiscover`, `serviceClient`).

  An edge node is routed by the partitions it lists. Its lists are stored in the table of
  the shard lists, under the key of the partition hash as a route id and the type
  FOLLOWER, and `last_partition_keys_` remembers which keys of the table they are.
  - `update_frame`: an update of one service leaves the lookups and the remembered keys of
    every other as they were; the keys remembered for it are those of the partition lists
    of this update, each found with the picked edge nodes that list the partition.
  - `edgeOnly_iff`: `edgeDiscover` looks up the partition hash with the option's own shard
    type, in the id space of the shards. It answers edge nodes only, in every state of a
    run, iff no update puts a shard list under that route
    (`a_shard_is_discovered_as_a_partition`: partition 1, and a server that leads shard 1).
-/

import PredictorService.Lib.Runs
import PredictorService.ServiceRouter.LoadBalance
import PredictorService.ServiceRouter.RouterDbProofs

namespace PredictorService.ServiceRouter

open PredictorService.Lib (FinMap Meets prefixes_iff_meets_on)
open PredictorService.Thirdparty (cityHash64WithSeed)

namespace RouterDb

variable (H : Hash64)

/-! ## The routes of a server -/

/-- An edge node of that protocol and data centre that lists the partition. -/
structure ListsPartition (t : Server) (p : ServerProtocol) (partitionHash : Int64) (dc : String) : Prop where
  edge : t.isEdgeNode = true
  protocol : t.protocol = p
  dc : t.dc = dc
  partition : partitionHash ∈ t.partitionList

/-- The route a partition list is stored under. -/
def edgeRoute (name : String) (p : ServerProtocol) (partitionHash : Int64) (dc : String) : Route :=
  ⟨name, p, partitionHash, .follower, dc⟩

theorem mem_partitionRoutes {name : String} {t : Server} {r : Route} :
    r ∈ partitionRoutes name t ↔
      r.serviceName = name ∧ r.type = .follower ∧ ListsPartition t r.protocol r.routeId r.dc := by
  unfold partitionRoutes
  cases he : t.isEdgeNode with
  | false =>
    refine ⟨fun h => by simp at h, fun h => ?_⟩
    simpa [he] using h.2.2.edge
  | true =>
    simp only [if_true, List.mem_map]
    constructor
    · intro h
      obtain ⟨partitionHash, hmem, rfl⟩ := h
      exact ⟨rfl, rfl, he, rfl, rfl, hmem⟩
    · intro h
      obtain ⟨rfl, htype, hlists⟩ := h
      refine ⟨r.routeId, hlists.partition, ?_⟩
      rw [partitionRoute, hlists.protocol, hlists.dc, ← htype]

/-- A shard route is the lookup of some shard. -/
theorem mem_shardRoutes {name : String} {t : Server} {r : Route} :
    r ∈ shardRoutes name t ↔
      r.serviceName = name ∧ ∃ s : UInt32, s.toUInt64.toInt64 = r.routeId ∧ Serves t r.protocol s r.type r.dc := by
  constructor
  · intro h
    have hname := serviceName_of_mem_shardRoutes h
    have hid : ∃ s : UInt32, s.toUInt64.toInt64 = r.routeId := by
      unfold shardRoutes at h
      split at h
      · cases h
      · simp only [List.mem_append, List.mem_flatMap, List.mem_cons, List.not_mem_nil, or_false] at h
        rcases h with ⟨s, -, rfl | rfl⟩ | ⟨s, -, rfl | rfl⟩ <;> exact ⟨s, rfl⟩
    obtain ⟨s, hs⟩ := hid
    have hr : lookupRoute name r.protocol s r.type r.dc = r := by rw [lookupRoute, hs, ← hname]
    exact ⟨hname, s, hs, mem_shardRoutes_iff.mp (hr ▸ h)⟩
  · intro h
    obtain ⟨hname, s, hs, hserves⟩ := h
    have hr : lookupRoute name r.protocol s r.type r.dc = r := by rw [lookupRoute, hs, ← hname]
    exact hr ▸ mem_shardRoutes_iff.mpr hserves

theorem isEdgeNode_of_withHostLong {t u : Server} (h : withHostLong t = some u) :
    u.isEdgeNode = t.isEdgeNode ∧ u.partitionList = t.partitionList := by
  obtain ⟨x, -, rfl⟩ := Option.map_eq_some_iff.mp h
  exact ⟨rfl, rfl⟩

/-- What is stored under a route for the routes of a kind: the picked servers that have
    it. -/
theorem mem_serversOf_stored {routes : Server → List Route}
    (hroutes : ∀ t u : Server, withHostLong t = some u → routes u = routes t) {picks ts : List Server}
    (hts : picks.mapM withHostLong = some ts) {r : Route} (u : Server) :
    u ∈ serversOf routes ts r ↔ ∃ t ∈ picks, r ∈ routes t ∧ withHostLong t = some u := by
  rw [mem_serversOf, mem_mapM_withHostLong hts]
  constructor
  · intro h
    obtain ⟨⟨t, ht, htu⟩, hr⟩ := h
    exact ⟨t, ht, hroutes t u htu ▸ hr, htu⟩
  · intro h
    obtain ⟨t, ht, hr, htu⟩ := h
    exact ⟨⟨t, ht, htu⟩, (hroutes t u htu).symm ▸ hr⟩

theorem serversOf_stored_eq_nil {routes : Server → List Route}
    (hroutes : ∀ t u : Server, withHostLong t = some u → routes u = routes t) {picks ts : List Server}
    (hts : picks.mapM withHostLong = some ts) {r : Route} :
    serversOf routes ts r = [] ↔ ¬ ∃ t ∈ picks, r ∈ routes t := by
  rw [List.eq_nil_iff_forall_not_mem]
  constructor
  · intro h hex
    obtain ⟨t, ht, hr⟩ := hex
    obtain ⟨u, hu⟩ := withHostLong_of_mapM hts ht
    exact h u ((mem_serversOf_stored hroutes hts u).mpr ⟨t, ht, hr, hu⟩)
  · intro h u hu
    obtain ⟨t, ht, hr, -⟩ := (mem_serversOf_stored hroutes hts u).mp hu
    exact h ⟨t, ht, hr⟩

/-! ## The frame of an update -/

theorem lookup_cleanPartitions_keys {name a : String} (ha : a ≠ name) (keys : FinMap String (Finset UInt64))
    (cur : Services) : (cleanPartitions name keys cur).1.lookup a = keys.lookup a := by
  unfold cleanPartitions
  split
  · rfl
  · exact Finmap.lookup_insert_of_ne _ ha

theorem lookup_lastPartitionKeys_publish (db : RouterDb) (name : String) (built : Built) (a : String) :
    (db.publish name built).lastPartitionKeys.lookup a =
      if a = name then some built.partitionServers.keys else db.lastPartitionKeys.lookup a := by
  have hempty : keysAt (cleanPartitions name db.lastPartitionKeys db.serviceRegistry).1 name = ∅ := by
    rw [keysAt_cleanPartitions, if_pos rfl]
  show ((cleanPartitions name db.lastPartitionKeys db.serviceRegistry).1.insert name
    (keysAt (cleanPartitions name db.lastPartitionKeys db.serviceRegistry).1 name ∪
      built.partitionServers.keys)).lookup a = _
  rw [FinMap.lookup_insert_ite, hempty, Finset.empty_union]
  split
  · rfl
  · rename_i ha
    exact lookup_cleanPartitions_keys ha _ _

/-- The keys of the partition lists: those of the partitions that the picked edge nodes
    list. -/
theorem mem_keys_partitionServers {name : String} {picks ts : List Server} (hts : picks.mapM withHostLong = some ts)
    {k : UInt64} :
    k ∈ (builtOf H name ts).partitionServers.keys ↔
      ∃ p partitionHash dc, (∃ t ∈ picks, ListsPartition t p partitionHash dc) ∧
        getServiceKey H (edgeRoute name p partitionHash dc) = k := by
  constructor
  · intro h
    obtain ⟨u, hu, r, hr, rfl⟩ := mem_keys_grouped H h
    obtain ⟨t, ht, htu⟩ := (mem_mapM_withHostLong hts u).mp hu
    rw [(routes_of_withHostLong htu).2] at hr
    obtain ⟨hname, htype, hlists⟩ := mem_partitionRoutes.mp hr
    refine ⟨r.protocol, r.routeId, r.dc, ⟨t, ht, hlists⟩, ?_⟩
    rw [edgeRoute, ← hname, ← htype]
  · intro h
    obtain ⟨p, partitionHash, dc, ⟨t, ht, hlists⟩, rfl⟩ := h
    obtain ⟨u, htu⟩ := withHostLong_of_mapM hts ht
    have hu : u ∈ ts := (mem_mapM_withHostLong hts u).mpr ⟨t, ht, htu⟩
    have hr : edgeRoute name p partitionHash dc ∈ partitionRoutes name u := by
      rw [(routes_of_withHostLong htu).2]
      exact mem_partitionRoutes.mpr ⟨rfl, rfl, hlists⟩
    have hpushed : u ∈ FinMap.pushedAt (ts.flatMap (pushes H (partitionRoutes name)))
        (getServiceKey H (edgeRoute name p partitionHash dc)) := by
      simp only [FinMap.pushedAt, List.mem_map, List.mem_filter, decide_eq_true_eq]
      exact ⟨_, ⟨List.mem_flatMap.mpr ⟨u, hu, List.mem_map.mpr ⟨_, hr, rfl⟩⟩, rfl⟩, rfl⟩
    refine Finmap.mem_keys.mpr (Finmap.mem_iff.mpr ?_)
    simp only [builtOf, FinMap.lookup_groupUp, if_neg (List.ne_nil_of_mem hpushed)]
    exact ⟨_, rfl⟩

/-- A partition that a picked edge node lists is found with exactly the picked edge nodes
    that list it. -/
theorem select_edgeRoute {K : Set Route} (hK : CollisionFree H K) {db : RouterDb} {name : String}
    {picks ts : List Server} (hts : picks.mapM withHostLong = some ts)
    (hin : (∀ u ∈ ts, ∀ r ∈ shardRoutes name u, r ∈ K) ∧ ∀ u ∈ ts, ∀ r ∈ partitionRoutes name u, r ∈ K)
    {p : ServerProtocol} {partitionHash : Int64} {dc : String} (hex : ∃ t ∈ picks, ListsPartition t p partitionHash dc) :
    ∃ l, (db.publish name (builtOf H name ts)).selectServers H (edgeRoute name p partitionHash dc) = some l ∧
      ∀ u, u ∈ l ↔ ∃ t ∈ picks, ListsPartition t p partitionHash dc ∧ withHostLong t = some u := by
  obtain ⟨t, ht, hlists⟩ := hex
  have hmem : ∀ t, edgeRoute name p partitionHash dc ∈ partitionRoutes name t ↔ ListsPartition t p partitionHash dc := by
    intro t
    rw [mem_partitionRoutes]
    exact ⟨fun h => h.2.2, fun h => ⟨rfl, rfl, h⟩⟩
  have hstored : ∀ t u, withHostLong t = some u → partitionRoutes name u = partitionRoutes name t :=
    fun t u h => (routes_of_withHostLong h).2
  have hne : serversOf (partitionRoutes name) ts (edgeRoute name p partitionHash dc) ≠ [] := by
    intro hnil
    exact (serversOf_stored_eq_nil hstored hts).mp hnil ⟨t, ht, (hmem t).mpr hlists⟩
  have hr : edgeRoute name p partitionHash dc ∈ K := by
    obtain ⟨u, htu⟩ := withHostLong_of_mapM hts ht
    refine hin.2 u ((mem_mapM_withHostLong hts u).mpr ⟨t, ht, htu⟩) _ ?_
    rw [hstored t u htu]
    exact (hmem t).mpr hlists
  refine ⟨serversOf (partitionRoutes name) ts (edgeRoute name p partitionHash dc), ?_, fun u => ?_⟩
  · rw [select_publish H hK hin hr, given, if_pos hne, Option.some_or]
  · rw [mem_serversOf_stored hstored hts]
    constructor
    · intro h
      obtain ⟨t, ht, hrt, htu⟩ := h
      exact ⟨t, ht, (hmem t).mp hrt, htu⟩
    · intro h
      obtain ⟨t, ht, hlists, htu⟩ := h
      exact ⟨t, ht, (hmem t).mpr hlists, htu⟩

/-- In every reachable state, a call for one service changes no lookup and no remembered key
    of another, and when it builds its lists, the keys it remembers are those of its
    partition lists, each found with exactly the picked edge nodes that list the
    partition (as stored, with their `host_long`). -/
theorem update_frame {K : Set Route} (hK : CollisionFree H K) (evs : List Ev) (hevs : ∀ e ∈ evs, e.InPlay K)
    (name : String) (list : List Server) (now : UInt64) (hplay : (Ev.updateServers name list now).InPlay K) :
    let db := run H {} evs
    let db' := db.apply H (.updateServers name list now)
    let picks := db.pickServers name list now
    (∀ r ∈ K, r.serviceName ≠ name → db'.selectServers H r = db.selectServers H r) ∧
    (∀ other, other ≠ name → db'.lastPartitionKeys.lookup other = db.lastPartitionKeys.lookup other) ∧
    ∀ built, buildServers H name picks = some built →
      db'.lastPartitionKeys.lookup name = some built.partitionServers.keys ∧
      (∀ k, k ∈ built.partitionServers.keys ↔ ∃ p partitionHash dc, (∃ t ∈ picks, ListsPartition t p partitionHash dc) ∧
        getServiceKey H (edgeRoute name p partitionHash dc) = k) ∧
      ∀ p partitionHash dc, (∃ t ∈ picks, ListsPartition t p partitionHash dc) →
        ∃ l, db'.serviceRegistry.lookup (getServiceKey H (edgeRoute name p partitionHash dc)) = some l ∧
          ∀ u, u ∈ l ↔ ∃ t ∈ picks, ListsPartition t p partitionHash dc ∧ withHostLong t = some u := by
  intro db db' picks
  have hown : Owned H K db := owned_run H hevs (owned_empty H K)
  refine ⟨fun r hr hne => select_apply_of_ne H hK hown hplay hr (fun h => hne h.symm), fun other hne => ?_,
    fun built hbuilt => ?_⟩
  · rcases apply_update H db name list now with h | ⟨ts, hts, h⟩
    · show (db.apply H _).lastPartitionKeys.lookup other = _
      rw [h]
    · show (db.apply H _).lastPartitionKeys.lookup other = _
      rw [h, lookup_lastPartitionKeys_publish, if_neg hne]
  · have hdb' : db' = db.publish name built := by
      show (db.updateServers H name list now).getD db = _
      simp only [updateServers, picks] at hbuilt ⊢
      rw [hbuilt]
      rfl
    rw [buildServers_eq] at hbuilt
    obtain ⟨ts, hts, rfl⟩ := Option.map_eq_some_iff.mp hbuilt
    refine ⟨?_, fun k => mem_keys_partitionServers H hts, fun p partitionHash dc hex => ?_⟩
    · rw [hdb', lookup_lastPartitionKeys_publish, if_pos rfl]
    · rw [hdb']
      exact select_edgeRoute H hK hts (routes_inPlay hplay hts) hex

/-- The routes that the events put in play. -/
def routesIn (evs : List Ev) : List Route :=
  evs.flatMap fun e => match e with
    | .updateServers name list _ => list.flatMap fun t => shardRoutes name t ++ partitionRoutes name t
    | .updateConfig _ _ => []

theorem inPlay_routesIn {evs : List Ev} {e : Ev} (he : e ∈ evs) : e.InPlay {r | r ∈ routesIn evs} := by
  cases e with
  | updateConfig name config => trivial
  | updateServers name list now =>
    have hmem : ∀ t ∈ list, ∀ r ∈ shardRoutes name t ++ partitionRoutes name t, r ∈ routesIn evs := by
      intro t ht r hr
      exact List.mem_flatMap.mpr ⟨_, he, List.mem_flatMap.mpr ⟨t, ht, hr⟩⟩
    intro t ht
    exact ⟨fun r hr => hmem t ht r (List.mem_append_left _ hr), fun r hr => hmem t ht r (List.mem_append_right _ hr)⟩

def edgeNode (host : String) (partitions : List Int64) : Server :=
  { host := host, port := 9000, serviceName := "predictor", status := .available, isEdgeNode := true,
    partitionList := partitions }

/-- A service with a shard, and edge nodes of another whose partition 7 moves. -/
def movedPartition : List Ev :=
  [.updateServers "feeder" [shardServer "10.0.0.1" 1] 0,
   .updateServers "predictor" [edgeNode "10.0.0.3" [7], edgeNode "10.0.0.4" [7, 8]] 0,
   .updateServers "predictor" [edgeNode "10.0.0.4" [8], edgeNode "10.0.0.5" [7]] 0]

theorem movedPartition_collisionFree : CollisionFree cityHash64WithSeed {r | r ∈ routesIn movedPartition} :=
  collisionFree_list cityHash64WithSeed (by decide +kernel)

/-- The other service keeps its shard, and partition 7 is the new edge node's. -/
theorem update_frame_moved :
    let db := run cityHash64WithSeed {} (movedPartition.take 2)
    let db' := db.apply cityHash64WithSeed (.updateServers "predictor" [edgeNode "10.0.0.4" [8], edgeNode "10.0.0.5" [7]] 0)
    let picks := db.pickServers "predictor" [edgeNode "10.0.0.4" [8], edgeNode "10.0.0.5" [7]] 0
    db'.selectServers cityHash64WithSeed (lookupRoute "feeder" .thrift 1 .leader "default") =
      db.selectServers cityHash64WithSeed (lookupRoute "feeder" .thrift 1 .leader "default") ∧
    ∃ l, db'.serviceRegistry.lookup (getServiceKey cityHash64WithSeed (edgeRoute "predictor" .thrift 7 "default")) =
        some l ∧
      ∀ u, u ∈ l ↔ ∃ t ∈ picks, ListsPartition t .thrift 7 "default" ∧ withHostLong t = some u := by
  intro db db' picks
  have hpicks : picks = [edgeNode "10.0.0.4" [8], edgeNode "10.0.0.5" [7]] := by decide +kernel
  obtain ⟨hother, -, hbuilt⟩ := update_frame cityHash64WithSeed movedPartition_collisionFree (movedPartition.take 2)
    (fun e he => inPlay_routesIn (List.mem_of_mem_take he)) "predictor"
    [edgeNode "10.0.0.4" [8], edgeNode "10.0.0.5" [7]] 0 (inPlay_routesIn (by simp [movedPartition]))
  have hfeeder : lookupRoute "feeder" .thrift 1 .leader "default" ∈ routesIn movedPartition := by decide
  refine ⟨hother _ hfeeder (by decide), ?_⟩
  have hsome : (buildServers cityHash64WithSeed "predictor" picks).isSome := by
    rw [hpicks]
    decide +kernel
  obtain ⟨built, hb⟩ := Option.isSome_iff_exists.mp hsome
  refine (hbuilt built hb).2.2 .thrift 7 "default" ⟨edgeNode "10.0.0.5" [7], ?_, rfl, rfl, rfl, by decide⟩
  show _ ∈ picks
  rw [hpicks]
  simp

/-- An edge node whose host `ipToInt` cannot read makes the call throw, and the old keys stay. -/
theorem update_frame_fails_for_localhost :
    ¬ ∀ (evs : List Ev) (name : String) (list : List Server) (now : UInt64),
      CollisionFree cityHash64WithSeed {r | r ∈ routesIn (evs ++ [.updateServers name list now])} →
      let db := run cityHash64WithSeed {} evs
      let db' := db.apply cityHash64WithSeed (.updateServers name list now)
      ∀ k, k ∈ db'.partitionKeysOf name ↔ ∃ p partitionHash dc,
        (∃ t ∈ db.pickServers name list now, ListsPartition t p partitionHash dc) ∧
          getServiceKey cityHash64WithSeed (edgeRoute name p partitionHash dc) = k := by
  intro h
  have hfree : CollisionFree cityHash64WithSeed {r | r ∈ routesIn
      ([.updateServers "predictor" [edgeNode "10.0.0.3" [7]] 0] ++
        [.updateServers "predictor" [edgeNode "localhost" [8]] 0])} :=
    collisionFree_list cityHash64WithSeed (by decide +kernel)
  have hkey := (h [.updateServers "predictor" [edgeNode "10.0.0.3" [7]] 0] "predictor" [edgeNode "localhost" [8]] 0 hfree
    (getServiceKey cityHash64WithSeed (edgeRoute "predictor" .thrift 8 "default"))).mpr
    ⟨.thrift, 8, "default", ⟨edgeNode "localhost" [8], by decide +kernel, rfl, rfl, rfl, by decide⟩, rfl⟩
  exact absurd hkey (by decide +kernel)

end RouterDb

namespace LoadBalance

open RouterDb (Ev ListsPartition Serves Owned withHostLong serversOf shardRoutes partitionRoutes partitionKeysOf given builtOf
  mem_shardRoutes mem_partitionRoutes routes_of_withHostLong)

variable (H : Hash64)

/-! ## The client of a service -/

def addressOf (t : Server) : ServerAddress := ⟨t.host, t.port⟩

/-- `serviceClient` once the service is discovered, with what the generators answer to the
    two selections: a server of the edge nodes when they are asked for, else one of the
    shard. -/
def serviceClient (db : RouterDb) (balancers : Balancers) (option : ClientOption) (tid : Nat) (x y : Chance) :
    Option (Option ServerAddress) × Balancers :=
  let target := option.targetServerAddress
  if target.port ≠ 0 ∧ target.host ≠ "" then (some (some target), balancers)
  else
    let edge := if option.routeToEdgeNode then edgeDiscover H db balancers option tid x else (some none, balancers)
    match edge with
    | (none, balancers) => (none, balancers)
    | (some (some t), balancers) => (some (some (addressOf t)), balancers)
    | (some none, balancers) =>
      let (t, balancers) := discover H db balancers option tid y
      (t.map (Option.map addressOf), balancers)

/-! ## Edge nodes only -/

/-- The table, and the picked servers of the service's latest update. -/
structure Tracked where
  db : RouterDb := {}
  picks : List Server := []

/-- The servers picked by a call for the service that returns. -/
def picksAfter (name : String) (s : Tracked) : Ev → List Server
  | .updateServers n list now =>
    if n = name ∧ (s.db.updateServers H n list now).isSome then s.db.pickServers n list now else s.picks
  | .updateConfig _ _ => s.picks

def track (name : String) (s : Tracked) (e : Ev) : Option Tracked := some ⟨s.db.apply H e, picksAfter H name s e⟩

/-- A picked edge node of the service, protocol and data centre lists the partition. -/
def PartitionListed (picks : List Server) (option : ClientOption) : Prop :=
  ∃ t ∈ picks, ListsPartition t option.protocol option.partitionHash option.dc

/-- `edgeDiscover` answers edge nodes that list the partition, and none when no picked one
    does, so that `serviceClient` falls back to `discover`: for every balancer in force,
    thread and answer of the generators. -/
structure EdgeOnly (s : Tracked) (option : ClientOption) : Prop where
  edge : ∀ balancers tid x t, (edgeDiscover H s.db balancers option tid x).1 = some (some t) →
    t.isEdgeNode = true ∧ option.partitionHash ∈ t.partitionList
  unlisted : ¬ PartitionListed s.picks option → ∀ balancers tid x,
    edgeDiscover H s.db balancers option tid x = (some none, balancers)
  fallback : ¬ PartitionListed s.picks option → option.targetServerAddress = {} → ∀ balancers tid x y,
    serviceClient H s.db balancers option tid x y =
      ((discover H s.db balancers option tid y).1.map (Option.map addressOf), (discover H s.db balancers option tid y).2)

/-- A picked server that is no edge node serves the shard whose id is the partition hash,
    in the role the option asks for. -/
def ShardServed (picks : List Server) (option : ClientOption) : Prop :=
  ∃ t ∈ picks, ∃ s : UInt32, s.toUInt64.toInt64 = option.partitionHash ∧
    Serves t option.protocol s option.shardType option.dc

/-- An update of the service that returns puts no shard list under the option's route: no
    picked server serves that shard, or a partition list is laid over it. -/
def KeepsEdge (option : ClientOption) (s : Tracked) : Ev → Prop
  | .updateServers name list now =>
    name = option.serviceName → (s.db.updateServers H name list now).isSome →
      (option.shardType = .follower ∧ PartitionListed (s.db.pickServers name list now) option) ∨
      ¬ ShardServed (s.db.pickServers name list now) option
  | .updateConfig _ _ => True

/-- The first of a list can be selected. -/
theorem exists_select {list : ServerList} (hne : list ≠ []) :
    ∃ t ∈ list, select list 0 {} .random = (some (some t), .random) := by
  obtain ⟨t, rest, rfl⟩ := List.exists_cons_of_ne_nil hne
  refine ⟨t, List.mem_cons_self, ?_⟩
  have hdraw : secureRand32 (size (t :: rest)) {} = 0 := by
    unfold secureRand32
    split
    · rfl
    · exact Nat.zero_mod _
  simp [select, selectFrom, pickAny, hdraw]

variable {H}

theorem edgeDiscover_none {db : RouterDb} {option : ClientOption}
    (h : db.selectServers H (routeOf option option.partitionHash) = none) (balancers : Balancers) (tid : Nat) (x : Chance) :
    edgeDiscover H db balancers option tid x = (some none, balancers) := by
  simp only [edgeDiscover, discoverRoute, h]

/-- Some balancer in force answers a server of the list. -/
theorem exists_edgeDiscover {db : RouterDb} {option : ClientOption} {list : ServerList}
    (h : db.selectServers H (routeOf option option.partitionHash) = some list) (hne : list ≠ []) :
    ∃ t ∈ list, ∃ balancers, (edgeDiscover H db balancers option 0 {}).1 = some (some t) := by
  obtain ⟨t, ht, hsel⟩ := exists_select hne
  refine ⟨t, ht, Finmap.singleton (balanceId H option) .random, ?_⟩
  simp only [edgeDiscover, discoverRoute, h, selectServers, getOrCreateBalance, Finmap.lookup_singleton_eq,
    Option.some_or, hsel]

/-- A list of edge nodes that list the partition, under a remembered key. -/
structure PartitionAt (H : Hash64) (s : Tracked) (option : ClientOption) (list : ServerList) : Prop where
  remembered : getServiceKey H (routeOf option option.partitionHash) ∈ s.db.partitionKeysOf option.serviceName
  listed : PartitionListed s.picks option
  edge : ∀ u ∈ list, u.isEdgeNode = true ∧ option.partitionHash ∈ u.partitionList

/-- What the table holds under the option's route: servers of a shard, or a partition
    list. -/
structure Routed (H : Hash64) (K : Set Route) (option : ClientOption) (s : Tracked) : Prop where
  owned : Owned H K s.db
  list : ∀ list, s.db.selectServers H (routeOf option option.partitionHash) = some list →
    list ≠ [] ∧ ((∀ u ∈ list, u.isEdgeNode = false) ∨ PartitionAt H s option list)

theorem edgeOnly_iff_partitionAt {K : Set Route} {option : ClientOption} {s : Tracked} (hs : Routed H K option s) :
    EdgeOnly H s option ↔
      ∀ list, s.db.selectServers H (routeOf option option.partitionHash) = some list → PartitionAt H s option list := by
  constructor
  · intro h list hlist
    obtain ⟨hne, hshard | hpart⟩ := hs.list list hlist
    · obtain ⟨t, ht, balancers, hsel⟩ := exists_edgeDiscover hlist hne
      have hedge := (h.edge balancers 0 {} t hsel).1
      rw [hshard t ht] at hedge
      cases hedge
    · exact hpart
  · intro h
    have hunlisted : ¬ PartitionListed s.picks option → ∀ balancers tid x,
        edgeDiscover H s.db balancers option tid x = (some none, balancers) := by
      intro hno balancers tid x
      refine edgeDiscover_none ?_ balancers tid x
      cases hlist : s.db.selectServers H (routeOf option option.partitionHash) with
      | none => rfl
      | some list => exact absurd (h list hlist).listed hno
    refine ⟨fun balancers tid x t ht => ?_, hunlisted, fun hno htarget balancers tid x y => ?_⟩
    · unfold edgeDiscover discoverRoute at ht
      split at ht
      · cases ht
      · rename_i list hlist
        exact (h list hlist).edge t (mem_of_selectServers H ht)
    · simp [serviceClient, htarget, hunlisted hno balancers tid x]

/-- A call for another service, one that throws, or a change of a config leaves what the
    option's route depends on; any other publishes the lists of its picked servers. -/
theorem track_cases {K : Set Route} (hK : CollisionFree H K) {option : ClientOption}
    (hr : routeOf option option.partitionHash ∈ K) {s t : Tracked} {e : Ev} (he : e.InPlay K) (hs : Owned H K s.db)
    (h : track H option.serviceName s e = some t) :
    (KeepsEdge H option s e ∧ t.picks = s.picks ∧
      t.db.partitionKeysOf option.serviceName = s.db.partitionKeysOf option.serviceName ∧
      t.db.selectServers H (routeOf option option.partitionHash) =
        s.db.selectServers H (routeOf option option.partitionHash)) ∨
    ∃ list now ts, e = .updateServers option.serviceName list now ∧
      (s.db.pickServers option.serviceName list now).mapM withHostLong = some ts ∧
      t = ⟨s.db.publish option.serviceName (builtOf H option.serviceName ts),
        s.db.pickServers option.serviceName list now⟩ := by
  obtain rfl := (Option.some.inj h).symm
  cases e with
  | updateConfig name config => exact Or.inl ⟨trivial, rfl, rfl, rfl⟩
  | updateServers name list now =>
    by_cases hname : name = option.serviceName
    · subst hname
      cases hu : s.db.updateServers H option.serviceName list now with
      | none =>
        have happly : s.db.apply H (.updateServers option.serviceName list now) = s.db := by
          show (s.db.updateServers H _ list now).getD s.db = s.db
          rw [hu]
          rfl
        refine Or.inl ⟨fun _ hsome => ?_, ?_, ?_, ?_⟩
        · rw [hu] at hsome
          cases hsome
        · simp [picksAfter, hu]
        · rw [happly]
        · rw [happly]
      | some db' =>
        obtain ⟨ts, hts, rfl⟩ := RouterDb.updateServers_some H hu
        refine Or.inr ⟨list, now, ts, rfl, hts, ?_⟩
        have happly : s.db.apply H (.updateServers option.serviceName list now) =
            s.db.publish option.serviceName (builtOf H option.serviceName ts) := by
          show (s.db.updateServers H _ list now).getD s.db = _
          rw [hu]
          rfl
        simp [happly, picksAfter, hu]
    · refine Or.inl ⟨fun h => absurd h hname, by simp [picksAfter, hname], ?_, ?_⟩
      · show (s.db.apply H _).partitionKeysOf _ = _
        rcases RouterDb.apply_update H s.db name list now with happly | ⟨ts, -, happly⟩
        · rw [happly]
        · rw [happly, RouterDb.partitionKeysOf_publish, if_neg (Ne.symm hname)]
      · exact RouterDb.select_apply_of_ne H hK hs he hr hname

theorem mem_shardRoutes_routeOf {option : ClientOption} {t : Server} :
    routeOf option option.partitionHash ∈ shardRoutes option.serviceName t ↔
      ∃ s : UInt32, s.toUInt64.toInt64 = option.partitionHash ∧
        Serves t option.protocol s option.shardType option.dc := by
  rw [mem_shardRoutes]
  exact ⟨fun h => h.2, fun h => ⟨rfl, h⟩⟩

theorem mem_partitionRoutes_routeOf {option : ClientOption} {t : Server} :
    routeOf option option.partitionHash ∈ partitionRoutes option.serviceName t ↔
      option.shardType = .follower ∧ ListsPartition t option.protocol option.partitionHash option.dc := by
  rw [mem_partitionRoutes]
  exact ⟨fun h => h.2, fun h => ⟨rfl, h⟩⟩

section Publish

variable {K : Set Route} (hK : CollisionFree H K) {option : ClientOption} (hr : routeOf option option.partitionHash ∈ K)
  {picks ts : List Server} (hts : picks.mapM withHostLong = some ts)
  (hin : (∀ u ∈ ts, ∀ r ∈ shardRoutes option.serviceName u, r ∈ K) ∧
    ∀ u ∈ ts, ∀ r ∈ partitionRoutes option.serviceName u, r ∈ K)

theorem partitionList_eq_nil (hts : picks.mapM withHostLong = some ts) :
    serversOf (partitionRoutes option.serviceName) ts (routeOf option option.partitionHash) = [] ↔
      ¬ (option.shardType = .follower ∧ PartitionListed picks option) := by
  rw [RouterDb.serversOf_stored_eq_nil (fun t u h => (routes_of_withHostLong h).2) hts, not_iff_not]
  constructor
  · intro h
    obtain ⟨t, ht, hrt⟩ := h
    obtain ⟨htype, hlists⟩ := mem_partitionRoutes_routeOf.mp hrt
    exact ⟨htype, t, ht, hlists⟩
  · intro h
    obtain ⟨htype, t, ht, hlists⟩ := h
    exact ⟨t, ht, mem_partitionRoutes_routeOf.mpr ⟨htype, hlists⟩⟩

theorem shardList_eq_nil (hts : picks.mapM withHostLong = some ts) :
    serversOf (shardRoutes option.serviceName) ts (routeOf option option.partitionHash) = [] ↔
      ¬ ShardServed picks option := by
  rw [RouterDb.serversOf_stored_eq_nil (fun t u h => (routes_of_withHostLong h).1) hts, not_iff_not]
  simp only [mem_shardRoutes_routeOf, ShardServed]

include hK hr hts hin

/-- A partition list is laid over the shard lists. -/
theorem publish_partition (db : RouterDb) (h : option.shardType = .follower ∧ PartitionListed picks option) :
    ∃ list, (db.publish option.serviceName (builtOf H option.serviceName ts)).selectServers H
        (routeOf option option.partitionHash) = some list ∧ list ≠ [] ∧
      PartitionAt H ⟨db.publish option.serviceName (builtOf H option.serviceName ts), picks⟩ option list := by
  have hne : serversOf (partitionRoutes option.serviceName) ts (routeOf option option.partitionHash) ≠ [] :=
    fun hnil => (partitionList_eq_nil hts).mp hnil h
  refine ⟨_, ?_, hne, ?_, h.2, fun u hu => ?_⟩
  · rw [RouterDb.select_publish H hK hin hr, given, if_pos hne, Option.some_or]
  · obtain ⟨t, ht, hlists⟩ := h.2
    show _ ∈ (db.publish option.serviceName (builtOf H option.serviceName ts)).partitionKeysOf option.serviceName
    rw [RouterDb.partitionKeysOf_publish, if_pos rfl, RouterDb.mem_keys_partitionServers H hts]
    refine ⟨option.protocol, option.partitionHash, option.dc, ⟨t, ht, hlists⟩, ?_⟩
    rw [RouterDb.edgeRoute, routeOf, h.1]
  · obtain ⟨t, -, hrt, htu⟩ := (RouterDb.mem_serversOf_stored (fun t u h => (routes_of_withHostLong h).2) hts u).mp hu
    obtain ⟨-, hlists⟩ := mem_partitionRoutes_routeOf.mp hrt
    obtain ⟨hedge, hpart⟩ := RouterDb.isEdgeNode_of_withHostLong htu
    rw [hedge, hpart]
    exact ⟨hlists.edge, hlists.partition⟩

theorem publish_shard (db : RouterDb) (hno : ¬ (option.shardType = .follower ∧ PartitionListed picks option))
    (h : ShardServed picks option) :
    ∃ list, (db.publish option.serviceName (builtOf H option.serviceName ts)).selectServers H
        (routeOf option option.partitionHash) = some list ∧ list ≠ [] ∧ ∀ u ∈ list, u.isEdgeNode = false := by
  have hne : serversOf (shardRoutes option.serviceName) ts (routeOf option option.partitionHash) ≠ [] :=
    fun hnil => (shardList_eq_nil hts).mp hnil h
  refine ⟨_, ?_, hne, fun u hu => ?_⟩
  · rw [RouterDb.select_publish H hK hin hr, given, if_neg (not_not.mpr ((partitionList_eq_nil hts).mpr hno)), if_pos hne,
      Option.some_or]
  · obtain ⟨t, -, hrt, htu⟩ := (RouterDb.mem_serversOf_stored (fun t u h => (routes_of_withHostLong h).1) hts u).mp hu
    obtain ⟨s, -, hserves⟩ := mem_shardRoutes_routeOf.mp hrt
    rw [(RouterDb.isEdgeNode_of_withHostLong htu).1]
    exact hserves.notEdge

theorem publish_neither (db : RouterDb) (hno : ¬ (option.shardType = .follower ∧ PartitionListed picks option))
    (h : ¬ ShardServed picks option) :
    (db.publish option.serviceName (builtOf H option.serviceName ts)).selectServers H (routeOf option option.partitionHash) =
      if getServiceKey H (routeOf option option.partitionHash) ∈ db.partitionKeysOf option.serviceName then none
      else db.selectServers H (routeOf option option.partitionHash) := by
  rw [RouterDb.select_publish H hK hin hr, given, if_neg (not_not.mpr ((partitionList_eq_nil hts).mpr hno)),
    if_neg (not_not.mpr ((shardList_eq_nil hts).mpr h)), Option.none_or]

end Publish

theorem routed_track {K : Set Route} (hK : CollisionFree H K) {option : ClientOption}
    (hr : routeOf option option.partitionHash ∈ K) {s t : Tracked} {e : Ev} (he : e.InPlay K)
    (hs : Routed H K option s) (h : track H option.serviceName s e = some t) : Routed H K option t := by
  have hown : Owned H K t.db := by
    obtain rfl := (Option.some.inj h).symm
    exact RouterDb.owned_apply H hs.owned he
  refine ⟨hown, fun list hlist => ?_⟩
  rcases track_cases hK hr he hs.owned h with ⟨-, hpicks, hkeys, hsel⟩ | ⟨servers, now, ts, rfl, hts, rfl⟩
  · rw [hsel] at hlist
    obtain ⟨hne, hshard | hpart⟩ := hs.list list hlist
    · exact ⟨hne, Or.inl hshard⟩
    · refine ⟨hne, Or.inr ⟨?_, ?_, hpart.edge⟩⟩
      · rw [hkeys]
        exact hpart.remembered
      · rw [hpicks]
        exact hpart.listed
  · have hin := RouterDb.routes_inPlay he hts
    by_cases hpart : option.shardType = .follower ∧ PartitionListed (s.db.pickServers option.serviceName servers now) option
    · obtain ⟨l, hl, hne, hat⟩ := publish_partition hK hr hts hin s.db hpart
      obtain rfl := Option.some.inj (hl.symm.trans hlist)
      exact ⟨hne, Or.inr hat⟩
    · by_cases hshard : ShardServed (s.db.pickServers option.serviceName servers now) option
      · obtain ⟨l, hl, hne, hedge⟩ := publish_shard hK hr hts hin s.db hpart hshard
        obtain rfl := Option.some.inj (hl.symm.trans hlist)
        exact ⟨hne, Or.inl hedge⟩
      · -- an old list survives only when it was no partition list
        rw [publish_neither hK hr hts hin s.db hpart hshard] at hlist
        split at hlist
        · cases hlist
        · rename_i hkey
          obtain ⟨hne, hold | hold⟩ := hs.list list hlist
          · exact ⟨hne, Or.inl hold⟩
          · exact absurd hold.remembered hkey

theorem edgeOnly_track {K : Set Route} (hK : CollisionFree H K) {option : ClientOption}
    (hr : routeOf option option.partitionHash ∈ K) {s t : Tracked} {e : Ev} (he : e.InPlay K)
    (hs : Routed H K option s) (hgood : EdgeOnly H s option) (h : track H option.serviceName s e = some t) :
    EdgeOnly H t option ↔ KeepsEdge H option s e := by
  have ht := routed_track hK hr he hs h
  have hold := (edgeOnly_iff_partitionAt hs).mp hgood
  rw [edgeOnly_iff_partitionAt ht]
  rcases track_cases hK hr he hs.owned h with ⟨hkeeps, hpicks, hkeys, hsel⟩ | ⟨servers, now, ts, rfl, hts, rfl⟩
  · refine ⟨fun _ => hkeeps, fun _ list hlist => ?_⟩
    rw [hsel] at hlist
    have hpart := hold list hlist
    refine ⟨?_, ?_, hpart.edge⟩
    · rw [hkeys]
      exact hpart.remembered
    · rw [hpicks]
      exact hpart.listed
  · have hin := RouterDb.routes_inPlay he hts
    have hsome : (s.db.updateServers H option.serviceName servers now).isSome := by
      rw [RouterDb.updateServers, RouterDb.buildServers_eq, hts]
      rfl
    by_cases hpart : option.shardType = .follower ∧ PartitionListed (s.db.pickServers option.serviceName servers now) option
    · obtain ⟨l, hl, -, hat⟩ := publish_partition hK hr hts hin s.db hpart
      refine ⟨fun _ _ _ => Or.inl hpart, fun _ list hlist => ?_⟩
      obtain rfl := Option.some.inj (hl.symm.trans hlist)
      exact hat
    · by_cases hshard : ShardServed (s.db.pickServers option.serviceName servers now) option
      · obtain ⟨l, hl, hne, hedge⟩ := publish_shard hK hr hts hin s.db hpart hshard
        constructor
        · intro hall
          obtain ⟨u, hu⟩ := List.exists_mem_of_ne_nil _ hne
          have := ((hall l hl).edge u hu).1
          rw [hedge u hu] at this
          cases this
        · intro hkeeps
          rcases hkeeps rfl hsome with h' | h'
          · exact absurd h' hpart
          · exact absurd hshard h'
      · refine ⟨fun _ _ _ => Or.inr hshard, fun _ list hlist => ?_⟩
        rw [publish_neither hK hr hts hin s.db hpart hshard] at hlist
        split at hlist
        · cases hlist
        · rename_i hkey
          exact absurd (hold list hlist).remembered hkey

/-- Every state of a run answers edge nodes only for an option iff every step keeps shard
    lists from under its route. -/
theorem edgeOnly_iff {K : Set Route} (hK : CollisionFree H K) (option : ClientOption)
    (hr : routeOf option option.partitionHash ∈ K) {evs : List Ev} (hevs : ∀ e ∈ evs, e.InPlay K) {t : Tracked}
    (hrun : Lib.run (track H option.serviceName) {} evs = some t) :
    (∀ evs₁ evs₂ u, evs = evs₁ ++ evs₂ → Lib.run (track H option.serviceName) {} evs₁ = some u → EdgeOnly H u option) ↔
      Meets (track H option.serviceName) (KeepsEdge H option) {} evs := by
  have h0 : Routed H K option {} := ⟨RouterDb.owned_empty H K, fun list hlist => by simp [RouterDb.selectServers] at hlist⟩
  have hgood : EdgeOnly H {} option := by
    refine (edgeOnly_iff_partitionAt h0).mpr fun list hlist => ?_
    simp [RouterDb.selectServers] at hlist
  exact prefixes_iff_meets_on _ (fun e => e.InPlay K) (KeepsEdge H option) (Routed H K option) (EdgeOnly H · option)
    (fun s t e he hs h => routed_track hK hr he hs h) (fun s t e he hs hg h => edgeOnly_track hK hr he hs hg h) hevs h0
    hgood hrun

/-- A client that asks for an edge node of a partition. -/
def toEdge (partitionHash : Int64) (type : ShardType) : ClientOption where
  serviceName := "predictor"
  partitionHash := partitionHash
  routeToEdgeNode := true
  shardType := type
  protocol := .thrift
  loadBalance := .roundrobin

/-- A server that leads shard 1 and an edge node with partition 7. -/
def shardAndEdge : Ev :=
  .updateServers "predictor" [RouterDb.shardServer "10.0.0.1" 1, RouterDb.edgeNode "10.0.0.3" [7]] 0

theorem shardAndEdge_collisionFree : CollisionFree cityHash64WithSeed {r | r ∈ RouterDb.routesIn [shardAndEdge]} :=
  RouterDb.collisionFree_list cityHash64WithSeed (by decide +kernel)

/-- With the type of the stored lists, partition 7 is answered with edge nodes. -/
theorem edgeOnly_iff_follower :
    ∃ u, Lib.run (track cityHash64WithSeed "predictor") {} [shardAndEdge] = some u ∧
      EdgeOnly cityHash64WithSeed u (toEdge 7 .follower) := by
  have hrun : ∃ u, Lib.run (track cityHash64WithSeed "predictor") {} [shardAndEdge] = some u := ⟨_, rfl⟩
  obtain ⟨u, hu⟩ := hrun
  have hpicks : RouterDb.pickServers {} "predictor"
      [RouterDb.shardServer "10.0.0.1" 1, RouterDb.edgeNode "10.0.0.3" [7]] 0 =
      [RouterDb.shardServer "10.0.0.1" 1, RouterDb.edgeNode "10.0.0.3" [7]] := by
    decide +kernel
  have hr : routeOf (toEdge 7 .follower) 7 ∈ RouterDb.routesIn [shardAndEdge] := by decide
  refine ⟨u, hu, (edgeOnly_iff shardAndEdge_collisionFree (toEdge 7 .follower) hr
    (fun e he => RouterDb.inPlay_routesIn he) hu).mpr ?_ [shardAndEdge] [] u rfl hu⟩
  refine ⟨fun _ _ => Or.inl ⟨rfl, RouterDb.edgeNode "10.0.0.3" [7], ?_, rfl, rfl, rfl, by decide⟩, fun _ _ => trivial⟩
  show _ ∈ RouterDb.pickServers {} "predictor" _ 0
  rw [hpicks]
  simp

/-- No edge node lists partition 1, but `edgeDiscover` answers the server that leads
    shard 1. -/
theorem a_shard_is_discovered_as_a_partition :
    ∃ u t, Lib.run (track cityHash64WithSeed "predictor") {} [shardAndEdge] = some u ∧
      (toEdge 1 .leader).routeToEdgeNode = true ∧
      (edgeDiscover cityHash64WithSeed u.db ∅ (toEdge 1 .leader) 0 {}).1 = some (some t) ∧ t.isEdgeNode = false ∧
      ¬ EdgeOnly cityHash64WithSeed u (toEdge 1 .leader) := by
  have hsel : (edgeDiscover cityHash64WithSeed (RouterDb.apply cityHash64WithSeed {} shardAndEdge) ∅ (toEdge 1 .leader)
      0 {}).1 = some (some { RouterDb.shardServer "10.0.0.1" 1 with hostLong := 167772161 }) := by
    decide +kernel
  refine ⟨_, _, rfl, rfl, hsel, rfl, fun h => ?_⟩
  have hedge := (h.edge ∅ 0 {} _ hsel).1
  cases hedge

end LoadBalance

end PredictorService.ServiceRouter
