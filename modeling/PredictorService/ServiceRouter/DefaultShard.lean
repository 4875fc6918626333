/-
  PredictorService.ServiceRouter.DefaultShard — the lookups of a service without shards
  (service_router/router.cc, `RouterDb::updateServers`, `Router::discover`;
  service_router/service_manager.cc, `listAllService`, `listService`).

  `updateServers` pushes a server without shards under the shard id 4294967295, a `uint32_t`
  that is widened to the `int64_t` of `getServiceKey`, and the default of a `ClientOption`
  takes the same way. The management commands pass -1 for the `int64_t`, and no server is
  ever pushed under that route (`select_managerRoute`).
  - `client_finds_unsharded`: a client finds every picked server without shards that is no
    edge node.
  - `list_shows_none`: `list` shows no server as available and none as a candidate.
  - `found_iff`: client and manager find one list with all the servers iff there are none,
    and the client found none before.
  - `a_server_only_the_client_finds`: one server.
-/

import PredictorService.ServiceRouter.EdgeNodes
import PredictorService.ServiceRouter.Registry
import PredictorService.ServiceRouter.ShardRoles

namespace PredictorService.ServiceRouter

open PredictorService.Lib (FinMap)
open PredictorService.Thirdparty (cityHash64WithSeed)
open RouterDb

variable (H : Hash64)

/-- The data centre of a `getServerList` without one. -/
def DEFAULT_DC : String := "default"

/-- `getServerList` of the router, once the puller of the service runs. -/
def getServerList (db : RouterDb) (serviceName : String) (protocol : ServerProtocol) (routeId : Int64) (type : ShardType)
    (dc : String) : Option ServerList :=
  db.selectServers H ⟨serviceName, protocol, routeId, type, dc⟩

/-! ## The clients and the management commands -/

/-- The list that `discover` selects from. -/
def discoverList (db : RouterDb) (option : ClientOption) : Option ServerList :=
  getServerList H db option.serviceName option.protocol option.shardId.toUInt64.toInt64 option.shardType option.dc

/-- The list that `listAllService` and `listService` ask for. -/
def commandList (db : RouterDb) (serviceName : String) (protocol : ServerProtocol) : Option ServerList :=
  getServerList H db serviceName protocol (-1) .leader DEFAULT_DC

inductive ConsoleTableColor where
  | red
  | green
  deriving DecidableEq, Repr

/-- The cell `Available` of `listAllService`. -/
def availableCell (db : RouterDb) (serviceName : String) : Nat × ConsoleTableColor :=
  let thriftServerList := commandList H db serviceName .thrift
  let httpServerList := commandList H db serviceName .http
  if httpServerList = none ∧ thriftServerList = none then (0, .red)
  else ((httpServerList.getD []).length + (thriftServerList.getD []).length, .green)

/-- `discover_map` of `listService`. -/
def discoverMap (db : RouterDb) (serviceName : String) : FinMap String Server :=
  let add (m : FinMap String Server) (list : Option ServerList) : FinMap String Server :=
    (list.getD []).foldl (fun m t => m.insert (ConsulNode.getNodeName t) t) m
  add (add ∅ (commandList H db serviceName .thrift)) (commandList H db serviceName .http)

/-- The cell `Candidate` of `listService`. -/
def candidateCell (db : RouterDb) (serviceName : String) (server : Server) : String × ConsoleTableColor :=
  if (discoverMap H db serviceName).lookup (ConsulNode.getNodeName server) = none then ("NO", .red) else ("YES", .green)

/-! ## Where no server is pushed -/

/-- A key is remembered for a service by an update of it. -/
theorem mem_partitionKeysOf_run {evs : List Ev} {name : String} {k : UInt64}
    (hk : k ∈ (run H {} evs).partitionKeysOf name) :
    ∃ list now, Ev.updateServers name list now ∈ evs ∧
      ∃ t ∈ list, ∃ r ∈ partitionRoutes name t, getServiceKey H r = k := by
  induction evs using List.reverseRecOn with
  | nil => simp [run, partitionKeysOf, keysAt] at hk
  | append_singleton evs e ih =>
    rw [run, List.foldl_append] at hk
    rcases mem_partitionKeysOf_apply H hk with hk | ⟨list, now, rfl, hroute⟩
    · obtain ⟨list, now, he, hroute⟩ := ih hk
      exact ⟨list, now, List.mem_append_left _ he, hroute⟩
    · exact ⟨list, now, by simp, hroute⟩

/-- A route in play that no server has is not found in any reachable state. -/
theorem select_run_of_unrouted {K : Set Route} (hK : CollisionFree H K) {evs : List Ev} (hevs : ∀ e ∈ evs, e.InPlay K)
    {r : Route} (hr : r ∈ K) (hno : ∀ name t, r ∉ shardRoutes name t ∧ r ∉ partitionRoutes name t) :
    (run H {} evs).selectServers H r = none := by
  induction evs using List.reverseRecOn with
  | nil => simp [run, selectServers]
  | append_singleton evs e ih =>
    have hbefore := ih fun e' he' => hevs e' (List.mem_append_left _ he')
    have he := hevs e (by simp)
    rw [run, List.foldl_append]
    show ((run H {} evs).apply H e).selectServers H r = none
    cases e with
    | updateConfig name config => exact hbefore
    | updateServers name list now =>
      rcases apply_update H (run H {} evs) name list now with h | ⟨ts, hts, h⟩
      · rw [h]
        exact hbefore
      · rw [h, select_publish H hK (routes_inPlay he hts) hr, given_eq_none fun u _ => hno name u, hbefore]
        simp

def managerRoute (name : String) (p : ServerProtocol) : Route := ⟨name, p, -1, .leader, DEFAULT_DC⟩

/-- A shard id is not negative as an `int64_t`. -/
theorem toRouteId_ne_neg_one (s : UInt32) : s.toUInt64.toInt64 ≠ -1 := by
  intro h
  have hword : s.toUInt64 = (-1 : Int64).toUInt64 := by rw [← h, UInt64.toUInt64_toInt64]
  have hnat : s.toNat = (-1 : Int64).toUInt64.toNat := by rw [← hword, UInt32.toNat_toUInt64]
  have hmax : (-1 : Int64).toUInt64.toNat = 18446744073709551615 := by decide
  have hlt := s.toNat_lt
  omega

theorem managerRoute_unrouted (name : String) (p : ServerProtocol) (n : String) (t : Server) :
    managerRoute name p ∉ shardRoutes n t ∧ managerRoute name p ∉ partitionRoutes n t := by
  constructor
  · intro h
    obtain ⟨-, s, hs, -⟩ := mem_shardRoutes.mp h
    exact toRouteId_ne_neg_one s hs
  · intro h
    cases (mem_partitionRoutes.mp h).2.1

/-- The management commands find no list in any reachable state. -/
theorem select_managerRoute {K : Set Route} (hK : CollisionFree H K) {evs : List Ev} (hevs : ∀ e ∈ evs, e.InPlay K)
    {name : String} {p : ServerProtocol} (hr : managerRoute name p ∈ K) :
    commandList H (run H {} evs) name p = none :=
  select_run_of_unrouted H hK hevs hr (managerRoute_unrouted name p)

/-- `list` shows no server of the service: none available, none a candidate. -/
theorem list_shows_none {K : Set Route} (hK : CollisionFree H K) {evs : List Ev} (hevs : ∀ e ∈ evs, e.InPlay K)
    {name : String} (hr : ∀ p, managerRoute name p ∈ K) :
    availableCell H (run H {} evs) name = (0, .red) ∧
      ∀ server, candidateCell H (run H {} evs) name server = ("NO", .red) := by
  have hthrift := select_managerRoute H hK hevs (hr .thrift)
  have hhttp := select_managerRoute H hK hevs (hr .http)
  constructor
  · simp [availableCell, hthrift, hhttp]
  · intro server
    simp [candidateCell, discoverMap, hthrift, hhttp]

/-! ## What a client finds -/

/-- A server without shards. -/
structure Unsharded (t : Server) : Prop where
  shardList : t.shardList = []
  followerShardList : t.followerShardList = []

/-- An option that names a service and a protocol, and leaves the route to its defaults. -/
structure DefaultRoute (option : ClientOption) : Prop where
  shardId : option.shardId = 4294967295
  shardType : option.shardType = .leader
  dc : option.dc = DEFAULT_DC

theorem DefaultRoute.route_eq {option : ClientOption} (h : DefaultRoute option) :
    LoadBalance.shardRoute option =
      lookupRoute option.serviceName option.protocol ROUTER_DEFAULT_SHARD_ID .leader DEFAULT_DC := by
  rw [LoadBalance.shardRoute, LoadBalance.routeOf, h.shardId, h.shardType, h.dc]
  rfl

section Update

variable {K : Set Route} {option : ClientOption} {db : RouterDb} {list : List Server} {now : UInt64}

/-- A picked server without shards that is no edge node is on the client's list. -/
theorem client_finds_unsharded (hK : CollisionFree H K) (hoption : DefaultRoute option)
    (hr : LoadBalance.shardRoute option ∈ K) (hplay : (Ev.updateServers option.serviceName list now).InPlay K)
    {db' : RouterDb} (hret : db.updateServers H option.serviceName list now = some db') {t : Server}
    (ht : t ∈ db.pickServers option.serviceName list now) (hshards : Unsharded t) (hedge : t.isEdgeNode = false)
    (hp : t.protocol = option.protocol) (hdc : t.dc = DEFAULT_DC) :
    ∃ l u, discoverList H db' option = some l ∧ u ∈ l ∧ withHostLong t = some u := by
  obtain ⟨ts, hts, rfl⟩ := updateServers_some H hret
  obtain ⟨u, hu⟩ := withHostLong_of_mapM hts ht
  have hroute : LoadBalance.shardRoute option ∈ shardRoutes option.serviceName t := by
    rw [hoption.route_eq, ← hp, ← hdc]
    exact (mem_leader_and_all hedge hshards.shardList hshards.followerShardList).1
  have hmem : u ∈ serversOf (shardRoutes option.serviceName) ts (LoadBalance.shardRoute option) :=
    (mem_serversOf_stored (fun t u h => (routes_of_withHostLong h).1) hts u).mpr ⟨t, ht, hroute, hu⟩
  -- the type of the route is LEADER, so no partition list is laid over it
  have hpart : serversOf (partitionRoutes option.serviceName) ts (LoadBalance.shardRoute option) = [] := by
    refine (serversOf_stored_eq_nil (fun t u h => (routes_of_withHostLong h).2) hts).mpr fun hex => ?_
    obtain ⟨t', -, hr'⟩ := hex
    have htype := (mem_partitionRoutes.mp hr').2.1
    rw [hoption.route_eq] at htype
    cases htype
  refine ⟨_, u, ?_, hmem, hu⟩
  show (db.publish _ (builtOf H _ ts)).selectServers H (LoadBalance.shardRoute option) = _
  rw [select_publish H hK (routes_inPlay hplay hts) hr, given, hpart, if_neg (by simp),
    if_pos (List.ne_nil_of_mem hmem), Option.some_or]

/-- The client's key is not that of a partition list: those have the type FOLLOWER. -/
theorem clientKey_not_remembered (hK : CollisionFree H K) {evs : List Ev} (hevs : ∀ e ∈ evs, e.InPlay K)
    (hoption : DefaultRoute option) (hr : LoadBalance.shardRoute option ∈ K) :
    getServiceKey H (LoadBalance.shardRoute option) ∉ (run H {} evs).partitionKeysOf option.serviceName := by
  intro hk
  obtain ⟨list, now, he, t, ht, r, hrt, hkey⟩ := mem_partitionKeysOf_run H hk
  have hsame : r = LoadBalance.shardRoute option := hK ((hevs _ he t ht).2 r hrt) hr hkey
  have htype := (mem_partitionRoutes.mp hrt).2.1
  rw [hsame, hoption.route_eq] at htype
  cases htype

/-- An update without servers of the protocol and the data centre leaves the client's list. -/
theorem discoverList_unchanged (hK : CollisionFree H K) {evs : List Ev} (hevs : ∀ e ∈ evs, e.InPlay K)
    (hoption : DefaultRoute option) (hr : LoadBalance.shardRoute option ∈ K)
    (hplay : (Ev.updateServers option.serviceName list now).InPlay K) {db' : RouterDb}
    (hret : (run H {} evs).updateServers H option.serviceName list now = some db')
    (hnone : ∀ t ∈ (run H {} evs).pickServers option.serviceName list now,
      ¬ (t.protocol = option.protocol ∧ t.dc = DEFAULT_DC)) :
    discoverList H db' option = discoverList H (run H {} evs) option := by
  obtain ⟨ts, hts, rfl⟩ := updateServers_some H hret
  have hgiven : given option.serviceName ts (LoadBalance.shardRoute option) = none := by
    refine given_eq_none fun u hu => ?_
    obtain ⟨t, ht, htu⟩ := (mem_mapM_withHostLong hts u).mp hu
    rw [(routes_of_withHostLong htu).1, (routes_of_withHostLong htu).2, hoption.route_eq]
    constructor
    · intro hrt
      have hserves := mem_shardRoutes_iff.mp hrt
      exact hnone t ht ⟨hserves.protocol, hserves.dc⟩
    · intro hrt
      cases (mem_partitionRoutes.mp hrt).2.1
  show RouterDb.selectServers H _ (LoadBalance.shardRoute option) = _
  rw [select_publish H hK (routes_inPlay hplay hts) hr, hgiven, Option.none_or,
    if_neg (clientKey_not_remembered H hK hevs hoption hr)]
  rfl

end Update

/-! ## Both lookups -/

/-- Client and manager find the same list, and every picked server without shards of the
    protocol and the default data centre is on it. -/
structure FoundByAll (db : RouterDb) (option : ClientOption) (picks : List Server) : Prop where
  same : discoverList H db option = commandList H db option.serviceName option.protocol
  listed : ∀ t ∈ picks, Unsharded t → t.protocol = option.protocol → t.dc = DEFAULT_DC →
    ∃ l u, discoverList H db option = some l ∧ u ∈ l ∧ withHostLong t = some u

/-- After an update of a reachable table with servers without shards, client and manager
    find one list with all of the default data centre iff there are none, and the client
    found none before. -/
theorem found_iff {K : Set Route} (hK : CollisionFree H K) (evs : List Ev) (hevs : ∀ e ∈ evs, e.InPlay K)
    (option : ClientOption) (hoption : DefaultRoute option) (hclient : LoadBalance.shardRoute option ∈ K)
    (hmanager : managerRoute option.serviceName option.protocol ∈ K) (list : List Server) (now : UInt64)
    (hplay : (Ev.updateServers option.serviceName list now).InPlay K)
    (hshards : ∀ t ∈ (run H {} evs).pickServers option.serviceName list now, Unsharded t) (db' : RouterDb)
    (hret : (run H {} evs).updateServers H option.serviceName list now = some db') :
    FoundByAll H db' option ((run H {} evs).pickServers option.serviceName list now) ↔
      (∀ t ∈ (run H {} evs).pickServers option.serviceName list now,
        ¬ (t.protocol = option.protocol ∧ t.dc = DEFAULT_DC)) ∧
      discoverList H (run H {} evs) option = none := by
  have hrun : run H {} (evs ++ [.updateServers option.serviceName list now]) = db' := by
    rw [run, List.foldl_append]
    show ((run H {} evs).updateServers H option.serviceName list now).getD _ = db'
    rw [hret]
    rfl
  have hcommand : commandList H db' option.serviceName option.protocol = none := by
    rw [← hrun]
    refine select_managerRoute H hK (fun e he => ?_) hmanager
    rcases List.mem_append.mp he with he | he
    · exact hevs e he
    · rw [List.mem_singleton.mp he]
      exact hplay
  constructor
  · intro h
    have hnone : discoverList H db' option = none := by rw [h.same, hcommand]
    have hno : ∀ t ∈ (run H {} evs).pickServers option.serviceName list now,
        ¬ (t.protocol = option.protocol ∧ t.dc = DEFAULT_DC) := by
      intro t ht hof
      obtain ⟨l, u, hl, -⟩ := h.listed t ht (hshards t ht) hof.1 hof.2
      rw [hnone] at hl
      cases hl
    refine ⟨hno, ?_⟩
    rw [← discoverList_unchanged H hK hevs hoption hclient hplay hret hno]
    exact hnone
  · intro h
    obtain ⟨hno, hbefore⟩ := h
    refine ⟨?_, fun t ht _ hp hdc => absurd ⟨hp, hdc⟩ (hno t ht)⟩
    rw [discoverList_unchanged H hK hevs hoption hclient hplay hret hno, hbefore, hcommand]

def serverIn (dc : String) : Server := { availableServer "predictor" "10.0.0.1" with dc }

/-- A client of the service that gives no shard. -/
def anyShard : ClientOption where
  serviceName := "predictor"
  protocol := .thrift
  loadBalance := .random

/-- The routes of a server in another data centre, and those of the two lookups. -/
def otherCentre : Set Route :=
  {r | r ∈ LoadBalance.shardRoute anyShard :: managerRoute "predictor" .thrift ::
    shardRoutes "predictor" (serverIn "edge")}

/-- The service has a server in another data centre only: neither finds it in the default
    one. -/
theorem found_iff_other_centre :
    ∃ db', ({} : RouterDb).updateServers cityHash64WithSeed "predictor" [serverIn "edge"] 0 = some db' ∧
      FoundByAll cityHash64WithSeed db' anyShard
        (({} : RouterDb).pickServers "predictor" [serverIn "edge"] 0) := by
  have hfree : CollisionFree cityHash64WithSeed otherCentre := collisionFree_list cityHash64WithSeed (by decide +kernel)
  obtain ⟨db', hret⟩ := Option.isSome_iff_exists.mp
    (show (({} : RouterDb).updateServers cityHash64WithSeed "predictor" [serverIn "edge"] 0).isSome by
      decide +kernel)
  have hpicks : ({} : RouterDb).pickServers "predictor" [serverIn "edge"] 0 = [serverIn "edge"] := by
    decide +kernel
  refine ⟨db', hret, (found_iff cityHash64WithSeed hfree [] (by simp) anyShard ⟨rfl, rfl, rfl⟩ (by simp [otherCentre])
    (by simp [otherCentre, anyShard]) [serverIn "edge"] 0 (fun t ht => ?_) (fun t ht => ?_) db' hret).mpr
    ⟨fun t ht hof => ?_, rfl⟩⟩
  · rw [List.mem_singleton.mp ht]
    exact ⟨fun r hr => List.mem_cons_of_mem _ (List.mem_cons_of_mem _ hr), fun r hr => by cases hr⟩
  · have ht' : t ∈ ({} : RouterDb).pickServers "predictor" [serverIn "edge"] 0 := ht
    rw [hpicks, List.mem_singleton] at ht'
    subst ht'
    exact ⟨rfl, rfl⟩
  · have ht' : t ∈ ({} : RouterDb).pickServers "predictor" [serverIn "edge"] 0 := ht
    rw [hpicks, List.mem_singleton] at ht'
    subst ht'
    exact absurd hof.2 (by decide)

/-- One available server without shards in the default data centre: the client finds it, and
    the management commands find no list. -/
theorem a_server_only_the_client_finds :
    Unsharded (serverIn DEFAULT_DC) ∧ DefaultRoute anyShard ∧
      ({} : RouterDb).pickServers "predictor" [serverIn DEFAULT_DC] 0 = [serverIn DEFAULT_DC] ∧
      ∃ db', ({} : RouterDb).updateServers cityHash64WithSeed "predictor" [serverIn DEFAULT_DC] 0 = some db' ∧
        (discoverList cityHash64WithSeed db' anyShard).map List.length = some 1 ∧
        commandList cityHash64WithSeed db' "predictor" .thrift = none ∧
        availableCell cityHash64WithSeed db' "predictor" = (0, .red) ∧
        ¬ FoundByAll cityHash64WithSeed db' anyShard [serverIn DEFAULT_DC] := by
  have hlists : (({} : RouterDb).updateServers cityHash64WithSeed "predictor" [serverIn DEFAULT_DC] 0).map
      (fun db' => ((discoverList cityHash64WithSeed db' anyShard).map List.length,
        commandList cityHash64WithSeed db' "predictor" .thrift, availableCell cityHash64WithSeed db' "predictor")) =
      some (some 1, none, 0, .red) := by decide +kernel
  obtain ⟨db', hret, hfound⟩ := Option.map_eq_some_iff.mp hlists
  simp only [Prod.mk.injEq] at hfound
  obtain ⟨hclient, hcommand, hcell⟩ := hfound
  refine ⟨⟨rfl, rfl⟩, ⟨rfl, rfl, rfl⟩, by decide +kernel, db', hret, hclient, hcommand, hcell, fun h => ?_⟩
  rw [h.same] at hclient
  rw [show commandList cityHash64WithSeed db' anyShard.serviceName anyShard.protocol = none from hcommand] at hclient
  cases hclient

end PredictorService.ServiceRouter
