/-
  PredictorService.ServiceRouter.ShardRoles — leaders, followers and all of a shard
  (service_router/router.cc, `RouterDb::updateServers`).

  Every server is pushed under the leader route of each shard it leads and the follower route
  of each shard it follows, and each time under the shard's route of all. So on an empty
  table the list of all is the sum of the two others, list order is kept, and a server
  without shards leads the default one (`roles_add_up`).

  The lists are found by 64 bit keys. The sum is only one where the keys in play differ: a
  data centre can be named so that all of its shard 2 has the key of the leaders of another
  (`a_colliding_key_lists_a_foreign_leader`).
-/

import PredictorService.ServiceRouter.RouterDbProofs

namespace PredictorService.ServiceRouter.RouterDb

open PredictorService.Lib (FinMap)
open PredictorService.Thirdparty (cityHash64WithSeed)

variable (H : Hash64)

/-- A missing list counts as empty. -/
def listAt (db : RouterDb) (r : Route) : List Server := (db.selectServers H r).getD []

/-! ## How often a server is pushed -/

section Counts

variable {name dc : String} {t : Server} {p : ServerProtocol} {s : UInt32}

/-- Each role is pushed together with the route of all. -/
theorem count_all_eq {type : ShardType} (htype : type ≠ .all) (shards : List UInt32) :
    (shards.flatMap fun s' => [shardRoute name t type s', shardRoute name t .all s']).count (lookupRoute name p s .all dc) =
      (shards.flatMap fun s' => [shardRoute name t type s', shardRoute name t .all s']).count
        (lookupRoute name p s type dc) := by
  induction shards with
  | nil => rfl
  | cons s' shards ih =>
    have hother : ShardType.all ≠ type := htype.symm
    simp only [List.flatMap_cons, List.cons_append, List.nil_append, List.count_cons, ih, beq_iff_eq,
      shardRoute_eq_lookupRoute, htype, hother, false_and, and_false, if_false, true_and]
    omega

theorem count_other_eq_zero {type other : ShardType} (hother : other ≠ type) (hall : other ≠ .all) (shards : List UInt32) :
    (shards.flatMap fun s' => [shardRoute name t type s', shardRoute name t .all s']).count
      (lookupRoute name p s other dc) = 0 := by
  refine List.count_eq_zero.mpr fun hmem => ?_
  obtain ⟨s', -, hs'⟩ := List.mem_flatMap.mp hmem
  rcases List.mem_cons.mp hs' with heq | hs'
  · exact hother (shardRoute_eq_lookupRoute.mp heq.symm).2.2.1.symm
  · exact hall (shardRoute_eq_lookupRoute.mp (List.mem_singleton.mp hs').symm).2.2.1.symm

/-- A server is pushed under all of a shard as often as under its two roles. -/
theorem count_shardRoutes :
    (shardRoutes name t).count (lookupRoute name p s .all dc) =
      (shardRoutes name t).count (lookupRoute name p s .leader dc) +
        (shardRoutes name t).count (lookupRoute name p s .follower dc) := by
  unfold shardRoutes
  split
  · rfl
  · simp only [List.count_append]
    have hleader : ShardType.leader ≠ .all := by decide
    have hfollower : ShardType.follower ≠ .all := by decide
    have hapart : ShardType.leader ≠ .follower := by decide
    rw [count_all_eq hleader, count_all_eq hfollower, count_other_eq_zero hapart.symm hfollower,
      count_other_eq_zero hapart hleader]
    omega

end Counts

/-! ## The published lists -/

/-- What is pushed under a key: the servers in order, each as often as a route of it has the
    key. -/
def pushed (name : String) (ts : List Server) (k : UInt64) : List Server :=
  ts.flatMap fun t => List.replicate ((shardRoutes name t).countP (getServiceKey H · = k)) t

theorem pushedAt_eq_pushed (name : String) (ts : List Server) (k : UInt64) :
    FinMap.pushedAt (ts.flatMap (pushes H (shardRoutes name))) k = pushed H name ts k := by
  rw [FinMap.pushedAt_flatMap]
  refine List.flatMap_congr fun t _ => ?_
  simp only [FinMap.pushedAt, pushes, List.filter_map, List.map_map, List.countP_eq_length_filter]
  exact List.map_const'

/-- On an empty table and without edge nodes an update publishes what it has pushed. -/
theorem lookup_published {db : RouterDb} (hempty : db.serviceRegistry = ∅) {name : String} {ts : List Server}
    (hedge : ∀ u ∈ ts, partitionRoutes name u = []) (k : UInt64) :
    (db.publish name (builtOf H name ts)).serviceRegistry.lookup k =
      if pushed H name ts k = [] then none else some (pushed H name ts k) := by
  have hnil : ts.flatMap (pushes H (partitionRoutes name)) = [] := by
    refine List.flatMap_eq_nil_iff.mpr fun u hu => ?_
    rw [pushes, hedge u hu]
    rfl
  have hpart : (builtOf H name ts).partitionServers.lookup k = none := by
    rw [builtOf, hnil]
    rfl
  have hshard : (builtOf H name ts).shardServers.lookup k =
      if pushed H name ts k = [] then none else some (pushed H name ts k) := by
    rw [builtOf, FinMap.lookup_groupUp, pushedAt_eq_pushed]
    simp
  rw [lookup_publish, hpart, hshard, hempty, Option.none_or]
  simp

theorem listAt_published {db : RouterDb} (hempty : db.serviceRegistry = ∅) {name : String} {ts : List Server}
    (hedge : ∀ u ∈ ts, partitionRoutes name u = []) (r : Route) :
    listAt H (db.publish name (builtOf H name ts)) r = pushed H name ts (getServiceKey H r) := by
  rw [listAt, selectServers, lookup_published H hempty hedge]
  split
  · rename_i hnil
    exact hnil.symm
  · rfl

/-- Where keys differ, a server is listed as often as it has the route. -/
theorem pushed_eq_count {K : Set Route} (hK : CollisionFree H K) {name : String} {ts : List Server}
    (hts : ∀ t ∈ ts, ∀ r ∈ shardRoutes name t, r ∈ K) {r : Route} (hr : r ∈ K) :
    pushed H name ts (getServiceKey H r) = ts.flatMap fun t => List.replicate ((shardRoutes name t).count r) t := by
  refine List.flatMap_congr fun t ht => congrArg (List.replicate · t) (List.countP_congr fun r' hr' => ?_)
  have hiff : getServiceKey H r' = getServiceKey H r ↔ r' = r := hK.eq_iff (hts t ht r' hr') hr
  simp [hiff]

theorem flatMap_replicate_perm {α : Type} (ts : List α) (f g : α → Nat) :
    (ts.flatMap fun t => List.replicate (f t + g t) t).Perm
      ((ts.flatMap fun t => List.replicate (f t) t) ++ ts.flatMap fun t => List.replicate (g t) t) := by
  induction ts with
  | nil => exact .refl _
  | cons t ts ih =>
    simp only [List.flatMap_cons, List.replicate_add, List.append_assoc] at ih ⊢
    refine .append_left _ ((ih.append_left _).trans ?_)
    simp only [← List.append_assoc]
    exact List.perm_append_comm.append_right _

theorem mem_leader_and_all {name : String} {t : Server} (hnode : t.isEdgeNode = false) (hshards : t.shardList = [])
    (hfollower : t.followerShardList = []) :
    lookupRoute name t.protocol ROUTER_DEFAULT_SHARD_ID .leader t.dc ∈ shardRoutes name t ∧
      lookupRoute name t.protocol ROUTER_DEFAULT_SHARD_ID .all t.dc ∈ shardRoutes name t := by
  have hdefault : ServesShard t ROUTER_DEFAULT_SHARD_ID .leader :=
    mem_leaderShards.mp (by rw [leaderShards, if_pos ⟨hshards, hfollower⟩]; simp)
  refine ⟨mem_shardRoutes_iff.mpr ⟨hnode, rfl, rfl, hdefault⟩, mem_shardRoutes_iff.mpr ⟨hnode, rfl, rfl, ?_⟩⟩
  exact hdefault.elim Or.inl fun h => Or.inr (Or.inl h)

theorem mem_pushed {name : String} {ts : List Server} {t : Server} (ht : t ∈ ts) {r : Route} (hr : r ∈ shardRoutes name t) :
    t ∈ pushed H name ts (getServiceKey H r) := by
  refine List.mem_flatMap.mpr ⟨t, ht, List.mem_replicate.mpr ⟨?_, rfl⟩⟩
  exact Nat.ne_of_gt (List.countP_pos_iff.mpr ⟨r, hr, by simp⟩)

/-- After an update of an empty table from a list without edge nodes: where the keys in play
    differ, all of a shard are its leaders and its followers; each list has the picked
    servers in their order; and a server without shards leads the default one. -/
theorem roles_add_up (db : RouterDb) (hempty : db.serviceRegistry = ∅) (name : String) (list : List Server)
    (now : UInt64) (hedge : ∀ t ∈ list, t.isEdgeNode = false) (db' : RouterDb)
    (hret : db.updateServers H name list now = some db') :
    ∃ ts, (db.pickServers name list now).mapM withHostLong = some ts ∧
      (∀ K : Set Route, CollisionFree H K → (∀ t ∈ list, ∀ r ∈ shardRoutes name t, r ∈ K) →
        ∀ p s dc, (∀ type, lookupRoute name p s type dc ∈ K) →
          (listAt H db' (lookupRoute name p s .all dc)).Perm
            (listAt H db' (lookupRoute name p s .leader dc) ++ listAt H db' (lookupRoute name p s .follower dc))) ∧
      (∀ k l, db'.serviceRegistry.lookup k = some l → ∃ n : Server → Nat, l = ts.flatMap fun t => List.replicate (n t) t) ∧
      ∀ t ∈ ts, t.shardList = [] → t.followerShardList = [] →
        t ∈ listAt H db' (lookupRoute name t.protocol ROUTER_DEFAULT_SHARD_ID .leader t.dc) ∧
        t ∈ listAt H db' (lookupRoute name t.protocol ROUTER_DEFAULT_SHARD_ID .all t.dc) := by
  obtain ⟨ts, hts, rfl⟩ := updateServers_some H hret
  have hparts : ∀ u ∈ ts, partitionRoutes name u = [] :=
    partitionRoutes_of_noEdge (show (Ev.updateServers name list now).NoEdge from hedge) hts
  refine ⟨ts, hts, fun K hK hplay p s dc hroutes => ?_, fun k l hl => ?_, fun t ht hshards hfollower => ?_⟩
  · have hin : ∀ u ∈ ts, ∀ r ∈ shardRoutes name u, r ∈ K := by
      intro u hu r hr
      obtain ⟨t, ht, htu⟩ := (mem_mapM_withHostLong hts u).mp hu
      rw [(routes_of_withHostLong htu).1] at hr
      exact hplay t (mem_of_mem_pickServers ht) r hr
    simp only [listAt_published H hempty hparts, pushed_eq_count H hK hin (hroutes _), count_shardRoutes]
    exact flatMap_replicate_perm ts _ _
  · rw [lookup_published H hempty hparts] at hl
    split at hl
    · cases hl
    · cases hl
      exact ⟨_, rfl⟩
  · obtain ⟨t₀, ht₀, htu⟩ := (mem_mapM_withHostLong hts t).mp ht
    obtain ⟨x, -, rfl⟩ := Option.map_eq_some_iff.mp htu
    have hnode : t₀.isEdgeNode = false := hedge t₀ (mem_of_mem_pickServers ht₀)
    obtain ⟨hleader, hall⟩ := @mem_leader_and_all name { t₀ with hostLong := x } hnode hshards hfollower
    rw [listAt_published H hempty hparts, listAt_published H hempty hparts]
    exact ⟨mem_pushed H ht hleader, mem_pushed H ht hall⟩

def leaderServer : Server := shardServer "10.0.0.1" 1

def followerServer : Server :=
  { availableServer "predictor" "10.0.0.2" with followerShardList := [1], followerAvailableShardList := [1] }

/-- The routes of a server that leads shard 1 and of one that follows it. -/
def oneShard : List Route := shardRoutes "predictor" leaderServer ++ shardRoutes "predictor" followerServer

theorem roles_of_leader_and_follower :
    ∃ db', ({} : RouterDb).updateServers cityHash64WithSeed "predictor" [leaderServer, followerServer] 0 = some db' ∧
      (listAt cityHash64WithSeed db' (lookupRoute "predictor" .thrift 1 .leader "default")).length = 1 ∧
      (listAt cityHash64WithSeed db' (lookupRoute "predictor" .thrift 1 .follower "default")).length = 1 ∧
      (listAt cityHash64WithSeed db' (lookupRoute "predictor" .thrift 1 .all "default")).Perm
        (listAt cityHash64WithSeed db' (lookupRoute "predictor" .thrift 1 .leader "default") ++
          listAt cityHash64WithSeed db' (lookupRoute "predictor" .thrift 1 .follower "default")) := by
  have hfree : CollisionFree cityHash64WithSeed {r | r ∈ oneShard} :=
    collisionFree_list cityHash64WithSeed (by decide +kernel)
  have hlengths : (({} : RouterDb).updateServers cityHash64WithSeed "predictor" [leaderServer, followerServer] 0).map
      (fun db' => ([ShardType.leader, .follower].map fun type =>
        (listAt cityHash64WithSeed db' (lookupRoute "predictor" .thrift 1 type "default")).length)) =
      some [1, 1] := by decide +kernel
  obtain ⟨db', hret, hlen⟩ := Option.map_eq_some_iff.mp hlengths
  simp only [List.map_cons, List.map_nil, List.cons.injEq, and_true] at hlen
  obtain ⟨ts, -, hperm, -⟩ := roles_add_up cityHash64WithSeed {} rfl "predictor" [leaderServer, followerServer] 0
    (by decide) db' hret
  refine ⟨db', hret, hlen.1, hlen.2, hperm {r | r ∈ oneShard} hfree (fun t ht r hr => ?_) .thrift 1 "default"
    fun type => ?_⟩
  · rcases List.mem_pair.mp ht with rfl | rfl
    · exact List.mem_append_left _ hr
    · exact List.mem_append_right _ hr
  · show lookupRoute "predictor" .thrift 1 type "default" ∈ oneShard
    cases type <;> decide

/-- A server leads shard 2 in the data centre `default`. All of shard 2 in the other one is
    that server, and its leaders and its followers are none. -/
theorem a_colliding_key_lists_a_foreign_leader :
    ∃ db', ({} : RouterDb).updateServers cityHash64WithSeed "predictor" [shardServer "10.0.0.1" 2] 0 = some db' ∧
      ¬(listAt cityHash64WithSeed db' (lookupRoute "predictor" .thrift 2 .all "JSoMpR6S69ibaaaa")).Perm
        (listAt cityHash64WithSeed db' (lookupRoute "predictor" .thrift 2 .leader "JSoMpR6S69ibaaaa") ++
          listAt cityHash64WithSeed db' (lookupRoute "predictor" .thrift 2 .follower "JSoMpR6S69ibaaaa")) := by
  have hlengths : (({} : RouterDb).updateServers cityHash64WithSeed "predictor" [shardServer "10.0.0.1" 2] 0).map
      (fun db' => ([ShardType.all, .leader, .follower].map fun type =>
        (listAt cityHash64WithSeed db' (lookupRoute "predictor" .thrift 2 type "JSoMpR6S69ibaaaa")).length)) =
      some [1, 0, 0] := by decide +kernel
  obtain ⟨db', hret, hlen⟩ := Option.map_eq_some_iff.mp hlengths
  refine ⟨db', hret, fun hperm => ?_⟩
  have hsum := hperm.length_eq
  simp only [List.map_cons, List.map_nil, List.cons.injEq, and_true] at hlen
  rw [List.length_append, hlen.1, hlen.2.1, hlen.2.2] at hsum
  exact absurd hsum (by decide)

end PredictorService.ServiceRouter.RouterDb
