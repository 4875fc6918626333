/-
  PredictorService.ServiceRouter.RouterDbProofs — the routing table's properties (see
  `PredictorService.ServiceRouter.RouterDb`).

  A server serves a set of routes (`shardRoutes`, `partitionRoutes`); the maps that
  `updateServers` builds hold, under the key of each route, the servers that serve it in
  list order (`lookup_shardServers`). One lemma says what an update does to every key of
  the table (`lookup_publish`); the rest follows from it:
  - `owned_run`: the partition keys remembered for a service are keys of its own routes.
  - `select_apply_of_ne`: an update of one service leaves every lookup of another as it
    was.
  - `exact_iff`: after any sequence of calls, the table is exact for a service (a route is
    found iff a server of its latest list serves it, and then with exactly those servers)
    iff its last call served every route of it that the table held before. Shard lists
    are laid over the old ones and never dropped, unlike the partition lists
    (`moved_shard_stays_routed`).
-/

import PredictorService.ServiceRouter.RouterDb
import PredictorService.Thirdparty.City

namespace PredictorService.ServiceRouter

open PredictorService.Lib (FinMap)
open PredictorService.Common (ipToInt)
open PredictorService.Thirdparty (cityHash64WithSeed)

namespace RouterDb

variable (H : Hash64)

/-! ## What a server serves -/

/-- The server as the table stores it. -/
def withHostLong (t : Server) : Option Server := (ipToInt t.host).map fun hostLong => { t with hostLong := hostLong }

/-- The routes a server is pushed under, in push order. -/
def shardRoutes (serviceName : String) (t : Server) : List Route :=
  if t.isEdgeNode then []
  else (leaderShards t).flatMap (fun s => [shardRoute serviceName t .leader s, shardRoute serviceName t .all s]) ++
    t.followerAvailableShardList.flatMap fun s => [shardRoute serviceName t .follower s, shardRoute serviceName t .all s]

def partitionRoutes (serviceName : String) (t : Server) : List Route :=
  if t.isEdgeNode then t.partitionList.map (partitionRoute serviceName t) else []

def pushes (routes : Server → List Route) (t : Server) : List (UInt64 × Server) :=
  (routes t).map fun r => (getServiceKey H r, t)

theorem serviceName_of_mem_shardRoutes {name : String} {t : Server} {r : Route} (h : r ∈ shardRoutes name t) :
    r.serviceName = name := by
  unfold shardRoutes at h
  split at h
  · cases h
  · simp only [List.mem_append, List.mem_flatMap, List.mem_cons, List.not_mem_nil, or_false] at h
    rcases h with ⟨s, -, rfl | rfl⟩ | ⟨s, -, rfl | rfl⟩ <;> rfl

theorem serviceName_of_mem_partitionRoutes {name : String} {t : Server} {r : Route}
    (h : r ∈ partitionRoutes name t) : r.serviceName = name := by
  unfold partitionRoutes at h
  split at h
  · obtain ⟨p, -, rfl⟩ := List.mem_map.mp h
    rfl
  · cases h

@[simp] theorem shardRoutes_hostLong (name : String) (t : Server) (x : UInt32) :
    shardRoutes name { t with hostLong := x } = shardRoutes name t := rfl

@[simp] theorem partitionRoutes_hostLong (name : String) (t : Server) (x : UInt32) :
    partitionRoutes name { t with hostLong := x } = partitionRoutes name t := rfl

theorem routes_of_withHostLong {name : String} {t u : Server} (h : withHostLong t = some u) :
    shardRoutes name u = shardRoutes name t ∧ partitionRoutes name u = partitionRoutes name t := by
  obtain ⟨x, -, rfl⟩ := Option.map_eq_some_iff.mp h
  exact ⟨rfl, rfl⟩

/-- The keys of a list of routes differ where the routes do. -/
theorem collisionFree_list {routes : List Route}
    (h : ∀ r ∈ routes, ∀ r' ∈ routes, getServiceKey H r = getServiceKey H r' → r = r') :
    CollisionFree H {r | r ∈ routes} := by
  intro r hr r' hr' hkey
  exact h r hr r' hr' hkey

/-! ## The built maps -/

theorem addServer_eq (name : String) (built : Built) (t : Server) :
    addServer H name built t = (withHostLong t).map fun u =>
      ⟨FinMap.groupUp built.shardServers (pushes H (shardRoutes name) u),
       FinMap.groupUp built.partitionServers (pushes H (partitionRoutes name) u)⟩ := by
  unfold addServer withHostLong
  cases hip : ipToInt t.host with
  | none => rfl
  | some x =>
    cases he : t.isEdgeNode with
    | true =>
      simp only [Option.bind_eq_bind, Option.bind_some, Option.map_some, if_true, Option.pure_def, pushes,
        shardRoutes, partitionRoutes, List.map_nil, FinMap.groupUp_nil, List.map_map]
      rw [← List.flatMap_singleton' (List.map _ _), List.flatMap_map, ← FinMap.foldl_groupUp]
      rfl
    | false =>
      simp only [Option.bind_eq_bind, Option.bind_some, Option.map_some, Bool.false_eq_true, if_false,
        Option.pure_def, pushes, shardRoutes, partitionRoutes, List.map_nil, FinMap.groupUp_nil, List.map_append,
        List.map_flatMap, FinMap.groupUp_append, ← FinMap.foldl_groupUp]
      rfl

/-- The maps filled with the stored servers `ts`. -/
def builtOf (name : String) (ts : List Server) : Built :=
  ⟨FinMap.groupUp ∅ (ts.flatMap (pushes H (shardRoutes name))),
   FinMap.groupUp ∅ (ts.flatMap (pushes H (partitionRoutes name)))⟩

theorem buildServers_eq (name : String) (picks : List Server) :
    buildServers H name picks = (picks.mapM withHostLong).map (builtOf H name) := by
  -- the loop with the maps filled so far
  suffices h : ∀ built : Built, picks.foldlM (addServer H name) built = (picks.mapM withHostLong).map fun ts =>
      ⟨FinMap.groupUp built.shardServers (ts.flatMap (pushes H (shardRoutes name))),
       FinMap.groupUp built.partitionServers (ts.flatMap (pushes H (partitionRoutes name)))⟩ from h {}
  induction picks with
  | nil => intro built; rfl
  | cons t picks ih =>
    intro built
    rw [List.foldlM_cons, addServer_eq, List.mapM_cons]
    cases hu : withHostLong t with
    | none => rfl
    | some u =>
      simp only [Option.map_some, Option.bind_eq_bind, Option.bind_some, ih]
      cases picks.mapM withHostLong with
      | none => rfl
      | some ts => simp [FinMap.groupUp_append]

/-- The servers of a route, in list order, each as often as it lists the route. -/
def serversOf (routes : Server → List Route) (ts : List Server) (r : Route) : List Server :=
  ts.flatMap fun t => ((routes t).filter (· = r)).map fun _ => t

theorem mem_serversOf {routes : Server → List Route} {ts : List Server} {r : Route} {u : Server} :
    u ∈ serversOf routes ts r ↔ u ∈ ts ∧ r ∈ routes u := by
  simp only [serversOf, List.mem_flatMap, List.mem_map, List.mem_filter, decide_eq_true_eq]
  constructor
  · intro h
    obtain ⟨t, ht, r', ⟨hr, rfl⟩, rfl⟩ := h
    exact ⟨ht, hr⟩
  · intro h
    exact ⟨u, h.1, r, ⟨h.2, rfl⟩, rfl⟩

/-- Without collisions, what is pushed under a route's key is what serves the route. -/
theorem pushedAt_pushes {K : Set Route} (hK : CollisionFree H K) (routes : Server → List Route) (ts : List Server)
    (hts : ∀ t ∈ ts, ∀ r ∈ routes t, r ∈ K) {r : Route} (hr : r ∈ K) :
    FinMap.pushedAt (ts.flatMap (pushes H routes)) (getServiceKey H r) = serversOf routes ts r := by
  rw [FinMap.pushedAt_flatMap]
  unfold serversOf
  refine List.flatMap_congr fun t ht => ?_
  simp only [FinMap.pushedAt, pushes, List.filter_map, List.map_map]
  have hfilter : (routes t).filter ((fun p : UInt64 × Server => decide (p.1 = getServiceKey H r)) ∘
      fun r' => (getServiceKey H r', t)) = (routes t).filter (· = r) := by
    refine List.filter_congr fun r' hr' => ?_
    have hiff : getServiceKey H r' = getServiceKey H r ↔ r' = r := hK.eq_iff (hts t ht r' hr') hr
    simp [hiff]
  rw [hfilter]
  rfl

theorem lookup_grouped {K : Set Route} (hK : CollisionFree H K) (routes : Server → List Route) (ts : List Server)
    (hts : ∀ t ∈ ts, ∀ r ∈ routes t, r ∈ K) {r : Route} (hr : r ∈ K) :
    (FinMap.groupUp ∅ (ts.flatMap (pushes H routes))).lookup (getServiceKey H r) =
      if serversOf routes ts r = [] then none else some (serversOf routes ts r) := by
  rw [FinMap.lookup_groupUp, pushedAt_pushes H hK routes ts hts hr]
  simp

theorem mem_keys_grouped {routes : Server → List Route} {ts : List Server} {k : UInt64}
    (h : k ∈ (FinMap.groupUp ∅ (ts.flatMap (pushes H routes)) : FinMap UInt64 (List Server)).keys) :
    ∃ t ∈ ts, ∃ r ∈ routes t, getServiceKey H r = k := by
  obtain ⟨l, hl⟩ := Finmap.mem_iff.mp (Finmap.mem_keys.mp h)
  rw [FinMap.lookup_groupUp] at hl
  split at hl
  · simp at hl
  · rename_i hne
    obtain ⟨v, hv⟩ := List.exists_mem_of_ne_nil _ hne
    simp only [FinMap.pushedAt, List.mem_map, List.mem_filter, decide_eq_true_eq] at hv
    obtain ⟨p, ⟨hp, rfl⟩, -⟩ := hv
    obtain ⟨t, ht, hpt⟩ := List.mem_flatMap.mp hp
    obtain ⟨r, hr, rfl⟩ := List.mem_map.mp hpt
    exact ⟨t, ht, r, hr, rfl⟩

/-! ## What an update does -/

/-- The keys remembered for a service, none when it has no entry. -/
def keysAt (partitionKeys : FinMap String (Finset UInt64)) (name : String) : Finset UInt64 :=
  (partitionKeys.lookup name).getD ∅

def partitionKeysOf (db : RouterDb) (name : String) : Finset UInt64 := keysAt db.lastPartitionKeys name

theorem lookup_cleanPartitions (name : String) (keys : FinMap String (Finset UInt64)) (cur : Services) (k : UInt64) :
    (cleanPartitions name keys cur).2.lookup k = if k ∈ keysAt keys name then none else cur.lookup k := by
  unfold cleanPartitions keysAt
  split <;> rename_i h <;> simp [h, FinMap.lookup_eraseAll]

theorem keysAt_cleanPartitions (name : String) (keys : FinMap String (Finset UInt64)) (cur : Services) (a : String) :
    keysAt (cleanPartitions name keys cur).1 a = if a = name then ∅ else keysAt keys a := by
  unfold cleanPartitions keysAt
  by_cases ha : a = name
  · subst ha
    split <;> rename_i h <;> simp [h]
  · split <;> simp [ha]

theorem lookup_addPartitions (name : String) (parts : FinMap UInt64 (List Server))
    (keys : FinMap String (Finset UInt64)) (cur : Services) (k : UInt64) :
    (addPartitions name parts keys cur).2.lookup k = (parts.lookup k).or (cur.lookup k) :=
  FinMap.lookup_union parts cur k

theorem keysAt_addPartitions (name : String) (parts : FinMap UInt64 (List Server))
    (keys : FinMap String (Finset UInt64)) (cur : Services) (a : String) :
    keysAt (addPartitions name parts keys cur).1 a = if a = name then keysAt keys name ∪ parts.keys else keysAt keys a := by
  unfold addPartitions keysAt
  by_cases ha : a = name <;> simp [ha, FinMap.lookup_insert_ite]

/-- Every key of the table after an update: the new partition lists, then the new shard
    lists, then what was there unless it was an old partition list of the service. -/
theorem lookup_publish (db : RouterDb) (name : String) (built : Built) (k : UInt64) :
    (db.publish name built).serviceRegistry.lookup k =
      (built.partitionServers.lookup k).or ((built.shardServers.lookup k).or
        (if k ∈ db.partitionKeysOf name then none else db.serviceRegistry.lookup k)) := by
  show (addPartitions name built.partitionServers (cleanPartitions name db.lastPartitionKeys db.serviceRegistry).1
    (built.shardServers ∪ (cleanPartitions name db.lastPartitionKeys db.serviceRegistry).2)).2.lookup k = _
  rw [lookup_addPartitions, FinMap.lookup_union, lookup_cleanPartitions]
  rfl

theorem partitionKeysOf_publish (db : RouterDb) (name : String) (built : Built) (a : String) :
    (db.publish name built).partitionKeysOf a = if a = name then built.partitionServers.keys else db.partitionKeysOf a := by
  show keysAt (addPartitions name built.partitionServers (cleanPartitions name db.lastPartitionKeys db.serviceRegistry).1
    (built.shardServers ∪ (cleanPartitions name db.lastPartitionKeys db.serviceRegistry).2)).1 a = _
  rw [keysAt_addPartitions, keysAt_cleanPartitions, keysAt_cleanPartitions]
  by_cases ha : a = name <;> simp [ha, partitionKeysOf]

theorem updateServers_some {db db' : RouterDb} {name : String} {list : List Server} {now : UInt64}
    (h : db.updateServers H name list now = some db') :
    ∃ ts, (db.pickServers name list now).mapM withHostLong = some ts ∧
      db' = db.publish name (builtOf H name ts) := by
  unfold updateServers at h
  rw [buildServers_eq] at h
  cases hts : (db.pickServers name list now).mapM withHostLong with
  | none => simp [hts] at h
  | some ts =>
    rw [hts] at h
    exact ⟨ts, rfl, by simpa using h.symm⟩

/-- An update throws and changes nothing, or publishes the lists of its picked servers. -/
theorem apply_update (db : RouterDb) (name : String) (list : List Server) (now : UInt64) :
    db.apply H (.updateServers name list now) = db ∨
    ∃ ts, (db.pickServers name list now).mapM withHostLong = some ts ∧
      db.apply H (.updateServers name list now) = db.publish name
        (builtOf H name ts) := by
  show (db.updateServers H name list now).getD db = db ∨ ∃ ts, _ ∧ (db.updateServers H name list now).getD db = _
  cases hu : db.updateServers H name list now with
  | none => exact Or.inl rfl
  | some db' =>
    obtain ⟨ts, hts, rfl⟩ := updateServers_some H hu
    exact Or.inr ⟨ts, hts, rfl⟩

theorem mem_of_mem_pickServers {db : RouterDb} {name : String} {list : List Server} {now : UInt64} {t : Server}
    (h : t ∈ db.pickServers name list now) : t ∈ list := by
  unfold pickServers at h
  split at h
  · exact h
  · simp only at h
    split at h
    · exact h
    · exact (List.mem_filter.mp h).1

theorem mem_mapM_withHostLong {picks ts : List Server} (h : picks.mapM withHostLong = some ts) (u : Server) :
    u ∈ ts ↔ ∃ t ∈ picks, withHostLong t = some u := by
  induction picks generalizing ts with
  | nil =>
    cases h
    simp
  | cons t picks ih =>
    rw [List.mapM_cons] at h
    simp only [Option.bind_eq_bind, Option.bind_eq_some_iff, Option.pure_def, Option.some.injEq] at h
    obtain ⟨v, hv, vs, hvs, rfl⟩ := h
    rw [List.mem_cons, ih hvs]
    constructor
    · intro h
      rcases h with rfl | ⟨t', ht', hu⟩
      · exact ⟨t, List.mem_cons_self, hv⟩
      · exact ⟨t', List.mem_cons_of_mem _ ht', hu⟩
    · intro h
      obtain ⟨t', ht', hu⟩ := h
      rcases List.mem_cons.mp ht' with rfl | ht'
      · rw [hv] at hu
        exact Or.inl (Option.some.inj hu).symm
      · exact Or.inr ⟨t', ht', hu⟩

/-! ## Runs -/

/-- The routes an event puts in play are in `K`. -/
def Ev.InPlay (K : Set Route) : Ev → Prop
  | .updateServers name list _ => ∀ t ∈ list, (∀ r ∈ shardRoutes name t, r ∈ K) ∧ ∀ r ∈ partitionRoutes name t, r ∈ K
  | .updateConfig _ _ => True

/-- The remembered partition keys of a service are keys of its own routes in play. -/
def Owned (K : Set Route) (db : RouterDb) : Prop :=
  ∀ name, ∀ k ∈ db.partitionKeysOf name, ∃ r ∈ K, r.serviceName = name ∧ getServiceKey H r = k

/-- The stored servers of a list in play have their routes in play. -/
theorem routes_inPlay {K : Set Route} {db : RouterDb} {name : String} {list ts : List Server} {now : UInt64}
    (hp : (Ev.updateServers name list now).InPlay K) (hts : (db.pickServers name list now).mapM withHostLong = some ts) :
    (∀ u ∈ ts, ∀ r ∈ shardRoutes name u, r ∈ K) ∧ ∀ u ∈ ts, ∀ r ∈ partitionRoutes name u, r ∈ K := by
  have hmem : ∀ u ∈ ts, ∃ t ∈ list, withHostLong t = some u := by
    intro u hu
    obtain ⟨t, ht, htu⟩ := (mem_mapM_withHostLong hts u).mp hu
    exact ⟨t, mem_of_mem_pickServers ht, htu⟩
  constructor
  · intro u hu r hr
    obtain ⟨t, ht, htu⟩ := hmem u hu
    rw [(routes_of_withHostLong htu).1] at hr
    exact (hp t ht).1 r hr
  · intro u hu r hr
    obtain ⟨t, ht, htu⟩ := hmem u hu
    rw [(routes_of_withHostLong htu).2] at hr
    exact (hp t ht).2 r hr

/-- A key is remembered for a service since before, or by this update of it. -/
theorem mem_partitionKeysOf_apply {db : RouterDb} {e : Ev} {name : String} {k : UInt64}
    (hk : k ∈ (db.apply H e).partitionKeysOf name) :
    k ∈ db.partitionKeysOf name ∨ ∃ list now, e = .updateServers name list now ∧
      ∃ t ∈ list, ∃ r ∈ partitionRoutes name t, getServiceKey H r = k := by
  cases e with
  | updateConfig n config => exact Or.inl hk
  | updateServers n list now =>
    rcases apply_update H db n list now with h | ⟨ts, hts, h⟩
    · rw [h] at hk
      exact Or.inl hk
    · rw [h, partitionKeysOf_publish] at hk
      split at hk
      · rename_i hn
        subst hn
        obtain ⟨u, hu, r, hr, rfl⟩ := mem_keys_grouped H hk
        obtain ⟨t, ht, htu⟩ := (mem_mapM_withHostLong hts u).mp hu
        rw [(routes_of_withHostLong htu).2] at hr
        exact Or.inr ⟨list, now, rfl, t, mem_of_mem_pickServers ht, r, hr, rfl⟩
      · exact Or.inl hk

theorem owned_apply {K : Set Route} {db : RouterDb} (hdb : Owned H K db) {e : Ev} (he : e.InPlay K) :
    Owned H K (db.apply H e) := by
  intro name k hk
  rcases mem_partitionKeysOf_apply H hk with hk | ⟨list, now, rfl, t, ht, r, hr, rfl⟩
  · exact hdb name k hk
  · exact ⟨r, (he t ht).2 r hr, serviceName_of_mem_partitionRoutes hr, rfl⟩

theorem owned_run {K : Set Route} {evs : List Ev} (hevs : ∀ e ∈ evs, e.InPlay K) {db : RouterDb}
    (hdb : Owned H K db) : Owned H K (db.run H evs) := by
  induction evs generalizing db with
  | nil => exact hdb
  | cons e evs ih =>
    exact ih (fun e' he' => hevs e' (List.mem_cons_of_mem _ he')) (owned_apply H hdb (hevs e List.mem_cons_self))

theorem owned_empty (K : Set Route) : Owned H K {} := by
  intro name k hk
  simp [partitionKeysOf, keysAt] at hk

/-! ## Other services -/

/-- The list that stored servers give for a route: a partition list, else a shard list. -/
def given (name : String) (ts : List Server) (r : Route) : Option ServerList :=
  if serversOf (partitionRoutes name) ts r ≠ [] then some (serversOf (partitionRoutes name) ts r)
  else if serversOf (shardRoutes name) ts r ≠ [] then some (serversOf (shardRoutes name) ts r)
  else none

/-- Every route in play after an update. -/
theorem select_publish {K : Set Route} (hK : CollisionFree H K) {db : RouterDb} {name : String} {ts : List Server}
    (hin : (∀ u ∈ ts, ∀ r ∈ shardRoutes name u, r ∈ K) ∧ ∀ u ∈ ts, ∀ r ∈ partitionRoutes name u, r ∈ K) {r : Route}
    (hr : r ∈ K) :
    (db.publish name (builtOf H name ts)).selectServers H r =
      (given name ts r).or
        (if getServiceKey H r ∈ db.partitionKeysOf name then none else db.selectServers H r) := by
  show Finmap.lookup _ _ = _
  rw [lookup_publish]
  simp only [builtOf]
  rw [lookup_grouped H hK _ ts hin.2 hr, lookup_grouped H hK _ ts hin.1 hr]
  unfold given
  by_cases hp : serversOf (partitionRoutes name) ts r = [] <;>
    by_cases hs : serversOf (shardRoutes name) ts r = [] <;> simp [hp, hs, selectServers]

theorem given_eq_none {name : String} {ts : List Server} {r : Route}
    (h : ∀ u ∈ ts, r ∉ shardRoutes name u ∧ r ∉ partitionRoutes name u) : given name ts r = none := by
  have hnil : ∀ routes : Server → List Route, (∀ u ∈ ts, r ∉ routes u) → serversOf routes ts r = [] := by
    intro routes hno
    refine List.eq_nil_iff_forall_not_mem.mpr fun u hu => ?_
    obtain ⟨hut, hur⟩ := mem_serversOf.mp hu
    exact hno u hut hur
  rw [given, hnil _ fun u hu => (h u hu).2, hnil _ fun u hu => (h u hu).1]
  simp

theorem given_of_ne {name : String} {ts : List Server} {r : Route} (hne : r.serviceName ≠ name) :
    given name ts r = none :=
  given_eq_none fun _ _ =>
    ⟨fun h => hne (serviceName_of_mem_shardRoutes h), fun h => hne (serviceName_of_mem_partitionRoutes h)⟩

/-- Publishing lists of one service leaves the routes of another as they were. -/
theorem select_publish_of_ne {K : Set Route} (hK : CollisionFree H K) {db : RouterDb} (hdb : Owned H K db)
    {name : String} {ts : List Server}
    (hin : (∀ u ∈ ts, ∀ r ∈ shardRoutes name u, r ∈ K) ∧ ∀ u ∈ ts, ∀ r ∈ partitionRoutes name u, r ∈ K) {r : Route}
    (hr : r ∈ K) (hne : r.serviceName ≠ name) :
    (db.publish name (builtOf H name ts)).selectServers H r = db.selectServers H r := by
  have hkey : getServiceKey H r ∉ db.partitionKeysOf name := by
    intro hk
    obtain ⟨r', hr', hn', hkey'⟩ := hdb name _ hk
    have : r' = r := hK hr' hr hkey'
    exact hne (this ▸ hn')
  rw [select_publish H hK hin hr, given_of_ne hne, if_neg hkey, Option.none_or]

/-- The event is an update of the service. -/
def Ev.Updates (name : String) : Ev → Prop
  | .updateServers n _ _ => n = name
  | .updateConfig _ _ => False

theorem select_apply_of_ne {K : Set Route} (hK : CollisionFree H K) {db : RouterDb} (hdb : Owned H K db) {e : Ev}
    (he : e.InPlay K) {r : Route} (hr : r ∈ K) (hne : ¬ e.Updates r.serviceName) :
    (db.apply H e).selectServers H r = db.selectServers H r := by
  cases e with
  | updateConfig name config => rfl
  | updateServers name list now =>
    rcases apply_update H db name list now with h | ⟨ts, hts, h⟩
    · rw [h]
    · rw [h]
      exact select_publish_of_ne H hK hdb (routes_inPlay he hts) hr (fun h' => hne h'.symm)

theorem select_run_of_ne {K : Set Route} (hK : CollisionFree H K) {db : RouterDb} (hdb : Owned H K db) {evs : List Ev}
    (hevs : ∀ e ∈ evs, e.InPlay K) {r : Route} (hr : r ∈ K) (hne : ∀ e ∈ evs, ¬ e.Updates r.serviceName) :
    (db.run H evs).selectServers H r = db.selectServers H r := by
  induction evs generalizing db with
  | nil => rfl
  | cons e evs ih =>
    have he := hevs e List.mem_cons_self
    show ((db.apply H e).run H evs).selectServers H r = _
    rw [ih (owned_apply H hdb he) (fun e' h => hevs e' (List.mem_cons_of_mem _ h))
      (fun e' h => hne e' (List.mem_cons_of_mem _ h)), select_apply_of_ne H hK hdb he hr (hne e List.mem_cons_self)]

/-! ## Exactness -/

/-- The server serves shard `s` in a role: a leader of the shard, a follower, or either.
    Without any shards it leads the default id. -/
def ServesShard (t : Server) (s : UInt32) : ShardType → Prop
  | .leader => s ∈ t.availableShardList ∨ (t.shardList = [] ∧ t.followerShardList = [] ∧ s = ROUTER_DEFAULT_SHARD_ID)
  | .follower => s ∈ t.followerAvailableShardList
  | .all => s ∈ t.availableShardList ∨ (t.shardList = [] ∧ t.followerShardList = [] ∧ s = ROUTER_DEFAULT_SHARD_ID) ∨
      s ∈ t.followerAvailableShardList

/-- A non-edge server of that protocol and data centre that serves the shard in that role. -/
structure Serves (t : Server) (p : ServerProtocol) (s : UInt32) (type : ShardType) (dc : String) : Prop where
  notEdge : t.isEdgeNode = false
  protocol : t.protocol = p
  dc : t.dc = dc
  shard : ServesShard t s type

/-- The route of a shard lookup. -/
def lookupRoute (name : String) (p : ServerProtocol) (s : UInt32) (type : ShardType) (dc : String) : Route :=
  ⟨name, p, s.toUInt64.toInt64, type, dc⟩

theorem toRouteId_inj {a b : UInt32} (h : a.toUInt64.toInt64 = b.toUInt64.toInt64) : a = b := by
  have h' := congrArg Int64.toUInt64 h
  exact UInt32.toUInt64_inj.mp (by simpa using h')

theorem shardRoute_eq_lookupRoute {name dc : String} {t : Server} {type type' : ShardType} {s s' : UInt32}
    {p : ServerProtocol} :
    shardRoute name t type' s' = lookupRoute name p s type dc ↔ t.protocol = p ∧ s' = s ∧ type' = type ∧ t.dc = dc := by
  simp only [shardRoute, lookupRoute, Route.mk.injEq, true_and]
  constructor
  · intro h
    exact ⟨h.1, toRouteId_inj h.2.1, h.2.2⟩
  · intro h
    exact ⟨h.1, by rw [h.2.1], h.2.2⟩

theorem mem_leaderShards {t : Server} {s : UInt32} : s ∈ leaderShards t ↔ ServesShard t s .leader := by
  unfold leaderShards ServesShard
  split
  · rename_i h
    simp [h]
  · rename_i h
    constructor
    · exact Or.inl
    · intro h'
      rcases h' with h' | h'
      · exact h'
      · exact absurd ⟨h'.1, h'.2.1⟩ h

theorem mem_shardRoutes_iff {name dc : String} {t : Server} {p : ServerProtocol} {s : UInt32} {type : ShardType} :
    lookupRoute name p s type dc ∈ shardRoutes name t ↔ Serves t p s type dc := by
  unfold shardRoutes
  cases he : t.isEdgeNode with
  | true =>
    constructor
    · intro h
      simp at h
    · intro h
      simpa [he] using h.notEdge
  | false =>
    simp only [Bool.false_eq_true, if_false, List.mem_append, List.mem_flatMap, List.mem_cons, List.not_mem_nil, or_false,
      eq_comm (a := lookupRoute name p s type dc), shardRoute_eq_lookupRoute, mem_leaderShards]
    constructor
    · intro h
      rcases h with ⟨s', hs, ⟨hp, rfl, rfl, hd⟩ | ⟨hp, rfl, rfl, hd⟩⟩ | ⟨s', hs, ⟨hp, rfl, rfl, hd⟩ | ⟨hp, rfl, rfl, hd⟩⟩
      · exact ⟨he, hp, hd, hs⟩
      · exact ⟨he, hp, hd, hs.elim Or.inl (fun h => Or.inr (Or.inl h))⟩
      · exact ⟨he, hp, hd, hs⟩
      · exact ⟨he, hp, hd, Or.inr (Or.inr hs)⟩
    · intro h
      obtain ⟨-, hp, hd, hs⟩ := h
      cases type with
      | leader => exact Or.inl ⟨s, hs, Or.inl ⟨hp, rfl, rfl, hd⟩⟩
      | follower => exact Or.inr ⟨s, hs, Or.inl ⟨hp, rfl, rfl, hd⟩⟩
      | all =>
        rcases hs with hs | hs | hs
        · exact Or.inl ⟨s, Or.inl hs, Or.inr ⟨hp, rfl, rfl, hd⟩⟩
        · exact Or.inl ⟨s, Or.inr hs, Or.inr ⟨hp, rfl, rfl, hd⟩⟩
        · exact Or.inr ⟨s, hs, Or.inr ⟨hp, rfl, rfl, hd⟩⟩

/-- The table is exact for a service and its picked servers: a shard route in play is found
    iff one of them serves it, and then with exactly those (as stored, with their
    `host_long`). -/
def Exact (K : Set Route) (db : RouterDb) (name : String) (picks : List Server) : Prop :=
  ∀ p s type dc, lookupRoute name p s type dc ∈ K →
    ((db.selectServers H (lookupRoute name p s type dc)).isSome ↔ ∃ t ∈ picks, Serves t p s type dc) ∧
    ∀ l, db.selectServers H (lookupRoute name p s type dc) = some l →
      ∀ u, u ∈ l ↔ ∃ t ∈ picks, Serves t p s type dc ∧ withHostLong t = some u

/-- The picked servers serve every shard route in play that the table holds for the
    service. -/
def Covers (K : Set Route) (db : RouterDb) (name : String) (picks : List Server) : Prop :=
  ∀ p s type dc, lookupRoute name p s type dc ∈ K → (db.selectServers H (lookupRoute name p s type dc)).isSome →
    ∃ t ∈ picks, Serves t p s type dc

theorem withHostLong_of_mapM {picks ts : List Server} (hts : picks.mapM withHostLong = some ts) {t : Server}
    (ht : t ∈ picks) : ∃ u, withHostLong t = some u := by
  induction picks generalizing ts with
  | nil => cases ht
  | cons t' picks ih =>
    rw [List.mapM_cons] at hts
    simp only [Option.bind_eq_bind, Option.bind_eq_some_iff, Option.pure_def, Option.some.injEq] at hts
    obtain ⟨v, hv, vs, hvs, -⟩ := hts
    rcases List.mem_cons.mp ht with rfl | ht
    · exact ⟨v, hv⟩
    · exact ih hvs ht

/-- What is stored under a shard route: the picked servers that serve it. -/
theorem mem_serversOf_picks {name : String} {picks ts : List Server} (hts : picks.mapM withHostLong = some ts)
    {p : ServerProtocol} {s : UInt32} {type : ShardType} {dc : String} (u : Server) :
    u ∈ serversOf (shardRoutes name) ts (lookupRoute name p s type dc) ↔
      ∃ t ∈ picks, Serves t p s type dc ∧ withHostLong t = some u := by
  rw [mem_serversOf, mem_mapM_withHostLong hts]
  constructor
  · intro h
    obtain ⟨⟨t, ht, htu⟩, hr⟩ := h
    rw [(routes_of_withHostLong htu).1] at hr
    exact ⟨t, ht, mem_shardRoutes_iff.mp hr, htu⟩
  · intro h
    obtain ⟨t, ht, hserves, htu⟩ := h
    refine ⟨⟨t, ht, htu⟩, ?_⟩
    rw [(routes_of_withHostLong htu).1]
    exact mem_shardRoutes_iff.mpr hserves

theorem serversOf_picks_eq_nil {name : String} {picks ts : List Server} (hts : picks.mapM withHostLong = some ts)
    {p : ServerProtocol} {s : UInt32} {type : ShardType} {dc : String} :
    serversOf (shardRoutes name) ts (lookupRoute name p s type dc) = [] ↔ ¬ ∃ t ∈ picks, Serves t p s type dc := by
  rw [List.eq_nil_iff_forall_not_mem]
  constructor
  · intro h hex
    obtain ⟨t, ht, hserves⟩ := hex
    obtain ⟨u, hu⟩ := withHostLong_of_mapM hts ht
    exact h u ((mem_serversOf_picks hts u).mpr ⟨t, ht, hserves, hu⟩)
  · intro h u hu
    obtain ⟨t, ht, hserves, -⟩ := (mem_serversOf_picks hts u).mp hu
    exact h ⟨t, ht, hserves⟩

/-- Without edge nodes and without old partition lists, a route is served by the new list
    or is as it was. -/
theorem select_publish_noEdge {K : Set Route} (hK : CollisionFree H K) {db : RouterDb} {name : String}
    (hkeys : db.partitionKeysOf name = ∅) {ts : List Server} (hs : ∀ u ∈ ts, ∀ r ∈ shardRoutes name u, r ∈ K)
    (hedge : ∀ u ∈ ts, partitionRoutes name u = []) {r : Route} (hr : r ∈ K) :
    (db.publish name (builtOf H name ts)).selectServers H r =
      if serversOf (shardRoutes name) ts r = [] then db.selectServers H r
      else some (serversOf (shardRoutes name) ts r) := by
  have hp : ∀ u ∈ ts, ∀ r' ∈ partitionRoutes name u, r' ∈ K := by
    intro u hu r' hr'
    rw [hedge u hu] at hr'
    cases hr'
  have hnil : serversOf (partitionRoutes name) ts r = [] := by
    refine List.eq_nil_iff_forall_not_mem.mpr fun u hu => ?_
    obtain ⟨hut, hur⟩ := mem_serversOf.mp hu
    rw [hedge u hut] at hur
    cases hur
  rw [select_publish H hK ⟨hs, hp⟩ hr, given, hnil, hkeys]
  by_cases hshard : serversOf (shardRoutes name) ts r = [] <;> simp [hshard]

theorem exact_publish_iff {K : Set Route} (hK : CollisionFree H K) {db : RouterDb} {name : String}
    (hkeys : db.partitionKeysOf name = ∅) {picks ts : List Server} (hts : picks.mapM withHostLong = some ts)
    (hs : ∀ u ∈ ts, ∀ r ∈ shardRoutes name u, r ∈ K) (hedge : ∀ u ∈ ts, partitionRoutes name u = []) :
    Exact H K (db.publish name (builtOf H name ts)) name picks ↔ Covers H K db name picks := by
  constructor
  · intro h p s type dc hr hsome
    refine (h p s type dc hr).1.mp ?_
    rw [select_publish_noEdge H hK hkeys hs hedge hr]
    split
    · exact hsome
    · rfl
  · intro h p s type dc hr
    rw [select_publish_noEdge H hK hkeys hs hedge hr]
    by_cases hnil : serversOf (shardRoutes name) ts (lookupRoute name p s type dc) = []
    · -- nobody serves the route now, so the table did not hold it before
      have hno := (serversOf_picks_eq_nil hts).mp hnil
      have hnone : db.selectServers H (lookupRoute name p s type dc) = none := by
        cases hsel : db.selectServers H (lookupRoute name p s type dc) with
        | none => rfl
        | some l => exact absurd (h p s type dc hr (by rw [hsel]; rfl)) hno
      rw [if_pos hnil, hnone]
      exact ⟨⟨fun h => by simp at h, fun h => absurd h hno⟩, fun l h => by cases h⟩
    · have hex : ∃ t ∈ picks, Serves t p s type dc := by
        by_contra hno
        exact hnil ((serversOf_picks_eq_nil hts).mpr hno)
      rw [if_neg hnil]
      refine ⟨⟨fun _ => hex, fun _ => rfl⟩, fun l hl u => ?_⟩
      rw [← Option.some.inj hl]
      exact mem_serversOf_picks hts u

/-- The event's list has no edge nodes. -/
def Ev.NoEdge : Ev → Prop
  | .updateServers _ list _ => ∀ t ∈ list, t.isEdgeNode = false
  | .updateConfig _ _ => True

theorem partitionRoutes_of_noEdge {name : String} {db : RouterDb} {list ts : List Server} {now : UInt64}
    (he : (Ev.updateServers name list now).NoEdge) (hts : (db.pickServers name list now).mapM withHostLong = some ts) :
    ∀ u ∈ ts, partitionRoutes name u = [] := by
  intro u hu
  obtain ⟨t, ht, htu⟩ := (mem_mapM_withHostLong hts u).mp hu
  rw [(routes_of_withHostLong htu).2, partitionRoutes, he t (mem_of_mem_pickServers ht)]
  rfl

/-- Without edge nodes no partition keys are ever remembered. -/
theorem noEdge_run {evs : List Ev} (hevs : ∀ e ∈ evs, e.NoEdge) {db : RouterDb} (hdb : ∀ name, db.partitionKeysOf name = ∅) :
    ∀ name, (db.run H evs).partitionKeysOf name = ∅ := by
  induction evs generalizing db with
  | nil => exact hdb
  | cons e evs ih =>
    refine ih (fun e' he' => hevs e' (List.mem_cons_of_mem _ he')) (fun name => ?_)
    have he := hevs e List.mem_cons_self
    cases e with
    | updateConfig n config => exact hdb name
    | updateServers n list now =>
      rcases apply_update H db n list now with h | ⟨ts, hts, h⟩
      · rw [h]
        exact hdb name
      · rw [h, partitionKeysOf_publish]
        have hnil : ts.flatMap (pushes H (partitionRoutes n)) = [] := by
          refine List.flatMap_eq_nil_iff.mpr fun u hu => ?_
          rw [pushes, partitionRoutes_of_noEdge he hts u hu]
          rfl
        split
        · rw [builtOf, hnil]
          rfl
        · exact hdb name

/-- After any sequence of calls without edge nodes, with the last call for a service
    returning, the table is exact for that service iff its last list served every route of
    it that the table held before. -/
theorem exact_iff {K : Set Route} (hK : CollisionFree H K) (pre post : List Ev) (name : String) (list : List Server)
    (now : UInt64) (hplay : ∀ e ∈ pre ++ .updateServers name list now :: post, e.InPlay K)
    (hedge : ∀ e ∈ pre ++ .updateServers name list now :: post, e.NoEdge) (hpost : ∀ e ∈ post, ¬ e.Updates name)
    (hret : (updateServers H (run H {} pre) name list now).isSome) :
    Exact H K (run H {} (pre ++ .updateServers name list now :: post)) name
        ((run H {} pre).pickServers name list now) ↔
      Covers H K (run H {} pre) name ((run H {} pre).pickServers name list now) := by
  have hlast : Ev.updateServers name list now ∈ pre ++ .updateServers name list now :: post := by simp
  obtain ⟨db', hdb'⟩ := Option.isSome_iff_exists.mp hret
  obtain ⟨ts, hts, rfl⟩ := updateServers_some H hdb'
  have hin := routes_inPlay (hplay _ hlast) hts
  have hown : Owned H K (run H {} pre) := owned_run H (fun e he => hplay e (by simp [he])) (owned_empty H K)
  have hkeys : (run H {} pre).partitionKeysOf name = ∅ :=
    noEdge_run H (fun e he => hedge e (by simp [he])) (fun _ => rfl) name
  rw [← exact_publish_iff H hK hkeys hts hin.1 (partitionRoutes_of_noEdge (hedge _ hlast) hts)]
  -- the calls after the last one for the service do not touch its routes
  have hrun : run H {} (pre ++ .updateServers name list now :: post) =
      ((run H {} pre).apply H (.updateServers name list now)).run H post := by
    rw [run, List.foldl_append, List.foldl_cons]
    rfl
  have happly : (run H {} pre).apply H (.updateServers name list now) = (run H {} pre).publish name
      (builtOf H name ts) := by
    show (updateServers H _ name list now).getD _ = _
    rw [hdb']
    rfl
  have hsel : ∀ p s type dc, lookupRoute name p s type dc ∈ K →
      (run H {} (pre ++ .updateServers name list now :: post)).selectServers H (lookupRoute name p s type dc) =
      ((run H {} pre).apply H (.updateServers name list now)).selectServers H (lookupRoute name p s type dc) := by
    intro p s type dc hr
    rw [hrun]
    exact select_run_of_ne H hK (owned_apply H hown (hplay _ hlast)) (fun e he => hplay e (by simp [he])) hr hpost
  rw [← happly]
  unfold Exact
  constructor
  · intro h p s type dc hr
    rw [← hsel p s type dc hr]
    exact h p s type dc hr
  · intro h p s type dc hr
    rw [hsel p s type dc hr]
    exact h p s type dc hr

/-! ## A shard that moves away -/

/-- A server that leads one shard. -/
def shardServer (host : String) (shard : UInt32) : Server :=
  { availableServer "predictor" host with shardList := [shard], availableShardList := [shard] }

/-- The routes of shards 1 and 2. -/
def twoShards : Set Route :=
  {r | r ∈ shardRoutes "predictor" (shardServer "10.0.0.1" 1) ++ shardRoutes "predictor" (shardServer "10.0.0.2" 2)}

theorem twoShards_collisionFree : CollisionFree cityHash64WithSeed twoShards :=
  collisionFree_list cityHash64WithSeed (by decide +kernel)

theorem inPlay_twoShards {list : List Server} {now : UInt64}
    (h : ∀ t ∈ list, t = shardServer "10.0.0.1" 1 ∨ t = shardServer "10.0.0.2" 2) :
    (Ev.updateServers "predictor" list now).InPlay twoShards ∧ (Ev.updateServers "predictor" list now).NoEdge := by
  constructor
  · intro t ht
    refine ⟨fun r hr => ?_, fun r hr => ?_⟩
    · rcases h t ht with rfl | rfl
      · exact List.mem_append_left _ hr
      · exact List.mem_append_right _ hr
    · rcases h t ht with rfl | rfl <;> cases hr
  · intro t ht
    rcases h t ht with rfl | rfl <;> rfl

/-- The first server led shard 1 and the second joins for shard 2: the table is exact. -/
theorem exact_iff_joined :
    Exact cityHash64WithSeed twoShards
      (run cityHash64WithSeed {} ([.updateServers "predictor" [shardServer "10.0.0.1" 1] 0] ++
        .updateServers "predictor" [shardServer "10.0.0.1" 1, shardServer "10.0.0.2" 2] 0 :: []))
      "predictor"
      ((run cityHash64WithSeed {} [.updateServers "predictor" [shardServer "10.0.0.1" 1] 0]).pickServers "predictor"
        [shardServer "10.0.0.1" 1, shardServer "10.0.0.2" 2] 0) := by
  have hpick : (run cityHash64WithSeed {} [.updateServers "predictor" [shardServer "10.0.0.1" 1] 0]).pickServers
      "predictor" [shardServer "10.0.0.1" 1, shardServer "10.0.0.2" 2] 0 =
      [shardServer "10.0.0.1" 1, shardServer "10.0.0.2" 2] := by decide +kernel
  have hall : ∀ e ∈ [Ev.updateServers "predictor" [shardServer "10.0.0.1" 1] 0] ++
      .updateServers "predictor" [shardServer "10.0.0.1" 1, shardServer "10.0.0.2" 2] 0 :: [],
      e.InPlay twoShards ∧ e.NoEdge := by
    intro e he
    simp only [List.cons_append, List.nil_append, List.mem_cons, List.not_mem_nil, or_false] at he
    rcases he with rfl | rfl <;> exact inPlay_twoShards (by simp)
  refine (exact_iff cityHash64WithSeed twoShards_collisionFree _ [] "predictor" _ 0 (fun e he => (hall e he).1)
    (fun e he => (hall e he).2) (by simp) (by decide +kernel)).mpr ?_
  intro p s type dc hr _
  rw [hpick]
  rcases List.mem_append.mp hr with hr | hr
  · exact ⟨_, by simp, mem_shardRoutes_iff.mp hr⟩
  · exact ⟨_, by simp, mem_shardRoutes_iff.mp hr⟩

/-- Shard 1 moves away and no server of the latest list serves it, but it is still routed
    to the server of the first list. -/
theorem moved_shard_stays_routed :
    CollisionFree cityHash64WithSeed twoShards ∧
    ¬ Exact cityHash64WithSeed twoShards
      (run cityHash64WithSeed {} [.updateServers "predictor" [shardServer "10.0.0.1" 1] 0,
        .updateServers "predictor" [shardServer "10.0.0.2" 2] 0])
      "predictor"
      ((run cityHash64WithSeed {} [.updateServers "predictor" [shardServer "10.0.0.1" 1] 0]).pickServers "predictor"
        [shardServer "10.0.0.2" 2] 0) := by
  refine ⟨twoShards_collisionFree, fun h => ?_⟩
  have hpick : (run cityHash64WithSeed {} [.updateServers "predictor" [shardServer "10.0.0.1" 1] 0]).pickServers
      "predictor" [shardServer "10.0.0.2" 2] 0 = [shardServer "10.0.0.2" 2] := by decide +kernel
  have hr : lookupRoute "predictor" .thrift 1 .leader "default" ∈ twoShards := by
    show _ ∈ shardRoutes "predictor" (shardServer "10.0.0.1" 1) ++ shardRoutes "predictor" (shardServer "10.0.0.2" 2)
    decide
  obtain ⟨t, ht, hserves⟩ := (h .thrift 1 .leader "default" hr).1.mp (by decide +kernel)
  rw [hpick, List.mem_singleton] at ht
  subst ht
  have hshard := hserves.shard
  simp [ServesShard, shardServer] at hshard

end RouterDb

end PredictorService.ServiceRouter
