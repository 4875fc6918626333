/-
  PredictorService.Server.ServiceMap — the services a predictor has registered and their
  records in the router (predictor/server/http_service/http_service.cc:
  `register_service_name`, `unregister_service_name`, `unregisterAll`, `setWorkMode`,
  `setServerStaticWeight`, `setStressInfos`).

  `service_map_` holds pointers, so an entry may be null, and `service_weight_map_` caches the
  weight that was last set in the router. The sections that hold a lock are functions on
  the node; an operation is a sequence of them. The reads of a null pointer are in the
  state (`crashed`), after which nothing runs.
  - `weight_is_set_iff`: after any sequence of operations, the record of a service that is
    registered once more carries the weight asked for iff the cache did not hold that
    weight, or the record carried it already (`a_cached_weight_is_not_set`).
  - `nullFree_iff`: over any interleaving of `setStressInfos` with the other operations, no
    null pointer is stored or read iff every service that a `setStressInfos` has found is
    still there when it comes back for it (`a_stressed_service_is_gone`).
-/

import PredictorService.Lib.TaskPool
import PredictorService.ServiceRouter.ServerKeys

namespace PredictorService.ServiceMap

open Std (TreeMap TreeSet ExtTreeMap)
open PredictorService.Lib
open PredictorService.Lib.TaskPool
open PredictorService.ServiceRouter
open PredictorService.ServiceRouter.Router (ServerWithHeartbeat getServerKey recordOf Same)

/-! ## The node -/

/-- Flags and the member `default_server_weight_`. -/
structure Flags where
  host : String
  port : Int32
  serviceName : String := "predictor_service"
  transModel : String := ""
  defaultServerWeight : Int32

structure Node where
  serviceMap : TreeMap String (Option Server) := ∅
  serviceModelsMap : TreeMap String (TreeSet String) := ∅
  serviceWeightMap : TreeMap String Int32 := ∅
  workMode : String := "ServerMode"
  router : Router.St := {}
  /-- A null pointer was dereferenced. -/
  crashed : Bool := false

variable (c : ConsulRegistry.Codec) (f : Flags)

/-- The server of a service on this host and port. -/
def newServer (serviceName : String) : Server :=
  { serviceName, host := f.host, port := f.port.toUInt32.toUInt16, protocol := .thrift, status := .available }

def effectiveWeight (weight : Int32) : Int32 := if weight ≤ 0 then f.defaultServerWeight else weight

/-! ## Sections -/

def insertService (n : Node) (serviceName : String) : Node :=
  if serviceName ∈ n.serviceMap then n
  else
    { n with
      serviceMap := n.serviceMap.insert serviceName (some (newServer f serviceName))
      router := Router.registerServer c n.router (newServer f serviceName) }

def initServiceModels (n : Node) (serviceName : String) : Node :=
  { n with serviceModelsMap := n.serviceModelsMap.insertIfNew serviceName ∅ }

/-- The router is asked only when the cached weight differs. -/
def setServiceWeight (n : Node) (serviceName : String) (weight : Int32) : Node :=
  let weight := effectiveWeight f weight
  if n.serviceWeightMap[serviceName]? = some weight then n
  else
    match Router.setServerStaticWeight n.router serviceName f.host f.port weight with
    | (false, router) => { n with router }
    | (true, router) => { n with router, serviceWeightMap := n.serviceWeightMap.insert serviceName weight }

def eraseService (n : Node) (serviceName : String) : Node :=
  match n.serviceMap[serviceName]? with
  | none => n
  | some none => { n with crashed := true }
  | some (some server) =>
    { n with router := Router.unregisterServer n.router server, serviceMap := n.serviceMap.erase serviceName }

def eraseServiceWeight (n : Node) (serviceName : String) : Node :=
  { n with serviceWeightMap := n.serviceWeightMap.erase serviceName }

def eraseServiceModels (n : Node) (serviceName : String) : Node :=
  { n with serviceModelsMap := n.serviceModelsMap.erase serviceName }

/-- The loop of `unregisterAll` over the entries of the map. -/
def eraseEach (n : Node) : List String → Node
  | [] => n
  | serviceName :: names =>
    let n := eraseService n serviceName
    if n.crashed then n else eraseEach n names

def unregisterAll (n : Node) : Node := eraseEach n n.serviceMap.keys

/-- The last section of `setStressInfos`: `(*map_locked)[service]` adds a null pointer for a
    service that is not there. -/
def accessService (n : Node) (service qps models : String) : Node :=
  match n.serviceMap[service]? with
  | some (some server) =>
    let router := Router.changeServer n.router server (.setOtherSetting "qps" qps)
    let router := Router.changeServer router server (.setOtherSetting "qps_model" models)
    let router := Router.changeServer router server (.setOtherSetting "trans_model" f.transModel)
    { n with router }
  | some none => { n with crashed := true }
  | none => { n with serviceMap := n.serviceMap.insert service none, crashed := true }

/-! ## Operations, one after another -/

def registerServiceName (n : Node) (serviceName : String) (serverWeight : Int32) : Node :=
  if serviceName = "" then n
  else
    let m := insertService c f n serviceName
    let m := if serviceName ∈ n.serviceMap then m else initServiceModels m serviceName
    setServiceWeight f m serviceName serverWeight

def unregisterServiceName (n : Node) (serviceName : String) : Node :=
  if serviceName = "" then n
  else eraseServiceModels (eraseServiceWeight (eraseService n serviceName) serviceName) serviceName

def setWorkMode (n : Node) (workMode : String) : Node :=
  if workMode = n.workMode then n else { unregisterAll n with workMode }

/-- The handler of `/set_server_static_weight`; a weight that is no `int` is `none`. -/
def setServerStaticWeight (n : Node) (serviceName : String) (weight : Option Int32) : Node :=
  match weight with
  | none => n
  | some weight =>
    let serviceName := if serviceName = "" then f.serviceName else serviceName
    { n with router := (Router.setServerStaticWeight n.router serviceName f.host f.port weight).2 }

inductive Op where
  | register (serviceName : String) (serverWeight : Int32)
  | unregister (serviceName : String)
  | unregisterAll
  | setWorkMode (workMode : String)
  | setServerStaticWeight (serviceName : String) (weight : Option Int32)
  deriving DecidableEq

def apply (n : Node) : Op → Node
  | .register serviceName serverWeight => registerServiceName c f n serviceName serverWeight
  | .unregister serviceName => unregisterServiceName n serviceName
  | .unregisterAll => unregisterAll n
  | .setWorkMode workMode => setWorkMode n workMode
  | .setServerStaticWeight serviceName weight => setServerStaticWeight f n serviceName weight

def runOps (n : Node) (ops : List Op) : Node := ops.foldl (apply c f) n

/-! ## The map and the router -/

/-- The key of a service's record. -/
def keyOf (serviceName : String) : String := getServerKey (newServer f serviceName)

theorem keyOf_inj {a b : String} (h : keyOf f a = keyOf f b) : a = b := by
  have h' := congrArg String.toList h
  simp only [keyOf, getServerKey, newServer, String.toList_append, List.append_assoc] at h'
  exact String.toList_inj.mp (List.append_cancel_right h')

/-- The router has a record for each entry of the map and no other. -/
structure Tracks (n : Node) : Prop where
  alive : n.crashed = false
  named : "" ∉ n.serviceMap
  entry : ∀ (k : String) (v : Option Server), n.serviceMap[k]? = some v → v = some (newServer f k)
  registry : ∀ k ∈ n.serviceMap, ∃ r, n.router.registries.lookup k = some r
  record : ∀ (key : String) (w : ServerWithHeartbeat), n.router.servers[key]? = some w →
    ∃ k ∈ n.serviceMap, keyOf f k = key ∧ Same w.server (newServer f k)
  present : ∀ k ∈ n.serviceMap, ∃ w, n.router.servers[keyOf f k]? = some w

theorem tracks_init : Tracks f {} := by
  refine ⟨rfl, ?_, ?_, ?_, ?_, ?_⟩ <;> simp

variable {f} {n : Node} {k : String}

theorem Tracks.recordOf_eq (h : Tracks f n) (k : String) :
    recordOf n.router (newServer f k) = n.router.servers[keyOf f k]? := by
  cases hw : n.router.servers[keyOf f k]? with
  | none =>
    unfold keyOf at hw
    rw [recordOf, hw]
    rfl
  | some w =>
    obtain ⟨k', -, hkey, hsame⟩ := h.record _ w hw
    obtain rfl := keyOf_inj f hkey
    exact Router.recordOf_eq hw hsame

theorem Tracks.not_mem_servers (h : Tracks f n) (hk : k ∉ n.serviceMap) : n.router.servers[keyOf f k]? = none := by
  cases hw : n.router.servers[keyOf f k]? with
  | none => rfl
  | some w =>
    obtain ⟨k', hk', hkey, -⟩ := h.record _ w hw
    exact absurd (keyOf_inj f hkey ▸ hk') hk

/-- What a new registration puts into the router. -/
theorem Tracks.getElem?_registerServer (h : Tracks f n) (hk : k ∉ n.serviceMap) (key : String) :
    (Router.registerServer c n.router (newServer f k)).servers[key]? =
      if keyOf f k = key then some { server := newServer f k } else n.router.servers[key]? := by
  show (Router.addServer n.router.servers (newServer f k))[key]? = _
  rw [Router.getElem?_addServer]
  by_cases hkey : keyOf f k = key
  · subst hkey
    have hno : getServerKey (newServer f k) ∉ n.router.servers := by
      intro hmem
      rw [ExtTreeMap.mem_iff_isSome_getElem?] at hmem
      have hnone := h.not_mem_servers hk
      unfold keyOf at hnone
      rw [hnone] at hmem
      cases hmem
    rw [if_pos ⟨rfl, hno⟩, if_pos rfl]
  · rw [if_neg (fun hc => hkey hc.1), if_neg hkey]

theorem Tracks.insertService (h : Tracks f n) (hk : k ≠ "") : Tracks f (insertService c f n k) := by
  unfold ServiceMap.insertService
  split
  · exact h
  · rename_i hnew
    refine ⟨h.alive, ?_, fun k' v hv => ?_, fun k' hk' => ?_, fun key w hw => ?_, fun k' hk' => ?_⟩
    · simp [h.named, hk]
    · simp only [TreeMap.getElem?_insert, Std.compare_eq_iff_eq] at hv
      split at hv
      · rename_i heq
        subst heq
        exact (Option.some.inj hv).symm
      · exact h.entry k' v hv
    · simp only [TreeMap.mem_insert, Std.compare_eq_iff_eq] at hk'
      show ∃ r, (Finmap.insert k _ n.router.registries).lookup k' = some r
      rw [FinMap.lookup_insert_ite]
      split
      · exact ⟨_, rfl⟩
      · rename_i hne
        exact h.registry k' (hk'.resolve_left (Ne.symm hne))
    · rw [h.getElem?_registerServer c hnew] at hw
      split at hw
      · rename_i hkey
        refine ⟨k, by simp, hkey, ?_⟩
        rw [← Option.some.inj hw]
        exact ⟨rfl, rfl, rfl, rfl⟩
      · obtain ⟨k', hk', hkey, hsame⟩ := h.record key w hw
        exact ⟨k', by simp [hk'], hkey, hsame⟩
    · rw [h.getElem?_registerServer c hnew]
      split
      · exact ⟨_, rfl⟩
      · rename_i hne
        simp only [TreeMap.mem_insert, Std.compare_eq_iff_eq] at hk'
        exact h.present k' (hk'.resolve_left fun heq => hne (by rw [heq]))

variable (f) in
theorem getElem?_setServerStaticWeight (s : Router.St) (k : String) (weight : Int32) (key : String) :
    (Router.setServerStaticWeight s k f.host f.port weight).2.servers[key]? =
      if keyOf f k = key ∧ ¬ weight < 0 then s.servers[key]?.map (·.change (.setWeight weight)) else s.servers[key]? := by
  unfold Router.setServerStaticWeight
  split
  · rename_i hneg
    rw [if_neg (fun hc => hc.2 hneg)]
  · rename_i hpos
    have hk : getServerKey { serviceName := k, host := f.host, port := f.port.toUInt32.toUInt16 } = keyOf f k := rfl
    rw [Router.getElem?_changeServer, hk]
    by_cases hkey : keyOf f k = key
    · rw [if_pos hkey, if_pos ⟨hkey, hpos⟩]
    · rw [if_neg hkey, if_neg (fun hc => hkey hc.1)]

/-- A change of a record leaves it the record of its service. -/
theorem Tracks.changeServer (h : Tracks f n) (server : Server) (change : Router.Change) :
    Tracks f { n with router := Router.changeServer n.router server change } := by
  refine ⟨h.alive, h.named, h.entry, h.registry, fun key w hw => ?_, fun k hk => ?_⟩
  · rw [Router.getElem?_changeServer] at hw
    split at hw
    · obtain ⟨w', hw', rfl⟩ := Option.map_eq_some_iff.mp hw
      obtain ⟨k, hk, hkey, hsame⟩ := h.record key w' hw'
      refine ⟨k, hk, hkey, ?_⟩
      rw [Router.change_server]
      cases change <;> exact ⟨hsame.1, hsame.2, hsame.3, hsame.4⟩
    · exact h.record key w hw
  · rw [Router.getElem?_changeServer]
    obtain ⟨w, hw⟩ := h.present k hk
    rw [hw]
    split
    · exact ⟨_, rfl⟩
    · exact ⟨w, rfl⟩

/-- A change of a weight is one. -/
theorem Tracks.staticWeight (h : Tracks f n) (k : String) (weight : Int32) :
    Tracks f { n with router := (Router.setServerStaticWeight n.router k f.host f.port weight).2 } := by
  unfold Router.setServerStaticWeight
  split
  · exact h
  · exact h.changeServer _ _

theorem Tracks.setServiceWeight (h : Tracks f n) (k : String) (weight : Int32) :
    Tracks f (setServiceWeight f n k weight) := by
  have hset := h.staticWeight k (effectiveWeight f weight)
  unfold ServiceMap.setServiceWeight
  simp only
  split
  · exact h
  · split <;> rename_i heq <;> rw [heq] at hset <;> exact ⟨hset.1, hset.2, hset.3, hset.4, hset.5, hset.6⟩

theorem Tracks.eraseService (h : Tracks f n) (k : String) : Tracks f (eraseService n k) := by
  unfold ServiceMap.eraseService
  split
  · exact h
  · rename_i hnull
    cases h.entry k none hnull
  · rename_i server hserver
    obtain rfl := Option.some.inj (h.entry k _ hserver)
    have hk : k ∈ n.serviceMap := by
      rw [TreeMap.mem_iff_isSome_getElem?, hserver]
      rfl
    obtain ⟨w, hw⟩ := h.present k hk
    obtain ⟨r, hr⟩ := h.registry k hk
    have hmem : getServerKey (newServer f k) ∈ n.router.servers := by
      rw [ExtTreeMap.mem_iff_isSome_getElem?]
      unfold keyOf at hw
      rw [hw]
      rfl
    have hrouter : Router.unregisterServer n.router (newServer f k) =
        { n.router with
          registries := n.router.registries.insert k (ConsulRegistry.unregisterServer r (newServer f k))
          servers := n.router.servers.erase (keyOf f k) } := by
      unfold Router.unregisterServer
      have hname : (newServer f k).serviceName = k := rfl
      rw [if_neg (not_not.mpr hmem), hname, hr]
      rfl
    rw [hrouter]
    refine ⟨h.alive, ?_, fun k' v hv => ?_, fun k' hk' => ?_, fun key w hw => ?_, fun k' hk' => ?_⟩
    · simp [h.named]
    · simp only [TreeMap.getElem?_erase, Std.compare_eq_iff_eq] at hv
      split at hv
      · cases hv
      · exact h.entry k' v hv
    · simp only [TreeMap.mem_erase, Ne, Std.compare_eq_iff_eq] at hk'
      show ∃ r', (Finmap.insert k _ n.router.registries).lookup k' = some r'
      rw [FinMap.lookup_insert_ite, if_neg (Ne.symm hk'.1)]
      exact h.registry k' hk'.2
    · simp only [ExtTreeMap.getElem?_erase, Std.compare_eq_iff_eq] at hw
      split at hw
      · cases hw
      · rename_i hne
        obtain ⟨k', hk', hkey, hsame⟩ := h.record key w hw
        refine ⟨k', ?_, hkey, hsame⟩
        simp only [TreeMap.mem_erase, Ne, Std.compare_eq_iff_eq]
        exact ⟨fun heq => hne (by rw [heq, hkey]), hk'⟩
    · simp only [TreeMap.mem_erase, Ne, Std.compare_eq_iff_eq] at hk'
      simp only [ExtTreeMap.getElem?_erase, Std.compare_eq_iff_eq]
      rw [if_neg (fun heq => hk'.1 (keyOf_inj f heq))]
      exact h.present k' hk'.2

theorem Tracks.unregisterAll (h : Tracks f n) : Tracks f (unregisterAll n) := by
  unfold ServiceMap.unregisterAll
  generalize n.serviceMap.keys = names
  induction names generalizing n with
  | nil => exact h
  | cons k names ih =>
    unfold eraseEach
    simp only
    split
    · exact h.eraseService k
    · exact ih (h.eraseService k)

theorem Tracks.apply (h : Tracks f n) (op : Op) : Tracks f (apply c f n op) := by
  cases op with
  | register k weight =>
    simp only [ServiceMap.apply, registerServiceName]
    split
    · exact h
    · rename_i hk
      have hins := h.insertService c hk
      refine Tracks.setServiceWeight ?_ k weight
      split
      · exact hins
      · exact ⟨hins.1, hins.2, hins.3, hins.4, hins.5, hins.6⟩
  | unregister k =>
    simp only [ServiceMap.apply, unregisterServiceName]
    split
    · exact h
    · have herase := h.eraseService k
      exact ⟨herase.1, herase.2, herase.3, herase.4, herase.5, herase.6⟩
  | unregisterAll => exact h.unregisterAll
  | setWorkMode workMode =>
    simp only [ServiceMap.apply, setWorkMode]
    split
    · exact h
    · have hall := h.unregisterAll
      exact ⟨hall.1, hall.2, hall.3, hall.4, hall.5, hall.6⟩
  | setServerStaticWeight k weight =>
    simp only [ServiceMap.apply, setServerStaticWeight]
    split
    · exact h
    · exact h.staticWeight _ _

theorem tracks_runOps (h : Tracks f n) (ops : List Op) : Tracks f (runOps c f n ops) := by
  induction ops generalizing n with
  | nil => exact h
  | cons op ops ih => exact ih (h.apply c op)

/-! ## The weight of a registered service -/

/-- The weight of the service's record, or that of a new one. -/
def weightOf (f : Flags) (n : Node) (k : String) : Int32 :=
  match recordOf n.router (newServer f k) with
  | some w => w.server.weight
  | none => (newServer f k).weight

/-- The record after `register_service_name`. -/
theorem Tracks.recordOf_register (h : Tracks f n) (hk : k ≠ "") (weight : Int32) :
    ∃ w, recordOf (registerServiceName c f n k weight).router (newServer f k) = some w ∧
      w.server.weight =
        if n.serviceWeightMap[k]? = some (effectiveWeight f weight) ∨ effectiveWeight f weight < 0 then weightOf f n k
        else effectiveWeight f weight := by
  -- the record before the weight is set
  have hfirst : ∃ w, (ServiceMap.insertService c f n k).router.servers[keyOf f k]? = some w ∧
      w.server.weight = weightOf f n k := by
    unfold ServiceMap.insertService weightOf
    rw [h.recordOf_eq]
    split
    · rename_i hmem
      obtain ⟨w, hw⟩ := h.present k hmem
      rw [hw]
      exact ⟨w, rfl, rfl⟩
    · rename_i hnew
      rw [h.getElem?_registerServer c hnew, if_pos rfl, h.not_mem_servers hnew]
      exact ⟨_, rfl, rfl⟩
  obtain ⟨w, hw, hweight⟩ := hfirst
  have hreg := (h.apply c (.register k weight)).recordOf_eq k
  simp only [ServiceMap.apply] at hreg
  rw [hreg]
  have hcache : (ServiceMap.insertService c f n k).serviceWeightMap = n.serviceWeightMap := by
    unfold ServiceMap.insertService
    split <;> rfl
  have hset : ∀ m : Node, m.router = (ServiceMap.insertService c f n k).router →
      m.serviceWeightMap = n.serviceWeightMap → ∃ w, (ServiceMap.setServiceWeight f m k weight).router.servers[keyOf f k]? =
        some w ∧ w.server.weight =
          if n.serviceWeightMap[k]? = some (effectiveWeight f weight) ∨ effectiveWeight f weight < 0 then weightOf f n k
          else effectiveWeight f weight := by
    intro m hrouter hmap
    have hstatic := getElem?_setServerStaticWeight f m.router k (effectiveWeight f weight) (keyOf f k)
    rw [hrouter, hw] at hstatic
    unfold ServiceMap.setServiceWeight
    simp only
    rw [hmap]
    by_cases hsame : n.serviceWeightMap[k]? = some (effectiveWeight f weight)
    · rw [if_pos hsame, if_pos (.inl hsame), hrouter]
      exact ⟨w, hw, hweight⟩
    · rw [if_neg hsame]
      by_cases hneg : effectiveWeight f weight < 0
      · rw [if_neg (fun hc => hc.2 hneg)] at hstatic
        rw [if_pos (.inr hneg)]
        refine ⟨w, ?_, hweight⟩
        rw [← hstatic, ← hrouter]
        split <;> rename_i heq <;> rw [heq]
      · rw [if_pos ⟨rfl, hneg⟩] at hstatic
        rw [if_neg (by simp [hsame, hneg])]
        refine ⟨w.change (.setWeight (effectiveWeight f weight)), ?_, rfl⟩
        rw [← Option.map_some (f := fun w : ServerWithHeartbeat => w.change _), ← hstatic, ← hrouter]
        split <;> rename_i heq <;> rw [heq]
  unfold registerServiceName
  rw [if_neg hk]
  simp only
  split
  · exact hset _ rfl hcache
  · exact hset _ rfl hcache

/-- After any sequence of operations, registering a service leaves its record with the
    weight asked for iff the name is not empty and either that weight can be set and was
    not cached, or the record (a new one has weight 1) carries it already. -/
theorem weight_is_set_iff (f : Flags) (ops : List Op) (k : String) (weight : Int32) :
    (∃ w, recordOf (registerServiceName c f (runOps c f {} ops) k weight).router (newServer f k) = some w ∧
      w.server.weight = if weight > 0 then weight else f.defaultServerWeight) ↔
    k ≠ "" ∧
      ((runOps c f {} ops).serviceWeightMap[k]? ≠ some (effectiveWeight f weight) ∧ 0 ≤ effectiveWeight f weight ∨
        weightOf f (runOps c f {} ops) k = effectiveWeight f weight) := by
  have h := tracks_runOps c (tracks_init f) ops
  have heff : (if weight > 0 then weight else f.defaultServerWeight) = effectiveWeight f weight := by
    unfold effectiveWeight
    by_cases hw : weight > 0
    · rw [if_pos hw, if_neg (by simpa [Int32.not_le] using hw)]
    · rw [if_neg hw, if_pos (by simpa [Int32.not_lt] using hw)]
  rw [heff]
  by_cases hk : k = ""
  · subst hk
    refine ⟨fun hw => ?_, fun hc => absurd rfl hc.1⟩
    obtain ⟨w, hw, -⟩ := hw
    rw [registerServiceName, if_pos rfl, h.recordOf_eq, h.not_mem_servers h.named] at hw
    cases hw
  · obtain ⟨w, hw, hweight⟩ := h.recordOf_register c hk weight
    have hnonneg : 0 ≤ effectiveWeight f weight ↔ ¬ effectiveWeight f weight < 0 := Int32.not_lt.symm
    constructor
    · intro hset
      obtain ⟨w', hw', heq⟩ := hset
      obtain rfl := Option.some.inj (hw.symm.trans hw')
      refine ⟨hk, ?_⟩
      rw [hnonneg]
      by_cases hc : (runOps c f {} ops).serviceWeightMap[k]? = some (effectiveWeight f weight) ∨ effectiveWeight f weight < 0
      · rw [if_pos hc] at hweight
        exact .inr (hweight.symm.trans heq)
      · rw [not_or] at hc
        exact .inl hc
    · intro hc
      refine ⟨w, hw, ?_⟩
      rw [hweight]
      split
      · rename_i hskip
        rw [hnonneg] at hc
        rcases hc.2 with hno | hcur
        · exact absurd hskip (by simp [hno])
        · exact hcur
      · rfl

def demoFlags : Flags where
  host := "10.0.0.1"
  port := 9000
  defaultServerWeight := 16

/-- `unregisterAll` forgets the record and not the cached weight: registered with weight 5
    again, the service has a record of weight 1. -/
theorem a_cached_weight_is_not_set :
    (∃ w, recordOf (registerServiceName ConsulRegistry.plainCodec demoFlags
        (runOps ConsulRegistry.plainCodec demoFlags {} [.register "ctr" 5, .unregisterAll]) "ctr" 5).router
        (newServer demoFlags "ctr") = some w ∧ w.server.weight = 1) ∧
    ¬ ∃ w, recordOf (registerServiceName ConsulRegistry.plainCodec demoFlags
        (runOps ConsulRegistry.plainCodec demoFlags {} [.register "ctr" 5, .unregisterAll]) "ctr" 5).router
        (newServer demoFlags "ctr") = some w ∧
      w.server.weight = if (5 : Int32) > 0 then 5 else demoFlags.defaultServerWeight := by
  have hrecord : (recordOf (registerServiceName ConsulRegistry.plainCodec demoFlags
      (runOps ConsulRegistry.plainCodec demoFlags {} [.register "ctr" 5, .unregisterAll]) "ctr" 5).router
      (newServer demoFlags "ctr")).map (·.server.weight) = some 1 := by
    decide +kernel
  obtain ⟨w, hw, hweight⟩ := Option.map_eq_some_iff.mp hrecord
  refine ⟨⟨w, hw, hweight⟩, fun h => ?_⟩
  obtain ⟨w', hw', hset⟩ := h
  obtain rfl := Option.some.inj (hw.symm.trans hw')
  rw [hweight] at hset
  revert hset
  decide

/-! ## Null pointers -/

inductive Action where
  | insertService (serviceName : String) (serverWeight : Int32)
  | initServiceModels (serviceName : String)
  | setServiceWeight (serviceName : String) (serverWeight : Int32)
  | eraseService (serviceName : String)
  | eraseServiceWeight (serviceName : String)
  | eraseServiceModels (serviceName : String)
  | unregisterAll
  /-- One round of the loop of `setStressInfos`. -/
  | findService (service qps models : String)
  | accessService (service qps models : String)
  deriving DecidableEq

variable (f)

def exec (_ : Unit) (n : Node) : Action → Effect Node Action
  | .insertService name weight =>
    { store := insertService c f n name
      next := if name ∈ n.serviceMap then [.setServiceWeight name weight]
        else [.initServiceModels name, .setServiceWeight name weight] }
  | .initServiceModels name => { store := initServiceModels n name }
  | .setServiceWeight name weight => { store := setServiceWeight f n name weight }
  | .eraseService name => { store := eraseService n name }
  | .eraseServiceWeight name => { store := eraseServiceWeight n name }
  | .eraseServiceModels name => { store := eraseServiceModels n name }
  | .unregisterAll => { store := unregisterAll n }
  | .findService service qps models =>
    { store := n
      next := if service ∈ n.serviceMap then [.accessService service qps models] else [.findService service qps models] }
  | .accessService service qps models => { store := accessService f n service qps models }

abbrev State := Pool Node Action

inductive Event where
  | register (serviceName : String) (serverWeight : Int32)
  | unregister (serviceName : String)
  | unregisterAll
  | setStressInfos (models qps service : String)
  /-- The thread of task `i` goes on. -/
  | work (i : Nat)
  deriving DecidableEq

/-- The sections of an operation. -/
def task : Event → List Action
  | .register name weight => if name = "" then [] else [.insertService name weight]
  | .unregister name => if name = "" then [] else [.eraseService name, .eraseServiceWeight name, .eraseServiceModels name]
  | .unregisterAll => [.unregisterAll]
  | .setStressInfos models qps service => [.findService service qps models]
  | .work _ => []

def step (s : State) (e : Event) : Option State :=
  if s.store.crashed then none
  else
    match e with
    | .work i => work (exec c f) s i ()
    | e => some { s with tasks := s.tasks ++ [task e] }

def init : State := ⟨{}, []⟩

/-- Every entry points to a server, and no null pointer has been read. -/
structure NullFree (n : Node) : Prop where
  entry : ∀ (k : String) (v : Option Server), n.serviceMap[k]? = some v → v ≠ none
  alive : n.crashed = false

/-- A `setStressInfos` comes back for a service that is still there. -/
def stillThere (s : State) : Event → Bool
  | .work i =>
    match s.next? i with
    | some (.accessService service _ _) => service ∈ s.store.serviceMap
    | _ => true
  | _ => true

variable {f}

theorem NullFree.insertService (h : NullFree n) (k : String) : NullFree (insertService c f n k) := by
  unfold ServiceMap.insertService
  split
  · exact h
  · refine ⟨fun k' v hv => ?_, h.alive⟩
    simp only [TreeMap.getElem?_insert, Std.compare_eq_iff_eq] at hv
    split at hv
    · cases hv
      simp
    · exact h.entry k' v hv

theorem NullFree.setServiceWeight (h : NullFree n) (k : String) (weight : Int32) :
    NullFree (setServiceWeight f n k weight) := by
  unfold ServiceMap.setServiceWeight
  simp only
  split
  · exact h
  · split <;> exact ⟨h.entry, h.alive⟩

theorem NullFree.eraseService (h : NullFree n) (k : String) : NullFree (eraseService n k) := by
  unfold ServiceMap.eraseService
  split
  · exact h
  · rename_i hnull
    exact absurd rfl (h.entry k none hnull)
  · refine ⟨fun k' v hv => ?_, h.alive⟩
    simp only [TreeMap.getElem?_erase, Std.compare_eq_iff_eq] at hv
    split at hv
    · cases hv
    · exact h.entry k' v hv

theorem NullFree.unregisterAll (h : NullFree n) : NullFree (unregisterAll n) := by
  unfold ServiceMap.unregisterAll
  generalize n.serviceMap.keys = names
  induction names generalizing n with
  | nil => exact h
  | cons k names ih =>
    unfold eraseEach
    simp only
    split
    · exact h.eraseService k
    · exact ih (h.eraseService k)

/-- The access adds a null pointer, and reads it, iff the service is gone. -/
theorem NullFree.accessService (h : NullFree n) (k qps models : String) :
    NullFree (accessService f n k qps models) ↔ k ∈ n.serviceMap := by
  rw [TreeMap.mem_iff_isSome_getElem?]
  unfold ServiceMap.accessService
  cases hv : n.serviceMap[k]? with
  | none =>
    refine ⟨fun hnew => ?_, fun hmem => by cases hmem⟩
    cases hnew.alive
  | some v =>
    cases v with
    | none => exact absurd rfl (h.entry k none hv)
    | some server => exact ⟨fun _ => rfl, fun _ => ⟨h.entry, h.alive⟩⟩

/-- Every section but the access keeps the map free of null pointers. -/
theorem nullFree_exec (h : NullFree n) (a : Action) :
    NullFree (exec c f () n a).store ↔ ∀ service qps models, a = .accessService service qps models → service ∈ n.serviceMap := by
  cases a with
  | accessService service qps models =>
    refine (h.accessService service qps models).trans ⟨fun hmem s q m heq => ?_, fun hall => hall _ _ _ rfl⟩
    cases heq
    exact hmem
  | insertService k weight => exact iff_of_true (h.insertService c k) nofun
  | initServiceModels k => exact iff_of_true ⟨h.entry, h.alive⟩ nofun
  | setServiceWeight k weight => exact iff_of_true (h.setServiceWeight k weight) nofun
  | eraseService k => exact iff_of_true (h.eraseService k) nofun
  | eraseServiceWeight k => exact iff_of_true ⟨h.entry, h.alive⟩ nofun
  | eraseServiceModels k => exact iff_of_true ⟨h.entry, h.alive⟩ nofun
  | unregisterAll => exact iff_of_true h.unregisterAll nofun
  | findService service qps models => exact iff_of_true h nofun

theorem nullFree_step {s t : State} {e : Event} (h : NullFree s.store) (ht : step c f s e = some t) :
    NullFree t.store ↔ stillThere s e = true := by
  unfold step at ht
  rw [if_neg (by simp [h.alive])] at ht
  cases e with
  | work i =>
    obtain ⟨a, hnext, -, hstore, -⟩ := work_next _ ht
    rw [hstore, nullFree_exec c h]
    simp only [stillThere, hnext]
    constructor
    · intro hall
      split
      · rename_i service qps models heq
        cases heq
        exact decide_eq_true (hall _ _ _ rfl)
      · rfl
    · intro hok service qps models heq
      subst heq
      exact of_decide_eq_true hok
  | register name weight => exact Option.some.inj ht ▸ iff_of_true h rfl
  | unregister name => exact Option.some.inj ht ▸ iff_of_true h rfl
  | unregisterAll => exact Option.some.inj ht ▸ iff_of_true h rfl
  | setStressInfos models qps service => exact Option.some.inj ht ▸ iff_of_true h rfl

/-- No state of a run holds a null server or has read one iff every `setStressInfos` finds
    its service still there when it comes back for it. -/
theorem nullFree_iff (f : Flags) {es : List Event} {s : State} (hr : run (step c f) init es = some s) :
    (∀ es₁ es₂ u, es = es₁ ++ es₂ → run (step c f) init es₁ = some u → NullFree u.store) ↔
      Meets (step c f) (fun s e => stillThere s e = true) init es := by
  have hinit : NullFree init.store := ⟨fun k v hv => by simp [init] at hv, rfl⟩
  exact prefixes_iff_meets (step c f) _ (fun _ => True) (fun s => NullFree s.store) (fun _ _ _ _ _ => trivial)
    (fun s t e _ h ht => nullFree_step c h ht) trivial hinit hr

def goOn (i : Nat) : Event := .work i

/-- A service is registered, and a `setStressInfos` for it runs to its end. -/
theorem nullFree_iff_stressed :
    ∃ s, run (step ConsulRegistry.plainCodec demoFlags) init
        [.register "ctr" 5, goOn 0, goOn 0, goOn 0, .setStressInfos "m" "100" "ctr", goOn 1, goOn 1] = some s ∧
      NullFree s.store := by
  have hrun : (run (step ConsulRegistry.plainCodec demoFlags) init
      [.register "ctr" 5, goOn 0, goOn 0, goOn 0, .setStressInfos "m" "100" "ctr", goOn 1, goOn 1]).isSome := by
    decide +kernel
  obtain ⟨s, hs⟩ := Option.isSome_iff_exists.mp hrun
  exact ⟨s, hs, (nullFree_iff ConsulRegistry.plainCodec demoFlags hs).mpr (by decide +kernel) _ [] s (by simp) hs⟩

/-- The service is unregistered between the two locks of a `setStressInfos`: a null server
    is stored and read. -/
theorem a_stressed_service_is_gone :
    ∃ s, run (step ConsulRegistry.plainCodec demoFlags) init
        [.register "ctr" 5, goOn 0, goOn 0, goOn 0, .setStressInfos "m" "100" "ctr", goOn 1, .unregister "ctr", goOn 2,
          goOn 1] = some s ∧
      s.store.serviceMap["ctr"]? = some none ∧ s.store.crashed = true ∧ ¬ NullFree s.store := by
  have hrun : (run (step ConsulRegistry.plainCodec demoFlags) init
      [.register "ctr" 5, goOn 0, goOn 0, goOn 0, .setStressInfos "m" "100" "ctr", goOn 1, .unregister "ctr", goOn 2,
        goOn 1]).any (fun s => s.store.serviceMap["ctr"]? = some none && s.store.crashed) := by
    decide +kernel
  obtain ⟨s, hs, hend⟩ := (Option.any_eq_true _ _).mp hrun
  simp only [Bool.and_eq_true, decide_eq_true_eq] at hend
  exact ⟨s, hs, hend.1, hend.2, fun h => h.entry "ctr" none hend.1 rfl⟩

end PredictorService.ServiceMap
