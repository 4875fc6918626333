/-
  PredictorService.Server.HttpService — the control plane of the predictor
  (predictor/server/http_service/http_service.cc).

  `/load_and_register` says which services this server should offer and which models each
  of them needs. The handler reads the maps once (it holds the read locks while it parses)
  and works out what is missing and what is useless. What follows is asynchronous: one job
  of `http_cpu_thread_pool_` unregisters and unloads what is useless, one job for each
  missing model loads it, and one job for each service waits until its models are loaded
  and registers it.

  An `Action` is a piece of code that holds a lock, or one call, of such a thread: the
  handler after its snapshot is a task like the jobs are. A task is what a thread has left
  (`Lib.TaskPool`), so a run of `step` is a sequence of requests with any interleaving of
  the handlers and jobs, on any number of threads. What the world decides (whether a model
  loads, whether consul takes a weight, the clock) is in the event.

  A `std::map` is a `TreeMap`, since the loops go through it in key order. A
  `std::set<ModelRecord>` compares full names, so it is a `TreeMap` under the full name that
  keeps the first record. A load that goes wrong is a `loadModel` that returns false. The
  service config of a request, the business line of a loaded model, metrics and logs are
  left out.
-/

import Mathlib.Data.String.Basic
import Mathlib.Tactic.Linarith.Datatypes
import PredictorService.Lib.TaskPool
import PredictorService.ServiceRouter.Entity

namespace PredictorService.HttpService

open Std (TreeMap TreeSet)
open PredictorService.Lib.TaskPool (Effect Pool)
open PredictorService.ServiceRouter (Server)

/-! ## Data -/

inductive ModelState where
  | notLoaded
  | loading
  | loaded
  | failed
  deriving DecidableEq, Repr

structure ModelRecord where
  name : String
  timestamp : String
  fullName : String
  configName : String
  md5 : String
  businessLine : String
  state : ModelState := .notLoaded
  successTime : String := ""
  deriving DecidableEq, Repr

def ModelRecord.setState (r : ModelRecord) (state : ModelState) : ModelRecord := { r with state }

@[simp, grind =] theorem ModelRecord.setState_name (r : ModelRecord) (state : ModelState) :
    (r.setState state).name = r.name := rfl

@[simp, grind =] theorem ModelRecord.setState_state (r : ModelRecord) (state : ModelState) :
    (r.setState state).state = state := rfl

/-- `std::set<ModelRecord>`: ordered by full name. -/
abbrev RecordSet := TreeMap String ModelRecord

/-- The records of a set in its order. -/
def recordsOf (set : RecordSet) : List ModelRecord := set.toList.map (·.2)

/-- A model record of a request. -/
structure ModelJson where
  name : String
  timestamp : String
  fullName : String
  configName : String := ""
  md5 : String := ""
  isLocked : Int := 0
  deriving DecidableEq, Repr

structure ServiceJson where
  serviceName : String
  serviceWeight : Int := 0
  modelRecords : List ModelJson
  deriving DecidableEq, Repr

/-- The parsed body of `/load_and_register`. -/
abbrev Request := List ServiceJson

/-- Flags, the member `default_server_weight_`, and what is outside: `getModelFullName` of
    the config in a package. -/
structure Env where
  alwaysTrustContentService : Bool := true
  defaultServerWeight : Int := 16
  host : String := ""
  port : UInt16 := 0
  packageFullName : String → String

structure Maps where
  modelMap : TreeMap String ModelRecord := ∅
  serviceMap : TreeMap String Server := ∅
  serviceModelsMap : TreeMap String (TreeSet String) := ∅
  serviceWeightMap : TreeMap String Int := ∅
  /-- `ModelFramework::models_`: the record whose package a model was loaded from. -/
  models : TreeMap String ModelRecord := ∅
  /-- The calls of `loadModel`, in order. -/
  loads : List ModelRecord := []

/-! ## What a request asks for

  The handler holds the read lock of `model_map_` in all of this. -/

structure Parsed where
  serviceModels : TreeMap String RecordSet := ∅
  serviceWeight : TreeMap String Int := ∅
  reqModelNames : TreeSet String := ∅
  compModels : RecordSet := ∅

def modelRecord (serviceName : String) (m : ModelJson) : ModelRecord where
  name := m.name
  timestamp := m.timestamp
  fullName := m.fullName
  configName := m.configName
  md5 := m.md5
  businessLine := serviceName

/-- The model has to be loaded. -/
def needsLoad (env : Env) (modelMap : TreeMap String ModelRecord) (m : ModelJson) : Bool :=
  match modelMap[m.name]? with
  | none => true
  | some e =>
    if env.alwaysTrustContentService then
      e.state = .failed || m.timestamp ≠ e.timestamp
    else
      e.state = .failed || e.timestamp < m.timestamp || (m.isLocked = 1 && m.timestamp < e.timestamp)

def readModel (env : Env) (modelMap : TreeMap String ModelRecord) (serviceName : String) (p : Parsed)
    (m : ModelJson) : Parsed :=
  let r := modelRecord serviceName m
  { p with
    serviceModels := p.serviceModels.insert serviceName ((p.serviceModels.getD serviceName ∅).insertIfNew r.fullName r)
    compModels := if needsLoad env modelMap m then p.compModels.insertIfNew r.fullName r else p.compModels
    reqModelNames := p.reqModelNames.insert m.name }

/-- An `int64` weight is kept in an `int`. -/
def readService (env : Env) (modelMap : TreeMap String ModelRecord) (p : Parsed) (service : ServiceJson) : Parsed :=
  let p := { p with
    serviceWeight := p.serviceWeight.insert service.serviceName (service.serviceWeight.bmod (2 ^ 32))
    serviceModels := p.serviceModels.insertIfNew service.serviceName ∅ }
  service.modelRecords.foldl (readModel env modelMap service.serviceName) p

def parse (env : Env) (modelMap : TreeMap String ModelRecord) (req : Request) : Parsed :=
  req.foldl (readService env modelMap) {}

def uselessModelNames (m : Maps) (p : Parsed) : List String := m.modelMap.keys.filter (· ∉ p.reqModelNames)

def uselessServiceNames (m : Maps) (p : Parsed) : List String := m.serviceMap.keys.filter (· ∉ p.serviceModels)

/-! ## Jobs -/

/-- What a register job is created with. -/
structure RegisterJob where
  serviceName : String
  modelRecords : List ModelRecord
  serverWeight : Int
  deriving DecidableEq, Repr

inductive Action where
  /-- The handler adds the unregister job. -/
  | unregisterServicesAndUnloadModels (services models : List String)
  /-- The loop of `load_models` in the handler: each round marks a record and adds its job. -/
  | loadModels (records : List ModelRecord)
  | addLoad (record : ModelRecord)
  /-- The loop of `register_services`: each round adds a job. -/
  | registerServices (jobs : List RegisterJob)
  /-- The loop of `unregister_services`. -/
  | unregisterServices (services : List String)
  | eraseService (serviceName : String)
  | eraseServiceWeight (serviceName : String)
  | eraseServiceModels (serviceName : String)
  | unloadModels (models : List String)
  | loadModel (record : ModelRecord)
  /-- The load job puts its record into `model_map_`. -/
  | storeRecord (record : ModelRecord)
  /-- One round of the polling loop. -/
  | pollModels (job : RegisterJob)
  | insertService (serviceName : String) (serverWeight : Int)
  | initServiceModels (serviceName : String)
  | setServiceWeight (serviceName : String) (serverWeight : Int)
  | storeServiceModels (serviceName : String) (models : List String)
  deriving DecidableEq, Repr

inductive Poll where
  | wait
  | allLoaded
  | failed
  deriving DecidableEq, Repr

/-- A missing entry, or one that is not loaded yet, is waited for. -/
def poll (modelMap : TreeMap String ModelRecord) : List ModelRecord → Poll
  | [] => .allLoaded
  | r :: rs =>
    match modelMap[r.name]? with
    | none => .wait
    | some e =>
      match e.state with
      | .notLoaded => .wait
      | .loading => .wait
      | .loaded => poll modelMap rs
      | .failed => .failed

/-- The lock sections of `register_service_name`. -/
def registerServiceName (serviceName : String) (serverWeight : Int) : List Action :=
  if serviceName = "" then [] else [.insertService serviceName serverWeight]

def unregisterServiceName (serviceName : String) : List Action :=
  if serviceName = "" then []
  else [.eraseService serviceName, .eraseServiceWeight serviceName, .eraseServiceModels serviceName]

@[simp] theorem mem_registerServiceName {service : String} {weight : Int} {a : Action} :
    a ∈ registerServiceName service weight ↔ service ≠ "" ∧ a = .insertService service weight := by
  unfold registerServiceName
  split <;> simp [*]

@[simp] theorem mem_unregisterServiceName {service : String} {a : Action} :
    a ∈ unregisterServiceName service ↔ service ≠ "" ∧
      (a = .eraseService service ∨ a = .eraseServiceWeight service ∨ a = .eraseServiceModels service) := by
  unfold unregisterServiceName
  split <;> simp [*]

/-- A configured weight of zero stands for the default. -/
def effectiveWeight (env : Env) (weight : Int) : Int := if weight ≤ 0 then env.defaultServerWeight else weight

/-- What an action finds out from outside. -/
structure Answer where
  /-- `loadModel` or `setServerStaticWeight` succeeds. -/
  ok : Bool := true
  now : String := ""
  deriving DecidableEq, Repr

def newServer (env : Env) (serviceName : String) : Server :=
  { serviceName, host := env.host, port := env.port, protocol := .thrift, status := .available }

def exec (env : Env) (x : Answer) (m : Maps) : Action → Effect Maps Action
  | .unregisterServicesAndUnloadModels services models =>
    { store := m, spawned := [[.unregisterServices services, .unloadModels models]] }
  | .loadModels [] => { store := m }
  | .loadModels (r :: rs) =>
    { store := { m with modelMap := m.modelMap.insert r.name (r.setState .loading) }
      next := [.addLoad (r.setState .loading), .loadModels rs] }
  | .addLoad r => { store := m, spawned := [[.loadModel r]] }
  | .registerServices [] => { store := m }
  | .registerServices (job :: jobs) => { store := m, next := [.registerServices jobs], spawned := [[.pollModels job]] }
  | .unregisterServices [] => { store := m }
  | .unregisterServices (service :: services) =>
    { store := m, next := unregisterServiceName service ++ [.unregisterServices services] }
  | .eraseService service => { store := { m with serviceMap := m.serviceMap.erase service } }
  | .eraseServiceWeight service => { store := { m with serviceWeightMap := m.serviceWeightMap.erase service } }
  | .eraseServiceModels service => { store := { m with serviceModelsMap := m.serviceModelsMap.erase service } }
  | .unloadModels models => { store := { m with modelMap := models.foldl (·.erase ·) m.modelMap } }
  | .loadModel r =>
    if x.ok then
      { store :=
          { m with loads := m.loads ++ [r], models := m.models.insert (env.packageFullName r.configName) r }
        next := [.storeRecord { r.setState .loaded with successTime := x.now }] }
    else { store := { m with loads := m.loads ++ [r] }, next := [.storeRecord (r.setState .failed)] }
  | .storeRecord r => { store := { m with modelMap := m.modelMap.insert r.name r } }
  | .pollModels job =>
    match poll m.modelMap job.modelRecords with
    | .wait => { store := m, next := [.pollModels job] }
    | .failed => { store := m }
    | .allLoaded =>
      { store := m
        next := registerServiceName job.serviceName job.serverWeight ++
          [.storeServiceModels job.serviceName (job.modelRecords.map (·.name))] }
  | .insertService service weight =>
    if service ∈ m.serviceMap then { store := m, next := [.setServiceWeight service weight] }
    else
      { store := { m with serviceMap := m.serviceMap.insert service (newServer env service) }
        next := [.initServiceModels service, .setServiceWeight service weight] }
  | .initServiceModels service =>
    { store := { m with serviceModelsMap := m.serviceModelsMap.insertIfNew service ∅ } }
  | .setServiceWeight service weight =>
    if m.serviceWeightMap[service]? ≠ some (effectiveWeight env weight) ∧ x.ok then
      { store := { m with serviceWeightMap := m.serviceWeightMap.insert service (effectiveWeight env weight) } }
    else { store := m }
  | .storeServiceModels service models =>
    { store := { m with serviceModelsMap := m.serviceModelsMap.insert service (TreeSet.ofList models) } }

/-! ## The machine -/

abbrev State := Pool Maps Action

/-- What `register_services` is called with: a service without a weight gets the default. -/
def registerJobs (env : Env) (p : Parsed) : List RegisterJob :=
  p.serviceModels.toList.map fun kv =>
    ⟨kv.1, recordsOf kv.2, p.serviceWeight.getD kv.1 env.defaultServerWeight⟩

/-- What the handler has left once it has read the maps. -/
def loadAndRegister (env : Env) (m : Maps) (req : Request) : List Action :=
  let p := parse env m.modelMap req
  [.unregisterServicesAndUnloadModels (uselessServiceNames m p) (uselessModelNames m p),
   .loadModels (recordsOf p.compModels),
   .registerServices (registerJobs env p)]

theorem mem_loadAndRegister {env : Env} {m : Maps} {req : Request} {a : Action} :
    a ∈ loadAndRegister env m req ↔
      a = .unregisterServicesAndUnloadModels (uselessServiceNames m (parse env m.modelMap req))
        (uselessModelNames m (parse env m.modelMap req)) ∨
      a = .loadModels (recordsOf (parse env m.modelMap req).compModels) ∨
      a = .registerServices (registerJobs env (parse env m.modelMap req)) := by
  simp [loadAndRegister]

inductive Event where
  | request (req : Request)
  /-- The thread of task `i` goes on. -/
  | work (i : Nat) (x : Answer)
  deriving DecidableEq, Repr

def step (env : Env) (s : State) : Event → Option State
  | .request req => some { s with tasks := s.tasks ++ [loadAndRegister env s.store req] }
  | .work i x => Lib.TaskPool.work (exec env) s i x

def init : State := ⟨{}, []⟩

/-- No job is pending, and the maps are as finished jobs leave them. -/
structure Quiet (s : State) : Prop where
  idle : s.Idle
  named : "" ∉ s.store.serviceMap
  decided : ∀ (n : String) (e : ModelRecord), s.store.modelMap[n]? = some e → e.state = .loaded ∨ e.state = .failed

theorem quiet_init : Quiet init := by
  refine ⟨?_, ?_, ?_⟩ <;> simp [init, Pool.Idle]

def Event.isWork : Event → Bool
  | .request _ => false
  | .work _ _ => true

variable {env : Env}

/-- What the jobs' steps keep, a run without a request keeps. -/
theorem work_run (Inv : State → Prop)
    (hstep : ∀ s t i x, Inv s → Lib.TaskPool.work (exec env) s i x = some t → Inv t) {ws : List Event}
    (hws : ∀ e ∈ ws, e.isWork) {s t : State} (h : Inv s) (hr : Lib.run (step env) s ws = some t) : Inv t := by
  refine Lib.run_history (step env) (fun _ e => e.isWork) (fun _ s => Inv s) ?_ [] h
    (Lib.meets_of_forall _ (fun e he _ => hws e he) s) hr
  intro _ s t e hs he ht
  cases e with
  | request req => simp [Event.isWork] at he
  | work i x => exact hstep s t i x hs ht

theorem pending_request {s t : State} {req : Request} (h : step env s (.request req) = some t) :
    t.store = s.store ∧ t.pending = s.pending ++ loadAndRegister env s.store req := by
  cases h
  exact ⟨rfl, by simp [Pool.pending]⟩

end PredictorService.HttpService
