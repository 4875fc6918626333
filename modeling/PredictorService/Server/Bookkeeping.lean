/-
  PredictorService.Server.Bookkeeping — the three maps a predictor keeps about its services
  (predictor/server/http_service/http_service.cc: `service_map_`, `service_weight_map_`,
  `service_models_map_`).

  The jobs of `/load_and_register` (`PredictorService.Server.HttpService`) share the maps with
  `/register_service_name`, `/unregister_service_name`, `/set_work_mode` and `unregisterAll`.
  Each operation is a task of lock sections, so a run is any interleaving of them.

  `unregisterAll` clears `service_map_` alone, the models of the empty service name are
  stored though it is never registered, and the sections of a register and an unregister
  of one service can alternate. `maps_agree`: where none of this happens, the maps agree in
  every state without an operation in progress (`unregisterAll_leaves_weights`).
-/

import PredictorService.Server.Reconcile

namespace PredictorService.HttpService.Bookkeeping

open Std (TreeMap TreeSet)
open PredictorService.Lib
open PredictorService.Lib.TaskPool

/-! ## The machine -/

structure Store where
  maps : Maps := {}
  /-- `FLAGS_work_mode`. -/
  workMode : String := "ServerMode"

inductive Op where
  /-- A lock section of a job or of a request. -/
  | job (a : Action)
  | setWorkMode (workMode : String)
  | unregisterAll
  | storeWorkMode (workMode : String)
  deriving DecidableEq

variable (env : Env)

/-- `unregisterAll` holds the lock of `service_map_` while it erases every entry. -/
def exec (x : Answer) (s : Store) : Op → Effect Store Op
  | .job a =>
    let e := HttpService.exec env x s.maps a
    { store := { s with maps := e.store }, next := e.next.map .job, spawned := e.spawned.map (·.map .job) }
  | .setWorkMode workMode =>
    if workMode = s.workMode then { store := s } else { store := s, next := [.unregisterAll, .storeWorkMode workMode] }
  | .unregisterAll => { store := { s with maps := { s.maps with serviceMap := ∅ } } }
  | .storeWorkMode workMode => { store := { s with workMode } }

abbrev State := Pool Store Op

inductive Event where
  | loadAndRegister (req : Request)
  /-- The names of a list parameter, with the default weight. -/
  | registerServiceName (serviceNames : List String)
  | unregisterServiceName (serviceNames : List String)
  | setWorkMode (workMode : String)
  | unregisterAll
  | work (i : Nat) (x : Answer)
  deriving DecidableEq

/-- The task of a request. -/
def task (s : Store) : Event → List Op
  | .loadAndRegister req => (HttpService.loadAndRegister env s.maps req).map .job
  | .registerServiceName names => (names.flatMap fun name => HttpService.registerServiceName name 0).map .job
  | .unregisterServiceName names => (names.flatMap HttpService.unregisterServiceName).map .job
  | .setWorkMode workMode => [.setWorkMode workMode]
  | .unregisterAll => [.unregisterAll]
  | .work _ _ => []

def step (s : State) : Event → Option State
  | .work i x => work (exec env) s i x
  | e => some { s with tasks := s.tasks ++ [task env s.store e] }

def init : State := ⟨{}, []⟩

/-- No operation and no register job is in progress; models may still be loading. -/
def Calm (s : State) : Prop := ∀ op ∈ s.pending, ∃ r, op = .job (.loadModel r) ∨ op = .job (.storeRecord r)

/-- The keys of the maps agree. -/
structure Agree (m : Maps) : Prop where
  weight : ∀ k ∈ m.serviceWeightMap, k ∈ m.serviceMap
  models : ∀ k ∈ m.serviceModelsMap, k ∈ m.serviceMap
  service : ∀ k ∈ m.serviceMap, k ∈ m.serviceModelsMap

/-- Weight and models of a service are written while it is registered and its models
    dropped while it is not; `unregisterAll` finds only services whose other entries are about
    to be dropped. A weight that is refused or not new is not written, nor are models where
    there are some. -/
def orderly (s : State) : Event → Bool
  | .work i x =>
    match s.next? i with
    | some (.job (.initServiceModels k)) => k ∈ s.store.maps.serviceModelsMap ∨ k ∈ s.store.maps.serviceMap
    | some (.job (.setServiceWeight k weight)) =>
      s.store.maps.serviceWeightMap[k]? ≠ some (effectiveWeight env weight) ∧ x.ok → k ∈ s.store.maps.serviceMap
    | some (.job (.storeServiceModels k _)) => k ∈ s.store.maps.serviceMap
    | some (.job (.eraseServiceModels k)) => k ∉ s.store.maps.serviceMap
    | some .unregisterAll =>
      s.store.maps.serviceMap.keys.all fun k =>
        s.pending.contains (.job (.eraseServiceWeight k)) && s.pending.contains (.job (.eraseServiceModels k))
    | _ => true
  | _ => true

/-! ## What a section does to the keys -/

section Keys

variable {env} {x : Answer} {m : Maps} {a : Action} {k : String}

theorem weight_exec (h : k ∈ (HttpService.exec env x m a).store.serviceWeightMap) :
    (k ∈ m.serviceWeightMap ∧ a ≠ .eraseServiceWeight k) ∨
      ∃ w, a = .setServiceWeight k w ∧ m.serviceWeightMap[k]? ≠ some (effectiveWeight env w) ∧ x.ok := by
  revert h
  fun_cases HttpService.exec env x m a <;> simp <;> grind

theorem models_exec (h : k ∈ (HttpService.exec env x m a).store.serviceModelsMap) :
    (k ∈ m.serviceModelsMap ∧ a ≠ .eraseServiceModels k) ∨
      (a = .initServiceModels k ∧ k ∉ m.serviceModelsMap) ∨ ∃ models, a = .storeServiceModels k models := by
  revert h
  fun_cases HttpService.exec env x m a <;> simp <;> grind

theorem models_keep (env : Env) (x : Answer) (a : Action) (h : k ∈ m.serviceModelsMap) :
    k ∈ (HttpService.exec env x m a).store.serviceModelsMap ∨ a = .eraseServiceModels k := by
  fun_cases HttpService.exec env x m a <;> simp [h]
  grind

theorem models_init : k ∈ (HttpService.exec env x m (.initServiceModels k)).store.serviceModelsMap := by
  simp [HttpService.exec]

theorem service_exec (h : k ∈ (HttpService.exec env x m a).store.serviceMap) :
    k ∈ m.serviceMap ∨ .initServiceModels k ∈ (HttpService.exec env x m a).fresh := by
  revert h
  fun_cases HttpService.exec env x m a <;> simp [Effect.fresh]
  grind

theorem service_keep (env : Env) (x : Answer) (a : Action) (h : k ∈ m.serviceMap) :
    k ∈ (HttpService.exec env x m a).store.serviceMap ∨ a = .eraseService k := by
  fun_cases HttpService.exec env x m a <;> simp [h]
  grind

/-- Only the loop of `unregister_services` goes on to unregister a service. -/
theorem eraseService_fresh (h : .eraseService k ∈ (HttpService.exec env x m a).fresh) :
    ∃ services, a = .unregisterServices services := by
  revert h
  fun_cases HttpService.exec env x m a <;> simp [Effect.fresh]

end Keys

/-! ## The invariant -/

/-- The section that unregisters a service is followed, in its task, by those of the other
    two maps. -/
def Paired : List Op → Prop
  | [] => True
  | op :: rest =>
    (∀ k, op = .job (.eraseService k) → .job (.eraseServiceWeight k) ∈ rest ∧ .job (.eraseServiceModels k) ∈ rest) ∧
      Paired rest

theorem Paired.append {l l' : List Op} (h : Paired l) (h' : Paired l') : Paired (l ++ l') := by
  induction l with
  | nil => exact h'
  | cons op l ih =>
    refine ⟨fun k hk => ?_, ih h.2⟩
    obtain ⟨hweight, hmodels⟩ := h.1 k hk
    exact ⟨List.mem_append_left _ hweight, List.mem_append_left _ hmodels⟩

/-- A task that unregisters nothing itself. -/
theorem paired_of_forall {l : List Op} (h : ∀ k, .job (.eraseService k) ∉ l) : Paired l := by
  induction l with
  | nil => trivial
  | cons op l ih =>
    refine ⟨fun k hk => ?_, ih fun k hk => h k (List.mem_cons_of_mem _ hk)⟩
    exact absurd (hk ▸ List.mem_cons_self) (h k)

theorem paired_unregisterServiceName (name : String) : Paired ((unregisterServiceName name).map .job) := by
  unfold unregisterServiceName
  split
  · trivial
  · refine ⟨fun k hk => ?_, paired_of_forall (by simp)⟩
    cases hk
    simp

theorem paired_task (s : Store) (e : Event) : Paired (task env s e) := by
  cases e with
  | unregisterServiceName names =>
    simp only [task, List.map_flatMap]
    induction names with
    | nil => trivial
    | cons name names ih =>
      rw [List.flatMap_cons]
      exact (paired_unregisterServiceName name).append ih
  | registerServiceName names => exact paired_of_forall (by simp [task])
  | loadAndRegister req => exact paired_of_forall (by simp [task, loadAndRegister])
  | setWorkMode mode => exact paired_of_forall (by simp [task])
  | unregisterAll => exact paired_of_forall (by simp [task])
  | work i x => trivial

theorem paired_exec (x : Answer) (s : Store) (op : Op) :
    Paired (exec env x s op).next ∧ ∀ l ∈ (exec env x s op).spawned, Paired l := by
  cases op with
  | job a =>
    by_cases ha : ∃ services, a = .unregisterServices services
    · obtain ⟨services, rfl⟩ := ha
      cases services with
      | nil => exact ⟨trivial, by simp [exec, HttpService.exec]⟩
      | cons service services =>
        refine ⟨?_, by simp [exec, HttpService.exec]⟩
        show Paired ((unregisterServiceName service ++ [Action.unregisterServices services]).map Op.job)
        rw [List.map_append]
        exact (paired_unregisterServiceName service).append (paired_of_forall (by simp))
    · have hno : ∀ k, Action.eraseService k ∉ (HttpService.exec env x s.maps a).fresh :=
        fun k hk => ha (eraseService_fresh hk)
      simp only [Effect.fresh, List.mem_append, List.mem_flatten, not_or, not_exists, not_and] at hno
      refine ⟨paired_of_forall fun k hk => ?_, fun l hl => paired_of_forall fun k hk => ?_⟩
      · obtain ⟨b, hb, heq⟩ := List.mem_map.mp hk
        cases heq
        exact (hno k).1 hb
      · obtain ⟨l', hl', rfl⟩ := List.mem_map.mp hl
        obtain ⟨b, hb, heq⟩ := List.mem_map.mp hk
        cases heq
        exact (hno k).2 l' hl' hb
  | setWorkMode mode =>
    simp only [exec]
    split
    · exact ⟨trivial, by simp⟩
    · exact ⟨paired_of_forall (by simp), by simp⟩
  | unregisterAll => exact ⟨trivial, by simp [exec]⟩
  | storeWorkMode mode => exact ⟨trivial, by simp [exec]⟩

/-- Where the keys of the maps differ, a pending section will mend it. -/
structure Mending (s : State) : Prop where
  weight : ∀ k ∈ s.store.maps.serviceWeightMap, k ∈ s.store.maps.serviceMap ∨ .job (.eraseServiceWeight k) ∈ s.pending
  models : ∀ k ∈ s.store.maps.serviceModelsMap, k ∈ s.store.maps.serviceMap ∨ .job (.eraseServiceModels k) ∈ s.pending
  service : ∀ k ∈ s.store.maps.serviceMap, k ∈ s.store.maps.serviceModelsMap ∨ .job (.initServiceModels k) ∈ s.pending
  paired : ∀ l ∈ s.tasks, Paired l

theorem mending_init : Mending init := by
  refine ⟨?_, ?_, ?_, ?_⟩ <;> simp [init]

theorem Mending.calm {s : State} (h : Mending s) (hs : Calm s) : Agree s.store.maps := by
  have hno : ∀ a : Action, (∀ r, a ≠ .loadModel r ∧ a ≠ .storeRecord r) → Op.job a ∉ s.pending := by
    intro a ha hp
    obtain ⟨r, heq | heq⟩ := hs _ hp
    · exact (ha r).1 (Op.job.inj heq)
    · exact (ha r).2 (Op.job.inj heq)
  refine ⟨fun k hk => ?_, fun k hk => ?_, fun k hk => ?_⟩
  · exact (h.weight k hk).resolve_right (hno _ fun r => ⟨nofun, nofun⟩)
  · exact (h.models k hk).resolve_right (hno _ fun r => ⟨nofun, nofun⟩)
  · exact (h.service k hk).resolve_right (hno _ fun r => ⟨nofun, nofun⟩)

/-- A step that leaves the maps and keeps what is pending. -/
theorem Mending.frame {s t : State} (h : Mending s) (hmaps : t.store.maps = s.store.maps)
    (hpending : ∀ a, Op.job a ∈ s.pending → Op.job a ∈ t.pending) (hpaired : ∀ l ∈ t.tasks, Paired l) : Mending t := by
  refine ⟨fun k hk => ?_, fun k hk => ?_, fun k hk => ?_, hpaired⟩ <;> rw [hmaps] at hk ⊢
  · exact (h.weight k hk).imp_right (hpending _)
  · exact (h.models k hk).imp_right (hpending _)
  · exact (h.service k hk).imp_right (hpending _)

/-- A request only adds a task. -/
theorem Mending.request {s : State} (h : Mending s) {l : List Op} (hl : Paired l) :
    Mending { s with tasks := s.tasks ++ [l] } := by
  refine h.frame rfl (fun a ha => ?_) fun l' hl' => ?_
  · simp only [Pool.pending, List.flatten_append, List.mem_append] at ha ⊢
    exact .inl ha
  · rcases List.mem_append.mp hl' with hl' | hl'
    · exact h.paired l' hl'
    · exact List.mem_singleton.mp hl' ▸ hl

theorem paired_work {s t : State} {i : Nat} {x : Answer} (h : ∀ l ∈ s.tasks, Paired l)
    (ht : work (exec env) s i x = some t) : ∀ l ∈ t.tasks, Paired l := by
  obtain ⟨before, after, op, rest, -, htasks, rfl⟩ := work_some _ ht
  have hrest : Paired rest := (h (op :: rest) (by simp [htasks])).2
  obtain ⟨hnext, hspawned⟩ := paired_exec env x s.store op
  intro l hl
  simp only [List.mem_append, List.mem_cons] at hl
  rcases hl with (hl | rfl | hl) | hl
  · exact h l (by simp [htasks, hl])
  · exact hnext.append hrest
  · exact h l (by simp [htasks, hl])
  · exact hspawned l hl

/-- The sections of the other maps stay pending when a service is unregistered. -/
theorem pending_of_eraseService {s t : State} {i : Nat} {x : Answer} {k : String} (h : ∀ l ∈ s.tasks, Paired l)
    (hnext : s.next? i = some (.job (.eraseService k))) (ht : work (exec env) s i x = some t) :
    .job (.eraseServiceWeight k) ∈ t.pending ∧ .job (.eraseServiceModels k) ∈ t.pending := by
  obtain ⟨before, after, op, rest, hop, htasks, rfl⟩ := work_some _ ht
  obtain rfl : op = .job (.eraseService k) := Option.some.inj (hop.symm.trans hnext)
  have hpaired : Paired (.job (.eraseService k) :: rest) := h _ (by simp [htasks])
  obtain ⟨hweight, hmodels⟩ := hpaired.1 k rfl
  have hrest : ∀ b ∈ rest, b ∈ Pool.pending (M := Store)
      ⟨(exec env x s.store (.job (.eraseService k))).store,
        before ++ ((exec env x s.store (.job (.eraseService k))).next ++ rest) :: after ++
          (exec env x s.store (.job (.eraseService k))).spawned⟩ := by
    intro b hb
    simp [Pool.pending, hb]
  exact ⟨hrest _ hweight, hrest _ hmodels⟩

/-- A section of a job. -/
theorem Mending.job {s t : State} {i : Nat} {x : Answer} {a : Action} (h : Mending s)
    (hnext : s.next? i = some (.job a)) (ht : work (exec env) s i x = some t) (hok : orderly env s (.work i x) = true) :
    Mending t := by
  obtain ⟨op, hop, -, hstore, -, hkeep, hfresh⟩ := work_next _ ht
  obtain rfl : op = .job a := Option.some.inj (hop.symm.trans hnext)
  have hmaps : t.store.maps = (HttpService.exec env x s.store.maps a).store := by
    rw [hstore]
    rfl
  -- a pending section other than this one stays pending
  have hstays : ∀ b, b ≠ a → Op.job b ∈ s.pending → Op.job b ∈ t.pending := by
    intro b hne hb
    rcases hkeep _ hb with heq | hb
    · exact absurd (Op.job.inj heq) hne
    · exact hb
  have hservice : ∀ k ∈ s.store.maps.serviceMap, k ∈ t.store.maps.serviceMap ∨
      (.job (.eraseServiceWeight k) ∈ t.pending ∧ .job (.eraseServiceModels k) ∈ t.pending) := by
    intro k hk
    rw [hmaps]
    rcases service_keep env x a hk with hs | rfl
    · exact .inl hs
    · exact .inr (pending_of_eraseService env h.paired hnext ht)
  simp only [orderly, hnext] at hok
  refine ⟨fun k hk => ?_, fun k hk => ?_, fun k hk => ?_, paired_work env h.paired ht⟩
  · rw [hmaps] at hk
    rcases weight_exec hk with ⟨hold, hne⟩ | ⟨w, rfl, hwritten⟩
    · rcases h.weight k hold with hs | hp
      · exact (hservice k hs).imp_right And.left
      · exact .inr (hstays _ hne.symm hp)
    · exact (hservice k (of_decide_eq_true hok hwritten)).imp_right And.left
  · rw [hmaps] at hk
    rcases models_exec hk with ⟨hold, hne⟩ | ⟨rfl, hnew⟩ | ⟨models, rfl⟩
    · rcases h.models k hold with hs | hp
      · exact (hservice k hs).imp_right And.right
      · exact .inr (hstays _ hne.symm hp)
    · exact (hservice k ((of_decide_eq_true hok).resolve_left hnew)).imp_right And.right
    · exact (hservice k (of_decide_eq_true hok)).imp_right And.right
  · rw [hmaps] at hk ⊢
    rcases service_exec hk with hs | hinit
    · rcases h.service k hs with hold | hp
      · rcases models_keep env x a hold with hnew | rfl
        · exact .inl hnew
        · -- the models of a registered service are not dropped
          exact absurd hs (of_decide_eq_true hok)
      · by_cases ha : a = .initServiceModels k
        · subst ha
          exact .inl models_init
        · exact .inr (hstays _ (Ne.symm ha) hp)
    · refine .inr (hfresh _ ?_)
      simp only [Effect.fresh, List.mem_append, List.mem_flatten] at hinit ⊢
      rcases hinit with hinit | ⟨l, hl, hinit⟩
      · exact .inl (List.mem_map_of_mem hinit)
      · exact .inr ⟨l.map .job, List.mem_map_of_mem hl, List.mem_map_of_mem hinit⟩

theorem Mending.work {s t : State} {i : Nat} {x : Answer} (h : Mending s) (ht : work (exec env) s i x = some t)
    (hok : orderly env s (.work i x) = true) : Mending t := by
  obtain ⟨op, hnext, -, hstore, -, hkeep, -⟩ := work_next _ ht
  have hpaired := paired_work env h.paired ht
  cases op with
  | job a => exact h.job env hnext ht hok
  | unregisterAll =>
    have hmaps : t.store.maps = { s.store.maps with serviceMap := ∅ } := by
      rw [hstore]
      rfl
    have hstays : ∀ b, Op.job b ∈ s.pending → Op.job b ∈ t.pending := fun b hb => (hkeep _ hb).resolve_left nofun
    simp only [orderly, hnext, List.all_eq_true, Bool.and_eq_true, List.contains_iff_mem, TreeMap.mem_keys] at hok
    refine ⟨fun k hk => ?_, fun k hk => ?_, fun k hk => ?_, hpaired⟩
    · rw [hmaps] at hk
      rcases h.weight k hk with hs | hp
      · exact .inr (hstays _ (hok k hs).1)
      · exact .inr (hstays _ hp)
    · rw [hmaps] at hk
      rcases h.models k hk with hs | hp
      · exact .inr (hstays _ (hok k hs).2)
      · exact .inr (hstays _ hp)
    · rw [hmaps] at hk
      simp at hk
  | setWorkMode mode =>
    refine h.frame ?_ (fun b hb => (hkeep _ hb).resolve_left nofun) hpaired
    rw [hstore]
    simp only [exec]
    split <;> rfl
  | storeWorkMode mode =>
    refine h.frame ?_ (fun b hb => (hkeep _ hb).resolve_left nofun) hpaired
    rw [hstore]
    rfl

/-- In every run whose steps are orderly, the maps agree whenever nothing is in progress. -/
theorem maps_agree {es : List Event} {s : State} (hm : Meets (step env) (fun s e => orderly env s e = true) init es)
    (hr : run (step env) init es = some s) (hs : Calm s) : Agree s.store.maps := by
  have hstep : ∀ (_ : List Event) (s t : State) (e : Event), Mending s → orderly env s e = true → step env s e = some t →
      Mending t := by
    intro _ s t e h hok ht
    cases e with
    | work i x => exact h.work env ht hok
    | loadAndRegister req => exact Option.some.inj ht ▸ h.request (paired_task env s.store _)
    | registerServiceName names => exact Option.some.inj ht ▸ h.request (paired_task env s.store _)
    | unregisterServiceName names => exact Option.some.inj ht ▸ h.request (paired_task env s.store _)
    | setWorkMode mode => exact Option.some.inj ht ▸ h.request (paired_task env s.store _)
    | unregisterAll => exact Option.some.inj ht ▸ h.request (paired_task env s.store _)
  exact (run_history (step env) _ (fun _ => Mending) hstep [] mending_init hm hr).calm hs

/-! ## Runs -/

def goOn (i : Nat) : Event := .work i {}

/-- `feed` is requested, its model loaded and the service registered. -/
def feedOffered : List Event :=
  .loadAndRegister feedOnly ::
    ([0, 0, 0, 0, 0, 0, 1, 1, 2, 2, 3, 3, 3, 3, 3].map goOn)

/-- `ads` is registered and unregistered again. -/
def adsComesAndGoes : List Event :=
  .registerServiceName ["ads"] :: ([4, 4, 4].map goOn ++ .unregisterServiceName ["ads"] :: [5, 5, 5].map goOn)

theorem calm_of_idle {s : State} (h : s.Idle) : Calm s := fun op hop => absurd hop (h.not_mem op)

theorem maps_agree_feed :
    ∃ s, run (step demoEnv) init (feedOffered ++ adsComesAndGoes) = some s ∧ Calm s ∧ "feed" ∈ s.store.maps.serviceMap ∧
      Agree s.store.maps := by
  have hrun : (run (step demoEnv) init (feedOffered ++ adsComesAndGoes)).any
      (fun s => s.Idle && "feed" ∈ s.store.maps.serviceMap) := by decide
  obtain ⟨s, hs, hend⟩ := (Option.any_eq_true _ _).mp hrun
  simp only [Bool.and_eq_true, decide_eq_true_eq] at hend
  exact ⟨s, hs, calm_of_idle hend.1, hend.2, maps_agree demoEnv (by decide) hs (calm_of_idle hend.1)⟩

/-- After `unregisterAll` the weight and the models of `feed` are still there. -/
theorem unregisterAll_leaves_weights :
    ∃ s, run (step demoEnv) init (feedOffered ++ [.unregisterAll, goOn 4]) = some s ∧ Calm s ∧ ¬ Agree s.store.maps := by
  have hrun : (run (step demoEnv) init (feedOffered ++ [.unregisterAll, goOn 4])).any
      (fun s => s.Idle && "feed" ∈ s.store.maps.serviceWeightMap && "feed" ∉ s.store.maps.serviceMap) := by decide
  obtain ⟨s, hs, hend⟩ := (Option.any_eq_true _ _).mp hrun
  simp only [Bool.and_eq_true, decide_eq_true_eq] at hend
  exact ⟨s, hs, calm_of_idle hend.1.1, fun h => hend.2 (h.weight "feed" hend.1.2)⟩

end PredictorService.HttpService.Bookkeeping
