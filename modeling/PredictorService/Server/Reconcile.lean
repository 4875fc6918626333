/-
  PredictorService.Server.Reconcile — the maps and the last `/load_and_register`.

  Every action declares the models and services it may still put into `model_map_` and
  `service_map_` and those it may still take out. A request that finds only pending work
  in its own favour is applied whatever the order of the jobs (`follows_last_request`).
  The code does not wait for that: a register job that has seen its models loaded
  registers its service after a later request without it (`late_register_stays`).
-/

import PredictorService.Server.RequestSets

namespace PredictorService.HttpService

open Std (TreeMap)
open PredictorService.Lib
open PredictorService.Lib.TaskPool

/-! ## What an action may still add and drop -/

def Action.addsModel : Action → List String
  | .loadModels rs => rs.map (·.name)
  | .addLoad r => [r.name]
  | .loadModel r => [r.name]
  | .storeRecord r => [r.name]
  | _ => []

def Action.dropsModel : Action → List String
  | .unregisterServicesAndUnloadModels _ models => models
  | .unloadModels models => models
  | _ => []

/-- The empty name is never registered. -/
def Action.addsService : Action → List String
  | .registerServices jobs => (jobs.map (·.serviceName)).filter (· ≠ "")
  | .pollModels job => [job.serviceName].filter (· ≠ "")
  | .insertService service _ => [service]
  | _ => []

def Action.dropsService : Action → List String
  | .unregisterServicesAndUnloadModels services _ => services.filter (· ≠ "")
  | .unregisterServices services => services.filter (· ≠ "")
  | .eraseService service => [service]
  | _ => []

theorem getElem?_foldl_erase (models : List String) (t : TreeMap String ModelRecord) (n : String) :
    (models.foldl (·.erase ·) t)[n]? = if n ∈ models then none else t[n]? := by
  induction models generalizing t with
  | nil => simp
  | cons a models ih =>
    rw [List.foldl_cons, ih, TreeMap.getElem?_erase]
    by_cases h1 : n ∈ models <;> by_cases h2 : n = a <;> simp [h1, h2, Ne.symm]

theorem mem_foldl_erase {models : List String} {t : TreeMap String ModelRecord} {n : String} :
    n ∈ models.foldl (·.erase ·) t ↔ n ∈ t ∧ n ∉ models := by
  rw [TreeMap.mem_iff_isSome_getElem?, getElem?_foldl_erase, TreeMap.mem_iff_isSome_getElem?]
  by_cases h : n ∈ models <;> simp [h]

variable {env : Env}

theorem declares_models (env : Env) :
    Declares (exec env) (fun m n => n ∈ m.modelMap) Action.addsModel Action.dropsModel where
  adds_fresh x m a := by
    fun_cases exec env x m a <;> simp [Effect.fresh, Action.addsModel] <;> grind
  drops_fresh x m a := by
    fun_cases exec env x m a <;> simp [Effect.fresh, Action.dropsModel] <;> grind
  grows x m a k := by
    fun_cases exec env x m a <;> simp [Action.addsModel, mem_foldl_erase] <;> grind
  keeps x m a k := by
    fun_cases exec env x m a <;> simp [Action.dropsModel, mem_foldl_erase] <;> grind
  dropped x m a k hk hmem := by
    cases a with
    | unregisterServicesAndUnloadModels services models =>
      exact ⟨.unloadModels models, by simp [exec, Effect.fresh], hk⟩
    | unloadModels models => exact absurd hk (mem_foldl_erase.mp hmem).2
    | _ => cases hk

theorem declares_services (env : Env) :
    Declares (exec env) (fun m n => n ∈ m.serviceMap) Action.addsService Action.dropsService where
  adds_fresh x m a := by
    fun_cases exec env x m a <;> simp [Effect.fresh, Action.addsService] <;> grind
  drops_fresh x m a := by
    fun_cases exec env x m a <;> simp [Effect.fresh, Action.dropsService] <;> grind
  grows x m a k := by
    fun_cases exec env x m a <;> simp [Action.addsService] <;> grind
  keeps x m a k := by
    fun_cases exec env x m a <;> simp [Action.dropsService] <;> grind
  dropped x m a k hk hmem := by
    cases a with
    | unregisterServicesAndUnloadModels services models =>
      exact ⟨.unregisterServices services, by simp [exec, Effect.fresh], hk⟩
    | unregisterServices services =>
      cases services with
      | nil => cases hk
      | cons service services =>
        obtain ⟨hin, hne⟩ := List.mem_filter.mp hk
        rcases List.mem_cons.mp hin with rfl | hin
        · exact ⟨.eraseService k, by simpa [exec, Effect.fresh] using hne, List.mem_cons_self⟩
        · exact ⟨.unregisterServices services, by simp [exec, Effect.fresh], List.mem_filter.mpr ⟨hin, hne⟩⟩
    | eraseService service =>
      obtain rfl := List.mem_singleton.mp hk
      simp [exec] at hmem
    | _ => cases hk

/-! ## A request among pending work -/

/-- Pending work adds only what the request names and drops nothing that it names. -/
def InFavour (s : State) (req : Request) : Prop :=
  ∀ a ∈ s.pending,
    (∀ n ∈ a.addsModel, n ∈ modelNames req) ∧ (∀ n ∈ a.dropsModel, n ∉ modelNames req) ∧
    (∀ n ∈ a.addsService, n ∈ serviceNames req) ∧ ∀ n ∈ a.dropsService, n ∉ serviceNames req

instance (s : State) (req : Request) : Decidable (InFavour s req) := by unfold InFavour; infer_instance

/-- `service_map_` has no empty name, and no register job will put one there. -/
def Named (s : State) : Prop := "" ∉ s.store.serviceMap ∧ ∀ a ∈ s.pending, "" ∉ a.addsService

theorem handler_adds {m : Maps} {req : Request} {a : Action} (ha : a ∈ loadAndRegister env m req) :
    (∀ n ∈ a.addsModel, n ∈ modelNames req) ∧ ∀ n ∈ a.addsService, n ∈ serviceNames req ∧ n ≠ "" := by
  rcases mem_loadAndRegister.mp ha with rfl | rfl | rfl
  · simp [Action.addsModel, Action.addsService]
  · refine ⟨?_, by simp [Action.addsService]⟩
    intro n hn
    obtain ⟨r, hr, rfl⟩ := List.mem_map.mp hn
    obtain ⟨f, hf⟩ := mem_compModels.mp hr
    obtain ⟨e, he, -, -, rfl⟩ := of_firstRecord hf
    exact List.mem_map_of_mem he
  · refine ⟨by simp [Action.addsModel], ?_⟩
    intro n hn
    obtain ⟨hmem, hne⟩ := List.mem_filter.mp hn
    obtain ⟨job, hjob, rfl⟩ := List.mem_map.mp hmem
    exact ⟨(mem_registerJobs hjob).1, by simpa using hne⟩

theorem handler_drops {m : Maps} {req : Request} {a : Action} (ha : a ∈ loadAndRegister env m req) :
    (∀ n ∈ a.dropsModel, n ∉ modelNames req) ∧ ∀ n ∈ a.dropsService, n ∉ serviceNames req := by
  rcases mem_loadAndRegister.mp ha with rfl | rfl | rfl
  · refine ⟨fun n hn => (mem_uselessModelNames.mp hn).2, fun n hn => ?_⟩
    exact (mem_uselessServiceNames.mp (List.mem_filter.mp hn).1).2
  · simp [Action.dropsModel, Action.dropsService]
  · simp [Action.dropsModel, Action.dropsService]

theorem named_work {s t : State} {i : Nat} {x : Answer} (hs : Named s) (h : work (exec env) s i x = some t) :
    Named t := by
  obtain ⟨a, ha, hst, hold, -, -⟩ := mem_pending_of_work _ h
  refine ⟨?_, ?_⟩
  · intro hmem
    rw [hst] at hmem
    rcases (declares_services env).grows x s.store a "" hmem with hmem | hmem
    · exact hs.1 hmem
    · exact hs.2 a ha hmem
  · intro b hb hmem
    rcases hold b hb with hb | hb
    · exact hs.2 b hb hmem
    · exact hs.2 a ha ((declares_services env).adds_fresh x s.store a b hb "" hmem)

theorem named_step {s t : State} {e : Event} (hs : Named s) (h : step env s e = some t) : Named t := by
  cases e with
  | work i x => exact named_work hs h
  | request req =>
    obtain ⟨hst, hp⟩ := pending_request h
    refine ⟨hst ▸ hs.1, ?_⟩
    intro a ha hmem
    rw [hp] at ha
    rcases List.mem_append.mp ha with ha | ha
    · exact hs.2 a ha hmem
    · exact ((handler_adds ha).2 "" hmem).2 rfl

theorem Quiet.namedState {s : State} (hs : Quiet s) : Named s := ⟨hs.named, fun a ha => absurd ha (hs.idle.not_mem a)⟩

theorem named_run {s t : State} {es : List Event} (hs : Quiet s) (hr : run (step env) s es = some t) : Named t :=
  run_invariant (step env) Named (fun _ _ _ h ht => named_step h ht) hs.namedState hr

/-- Both maps are on their way to what the request names. -/
def Following (req : Request) (s : State) : Prop :=
  Converging (fun m n => n ∈ m.modelMap) Action.addsModel Action.dropsModel (· ∈ modelNames req) s ∧
    Converging (fun m n => n ∈ m.serviceMap) Action.addsService Action.dropsService (· ∈ serviceNames req) s

theorem following_request {s t : State} {req : Request} (hs : Named s) (hf : InFavour s req)
    (h : step env s (.request req) = some t) : Following req t := by
  cases h
  refine ⟨Converging.spawn ?_ ?_ ?_, Converging.spawn ?_ ?_ ?_⟩
  · intro a h n hn
    rcases h with ha | ha
    · exact (hf a ha).1 n hn
    · exact (handler_adds ha).1 n hn
  · intro a h n hn
    rcases h with ha | ha
    · exact (hf a ha).2.1 n hn
    · exact (handler_drops ha).1 n hn
  · intro n hn
    by_cases hreq : n ∈ modelNames req
    · exact .inl hreq
    · exact .inr ⟨_, List.mem_cons_self, mem_uselessModelNames.mpr ⟨hn, hreq⟩⟩
  · intro a h n hn
    rcases h with ha | ha
    · exact (hf a ha).2.2.1 n hn
    · exact ((handler_adds ha).2 n hn).1
  · intro a h n hn
    rcases h with ha | ha
    · exact (hf a ha).2.2.2 n hn
    · exact (handler_drops ha).2 n hn
  · intro n hn
    by_cases hreq : n ∈ serviceNames req
    · exact .inl hreq
    · refine .inr ⟨_, List.mem_cons_self, List.mem_filter.mpr ⟨mem_uselessServiceNames.mpr ⟨hn, hreq⟩, ?_⟩⟩
      have hne : n ≠ "" := fun he => hs.1 (he ▸ hn)
      simpa using hne

theorem following_work {req : Request} {s t : State} {i : Nat} {x : Answer} (hs : Following req s)
    (h : work (exec env) s i x = some t) : Following req t :=
  ⟨hs.1.work (declares_models env) h, hs.2.work (declares_services env) h⟩

/-- What the request names and is there stays there. -/
def Keeps (req : Request) (s t : State) : Prop :=
  (∀ n ∈ serviceNames req, n ∈ s.store.serviceMap → n ∈ t.store.serviceMap) ∧
    ∀ n ∈ modelNames req, n ∈ s.store.modelMap → n ∈ t.store.modelMap

theorem keeps_run {req : Request} {s t : State} {ws : List Event} (hws : ∀ e ∈ ws, e.isWork) (hs : Following req s)
    (hr : run (step env) s ws = some t) : Following req t ∧ Keeps req s t := by
  refine work_run (fun t => Following req t ∧ Keeps req s t) ?_ hws ⟨hs, fun _ _ h => h, fun _ _ h => h⟩ hr
  intro u v i x h hv
  obtain ⟨hu, hk⟩ := h
  refine ⟨following_work hu hv, ?_, ?_⟩
  · intro n hn hmem
    exact hu.2.keeps (declares_services env) hv hn (hk.1 n hn hmem)
  · intro n hn hmem
    exact hu.1.keeps (declares_models env) hv hn (hk.2 n hn hmem)

/-- A request that finds pending work in its favour is followed: once all jobs have
    finished, nothing is left that it does not name, and what it names is not removed. -/
theorem follows_last_request (env : Env) {s t : State} (hs : Quiet s) {es ws : List Event} {req : Request}
    (hlast : ∀ e ∈ ws, e.isWork) (hfav : ∀ u, run (step env) s es = some u → InFavour u req)
    (hr : run (step env) s (es ++ .request req :: ws) = some t) :
    (t.Idle → (∀ n ∈ t.store.serviceMap, n ∈ serviceNames req) ∧ ∀ n ∈ t.store.modelMap, n ∈ modelNames req) ∧
      ∀ ws₁ ws₂ u, ws = ws₁ ++ ws₂ → run (step env) s (es ++ .request req :: ws₁) = some u → Keeps req u t := by
  obtain ⟨u₀, hu₀, hr⟩ := (run_append_some (step env)).mp hr
  obtain ⟨v, hv, hr⟩ := (run_cons_some (step env)).mp hr
  have hfv := following_request (named_run hs hu₀) (hfav u₀ hu₀) hv
  refine ⟨fun hidle => ?_, ?_⟩
  · have hft := (keeps_run hlast hfv hr).1
    exact ⟨fun n hn => hft.2.idle hidle hn, fun n hn => hft.1.idle hidle hn⟩
  · intro ws₁ ws₂ u heq hu
    subst heq
    obtain ⟨u₀', hu₀', hu⟩ := (run_append_some (step env)).mp hu
    obtain ⟨v', hv', hu⟩ := (run_cons_some (step env)).mp hu
    obtain rfl : u₀' = u₀ := Option.some.inj (hu₀'.symm.trans hu₀)
    obtain rfl : v' = v := Option.some.inj (hv'.symm.trans hv)
    obtain ⟨u', hu', hr⟩ := (run_append_some (step env)).mp hr
    obtain rfl : u' = u := Option.some.inj (hu'.symm.trans hu)
    have hfu := (keeps_run (fun e he => hlast e (List.mem_append_left _ he)) hfv hu).1
    exact (keeps_run (fun e he => hlast e (List.mem_append_right _ he)) hfu hr).2

/-- The config of a package is kept under the name of its model. -/
def demoEnv : Env where
  packageFullName configName := configName

def ctr : ModelJson where
  name := "ctr"
  timestamp := "20200826"
  fullName := "ctr-20200826"
  configName := "ctr"

def feedOnly : Request := [{ serviceName := "feed", modelRecords := [ctr] }]

def feedAndAds : Request := [{ serviceName := "feed", modelRecords := [ctr] }, { serviceName := "ads", modelRecords := [ctr] }]

def go (i : Nat) : Event := .work i {}

/-- `feed` is requested and its model loaded; its register job (task 3) has seen that, and
    has not registered yet. -/
def feedSeen : List Event :=
  [.request feedOnly, go 0, go 0, go 0, go 0, go 0, go 0, go 1, go 1, go 2, go 2, go 3]

/-- The next request asks for more, and all jobs finish. -/
def thenMore : List Event :=
  [go 3, go 4, go 4, go 4, go 4, go 4, go 5, go 5, go 3, go 3, go 3, go 6, go 6, go 6, go 6, go 6, go 7, go 7, go 7, go 7]

theorem follows_last_request_for_more :
    ∃ t, run (step demoEnv) init (feedSeen ++ .request feedAndAds :: thenMore) = some t ∧ t.Idle ∧
      (∀ n ∈ t.store.serviceMap, n ∈ serviceNames feedAndAds) ∧ ∀ n ∈ t.store.modelMap, n ∈ modelNames feedAndAds := by
  have hrun : (run (step demoEnv) init (feedSeen ++ .request feedAndAds :: thenMore)).any (fun t => t.Idle) := by decide
  obtain ⟨t, ht, hidle⟩ := (Option.any_eq_true _ _).mp hrun
  refine ⟨t, ht, by simpa using hidle, ?_⟩
  have hfav : ∀ u, run (step demoEnv) init feedSeen = some u → InFavour u feedAndAds := by
    have hall : (run (step demoEnv) init feedSeen).all (fun u => InFavour u feedAndAds) := by decide
    intro u hu
    simpa [hu] using hall
  exact (follows_last_request demoEnv quiet_init (by decide) hfav ht).1 (by simpa using hidle)

/-- The next request asks for nothing. Its unregister job (task 5) has nothing to
    unregister, then the register job goes on. -/
def thenNothing : List Event := [go 4, go 4, go 4, go 5, go 5, go 3, go 3, go 3, go 3]

/-- The service registered after the last request stays although that does not name it. -/
theorem late_register_stays :
    ¬ ∀ (es ws : List Event) (req : Request) (t : State), (∀ e ∈ ws, e.isWork) →
      run (step demoEnv) init (es ++ .request req :: ws) = some t → t.Idle →
        ∀ n ∈ t.store.serviceMap, n ∈ serviceNames req := by
  intro h
  have hrun : (run (step demoEnv) init (feedSeen ++ .request [] :: thenNothing)).any
      (fun t => t.Idle && "feed" ∈ t.store.serviceMap) := by decide
  obtain ⟨t, ht, hbad⟩ := (Option.any_eq_true _ _).mp hrun
  simp only [Bool.and_eq_true, decide_eq_true_eq] at hbad
  have hfeed := h feedSeen thenNothing [] t (by decide) ht hbad.1 "feed" hbad.2
  simp [serviceNames] at hfeed

end PredictorService.HttpService
