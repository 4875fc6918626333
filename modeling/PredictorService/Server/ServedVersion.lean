/-
  PredictorService.Server.ServedVersion — the version that is reported and the one served.

  A load job writes twice: the model into `ModelFramework::models_`, then its record into
  `model_map_`. Between the two the job of another version can write its model, and the
  record stored last is then not that of the model stored last (`overtaken_load_reports_other_version`).
  While no load of another version succeeds in that window, a loaded record reports the
  version that is served as soon as its name has no load job (`reported_is_served`).
-/

import PredictorService.Server.RegisterWaits

namespace PredictorService.HttpService

open Std (TreeMap)
open PredictorService.Lib
open PredictorService.Lib.TaskPool

/-! ## What one action does -/

/-- The records an action may still load. -/
def Action.loadRecords : Action → List ModelRecord
  | .loadModels rs => rs
  | .addLoad r => [r]
  | .loadModel r => [r]
  | _ => []

/-- The record whose package an action loads. -/
def Action.loading : Action → Option ModelRecord
  | .loadModel r => some r
  | _ => none

/-- The loaded record that an action stores. -/
def Action.storesLoaded : Action → List ModelRecord
  | .storeRecord r => if r.state = .loaded then [r] else []
  | _ => []

/-- The model under the name of the record is from the package of its timestamp. -/
def Serves (m : Maps) (e : ModelRecord) : Prop := ∃ r, m.models[e.name]? = some r ∧ r.timestamp = e.timestamp

section Exec

variable {env : Env} {x : Answer} {m : Maps} {a : Action}

/-- Only the state of a record changes on its way to the load. -/
theorem loadRecords_fresh : ∀ b ∈ (exec env x m a).fresh, ∀ r ∈ b.loadRecords,
    ∃ r₀ ∈ a.loadRecords, r.name = r₀.name ∧ r.configName = r₀.configName := by
  fun_cases exec env x m a <;> simp [Effect.fresh, Action.loadRecords, ModelRecord.setState] <;> grind

theorem models_exec : (exec env x m a).store.models = m.models ∨ ∃ r, a = .loadModel r ∧ x.ok ∧
    (exec env x m a).store.models = m.models.insert (env.packageFullName r.configName) r := by
  fun_cases exec env x m a <;> simp_all

/-- A record that is loaded comes from a load that succeeded. -/
theorem loaded_fresh {r : ModelRecord} (h : .storeRecord r ∈ (exec env x m a).fresh) (hr : r.state = .loaded) :
    ∃ r₀, a = .loadModel r₀ ∧ x.ok ∧ r.name = r₀.name ∧ r.timestamp = r₀.timestamp := by
  revert h
  fun_cases exec env x m a <;> simp [Effect.fresh, ModelRecord.setState] <;> grind

/-- A loaded entry is from before, or has just been stored. -/
theorem loaded_exec {n : String} {e : ModelRecord} (h : (exec env x m a).store.modelMap[n]? = some e)
    (he : e.state = .loaded) :
    (m.modelMap[n]? = some e ∧ ∀ r, a = .storeRecord r → r.name ≠ n) ∨ (a = .storeRecord e ∧ e.name = n) := by
  revert h
  fun_cases exec env x m a <;>
    simp [getElem?_foldl_erase, TreeMap.getElem?_insert] <;> grind [ModelRecord.setState_state]

end Exec

/-! ## The invariant -/

variable {env : Env}

/-- A loaded record waits to be stored under this name. -/
def StorePending (s : State) (n : String) : Prop :=
  ∃ r, .storeRecord r ∈ s.pending ∧ r.state = .loaded ∧ r.name = n

structure Serving (env : Env) (s : State) : Prop where
  named : ∀ a ∈ s.pending, ∀ r ∈ a.loadRecords, env.packageFullName r.configName = r.name
  storing : ∀ r, .storeRecord r ∈ s.pending → r.state = .loaded → Serves s.store r
  served : ∀ (n : String) (e : ModelRecord), s.store.modelMap[n]? = some e → e.state = .loaded →
    e.name = n ∧ (Serves s.store e ∨ StorePending s n)

theorem serving_init : Serving env init where
  named a ha := by simp [init, Pool.pending] at ha
  storing r hr := by simp [init, Pool.pending] at hr
  served n e he := by simp [init] at he

/-- A record is named as the config of its package says. -/
def NamedAsConfig (env : Env) (req : Request) : Prop :=
  ∀ e ∈ entries req, env.packageFullName e.2.configName = e.2.name

instance (env : Env) (req : Request) : Decidable (NamedAsConfig env req) :=
  inferInstanceAs (Decidable (∀ e ∈ entries req, _))

theorem handler_loadRecords {m : Maps} {req : Request} (hreq : NamedAsConfig env req) {a : Action}
    (ha : a ∈ loadAndRegister env m req) : ∀ r ∈ a.loadRecords, env.packageFullName r.configName = r.name := by
  rcases mem_loadAndRegister.mp ha with rfl | rfl | rfl
  · simp [Action.loadRecords]
  · intro r hr
    obtain ⟨f, hf⟩ := mem_compModels.mp hr
    obtain ⟨e, he, -, -, rfl⟩ := of_firstRecord hf
    exact hreq e he
  · simp [Action.loadRecords]

theorem Serving.request {s t : State} {req : Request} (hs : Serving env s) (hreq : NamedAsConfig env req)
    (h : step env s (.request req) = some t) : Serving env t := by
  obtain ⟨hst, hp⟩ := pending_request h
  have hstore : ∀ r, .storeRecord r ∈ t.pending ↔ .storeRecord r ∈ s.pending := by
    intro r
    rw [hp, List.mem_append, mem_loadAndRegister]
    simp
  refine ⟨?_, ?_, ?_⟩
  · intro a ha
    rw [hp] at ha
    rcases List.mem_append.mp ha with ha | ha
    · exact hs.named a ha
    · exact handler_loadRecords hreq ha
  · intro r hr hl
    rw [hst]
    exact hs.storing r ((hstore r).mp hr) hl
  · intro n e he hl
    rw [hst] at he ⊢
    obtain ⟨hn, hserves | ⟨r, hr, hrl⟩⟩ := hs.served n e he hl
    · exact ⟨hn, .inl hserves⟩
    · exact ⟨hn, .inr ⟨r, (hstore r).mpr hr, hrl⟩⟩

/-- No loaded record of another version of the model waits to be stored. -/
def Unrivalled (s : State) (r : ModelRecord) : Prop :=
  ∀ a ∈ s.pending, ∀ r' ∈ a.storesLoaded, r'.name = r.name → r'.timestamp = r.timestamp

instance (s : State) (r : ModelRecord) : Decidable (Unrivalled s r) :=
  inferInstanceAs (Decidable (∀ a ∈ s.pending, ∀ r' ∈ a.storesLoaded, r'.name = r.name → r'.timestamp = r.timestamp))

/-- A model that is served stays so: a load that succeeds is of the same version or of
    another model. -/
theorem serves_exec {s : State} (hs : Serving env s) {a : Action} (ha : a ∈ s.pending) {x : Answer}
    (hok : ∀ r, a = .loadModel r → x.ok → Unrivalled s r) {r : ModelRecord} (hr : .storeRecord r ∈ s.pending)
    (hl : r.state = .loaded) : Serves (exec env x s.store a).store r := by
  rcases @models_exec env x s.store a with hm | ⟨r₀, rfl, hx, hm⟩
  · obtain ⟨r', hr', ht⟩ := hs.storing r hr hl
    exact ⟨r', by rw [hm, hr'], ht⟩
  · have hname := hs.named _ ha r₀ List.mem_cons_self
    by_cases hn : r.name = r₀.name
    · have hsame := hok r₀ rfl hx _ hr r (by simp [Action.storesLoaded, hl]) hn
      exact ⟨r₀, by simp [hm, hname, hn], hsame.symm⟩
    · obtain ⟨r', hr', ht⟩ := hs.storing r hr hl
      exact ⟨r', by rw [hm, hname, TreeMap.getElem?_insert]; simp [Ne.symm hn, hr'], ht⟩

/-- What the pool does with a record that waits to be stored: it waits on, or has been
    stored by this step. -/
theorem StorePending.work {s t : State} {a : Action}
    (hkeep : ∀ b ∈ s.pending, b = a ∨ b ∈ t.pending) {n : String} (h : StorePending s n)
    (hne : ∀ r, a = .storeRecord r → r.name ≠ n) : StorePending t n := by
  obtain ⟨r, hr, hl, hn⟩ := h
  rcases hkeep _ hr with rfl | hr
  · exact absurd hn (hne r rfl)
  · exact ⟨r, hr, hl, hn⟩

theorem Serving.work {s t : State} {i : Nat} {x : Answer} (hs : Serving env s)
    (hok : ∀ r, s.next? i = some (.loadModel r) → x.ok → Unrivalled s r)
    (h : work (exec env) s i x = some t) : Serving env t := by
  obtain ⟨a, hnext, ha, hst, hold, hkeep, hnew⟩ := work_next _ h
  have hok : ∀ r, a = .loadModel r → x.ok → Unrivalled s r := fun r hr => hok r (hr ▸ hnext)
  refine ⟨?_, ?_, ?_⟩
  · intro b hb r hr
    rcases hold b hb with hb | hb
    · exact hs.named b hb r hr
    · obtain ⟨r₀, hr₀, hn, hc⟩ := loadRecords_fresh b hb r hr
      rw [hn, hc]
      exact hs.named a ha r₀ hr₀
  · intro r hr hl
    rw [hst]
    rcases hold _ hr with hr | hr
    · exact serves_exec hs ha hok hr hl
    · -- the record of the load that has just succeeded
      obtain ⟨r₀, rfl, hx, hn, ht⟩ := loaded_fresh hr hl
      have hname := hs.named _ ha r₀ List.mem_cons_self
      exact ⟨r₀, by simp [exec, hx, hname, hn], ht.symm⟩
  · intro n e he hl
    rw [hst] at he ⊢
    rcases loaded_exec he hl with ⟨he, hne⟩ | ⟨rfl, hn⟩
    · obtain ⟨hn, hserves⟩ := hs.served n e he hl
      refine ⟨hn, ?_⟩
      rcases @models_exec env x s.store a with hm | ⟨r₀, rfl, hx, hm⟩
      · rcases hserves with ⟨r, hr, ht⟩ | hp
        · exact .inl ⟨r, by rw [hm, hr], ht⟩
        · exact .inr (hp.work hkeep hne)
      · have hname := hs.named _ ha r₀ List.mem_cons_self
        by_cases hn₀ : r₀.name = n
        · -- the entry is old now, and the new one will be stored
          have hfresh : .storeRecord { r₀.setState .loaded with successTime := x.now } ∈ t.pending :=
            hnew _ (by simp [exec, hx, Effect.fresh])
          exact .inr ⟨_, hfresh, rfl, hn₀⟩
        · rcases hserves with ⟨r, hr, ht⟩ | hp
          · refine .inl ⟨r, ?_, ht⟩
            rw [hm, hname, TreeMap.getElem?_insert]
            simp [hn, hn₀, ← hr]
          · exact .inr (hp.work hkeep hne)
    · exact ⟨hn, .inl (serves_exec hs ha hok ha hl)⟩

/-! ## Every run -/

/-- Records are named as their configs say, and no load succeeds between the two writes of
    the job of another version of the model. -/
def InTurn (env : Env) (s : State) : Event → Prop
  | .request req => NamedAsConfig env req
  | .work i x => ∀ a ∈ s.next? i, ∀ r ∈ a.loading, x.ok → Unrivalled s r

instance (s : State) : (e : Event) → Decidable (InTurn env s e)
  | .request req => inferInstanceAs (Decidable (NamedAsConfig env req))
  | .work i x => inferInstanceAs (Decidable (∀ a ∈ s.next? i, ∀ r ∈ a.loading, x.ok → Unrivalled s r))

theorem serving_run {s t : State} (hs : Serving env s) {es : List Event} (hm : Meets (step env) (InTurn env) s es)
    (hr : run (step env) s es = some t) : Serving env t := by
  refine run_history (step env) (InTurn env) (fun _ s => Serving env s) ?_ [] hs hm hr
  intro _ s t e hs hok ht
  cases e with
  | request req => exact hs.request hok ht
  | work i x =>
    refine hs.work ?_ ht
    intro r hr
    exact hok _ hr r rfl

/-- In every state, a name without a load job that is reported as loaded is served from the
    package of the reported timestamp. -/
theorem reported_is_served (env : Env) {es : List Event} {t : State} (hm : Meets (step env) (InTurn env) init es)
    (hr : run (step env) init es = some t) {n : String} {e : ModelRecord} (he : t.store.modelMap[n]? = some e)
    (hl : e.state = .loaded) (hjob : ¬ LoadPending t n) :
    ∃ r, t.store.models[n]? = some r ∧ r.timestamp = e.timestamp := by
  obtain ⟨rfl, hserves | ⟨r, hr, -, hn⟩⟩ := (serving_run serving_init hm hr).served n e he hl
  · exact hserves
  · exact absurd ⟨_, hr, List.mem_singleton.mpr hn.symm⟩ hjob

/-- Every package is of `ctr`. -/
def ctrEnv : Env where
  packageFullName _ := "ctr"

def ctrNext : ModelJson where
  name := "ctr"
  timestamp := "20200827"
  fullName := "ctr-20200827"
  configName := "ctr_20200827/config.json"

def feedNext : Request := [{ serviceName := "feed", modelRecords := [ctrNext] }]

/-- Two requests ask for two versions, and both load jobs (tasks 2 and 5) are added before
    one of them runs. -/
def bothAdded : List Event := [.request feedOnly, go 0, go 0, go 0, .request feedNext, go 3, go 3, go 3]

theorem reported_is_served_in_turn :
    ∃ t e, run (step ctrEnv) init (bothAdded ++ [go 2, go 2, go 5, go 5]) = some t ∧
      t.store.modelMap["ctr"]? = some e ∧ e.timestamp = "20200827" ∧
      ∃ r, t.store.models["ctr"]? = some r ∧ r.timestamp = e.timestamp := by
  have hrun : (run (step ctrEnv) init (bothAdded ++ [go 2, go 2, go 5, go 5])).any fun t =>
      t.pending.all (fun a => "ctr" ∉ a.loads) &&
        t.store.modelMap["ctr"]?.any fun e => e.state = .loaded && e.timestamp = "20200827" := by
    decide
  obtain ⟨t, ht, hdone⟩ := (Option.any_eq_true _ _).mp hrun
  simp only [Bool.and_eq_true, List.all_eq_true, Option.any_eq_true, decide_eq_true_eq] at hdone
  obtain ⟨hjob, e, he, hl, hts⟩ := hdone
  refine ⟨t, e, ht, he, hts, reported_is_served ctrEnv (by decide) ht he hl ?_⟩
  intro hp
  obtain ⟨a, ha, hn⟩ := hp
  exact hjob a ha hn

/-- The job of the first version loads, then the other job loads and stores, then the first
    stores; all other jobs finish. -/
def overtaken : List Event :=
  bothAdded ++ [go 2, go 5, go 5, go 2, go 0, go 0, go 0, go 1, go 1, go 3, go 3, go 3, go 4, go 4] ++
    [go 6, go 6, go 6, go 6, go 6, go 7, go 7, go 7, go 7]

/-- The first version is reported and the second is served, for good. -/
theorem overtaken_load_reports_other_version :
    ¬ ∀ (es : List Event) (t : State), (∀ req, .request req ∈ es → NamedAsConfig ctrEnv req) →
      run (step ctrEnv) init es = some t → (∀ n, ¬ LoadPending t n) →
        ∀ (n : String) (e : ModelRecord), t.store.modelMap[n]? = some e → e.state = .loaded →
          ∃ r, t.store.models[n]? = some r ∧ r.timestamp = e.timestamp := by
  intro h
  have hrun : (run (step ctrEnv) init overtaken).any fun t => t.Idle &&
      (t.store.modelMap["ctr"]?.any fun e => e.state = .loaded && e.timestamp = "20200826") &&
      t.store.models["ctr"]?.any fun r => r.timestamp = "20200827" := by
    decide
  obtain ⟨t, ht, hbad⟩ := (Option.any_eq_true _ _).mp hrun
  simp only [Bool.and_eq_true, Option.any_eq_true, decide_eq_true_eq] at hbad
  obtain ⟨⟨hidle, e, he, hl, hts⟩, r, hr, hr2⟩ := hbad
  have hnamed : ∀ req, .request req ∈ overtaken → NamedAsConfig ctrEnv req := by
    intro req hreq
    simp only [overtaken, bothAdded, go, List.mem_append, List.mem_cons, List.not_mem_nil, Event.request.injEq,
      reduceCtorEq, or_false, false_or] at hreq
    rcases hreq with rfl | rfl
    · decide
    · decide
  have hjobs : ∀ n, ¬ LoadPending t n := by
    intro n hp
    obtain ⟨a, ha, -⟩ := hp
    exact hidle.not_mem a ha
  obtain ⟨r', hr', hsame⟩ := h overtaken t hnamed ht hjobs "ctr" e he hl
  obtain rfl : r = r' := Option.some.inj (hr.symm.trans hr')
  rw [hr2, hts] at hsame
  exact absurd hsame (by decide)

end PredictorService.HttpService
