/-
  PredictorService.Server.ExactRequest — one `/load_and_register` from a quiet state.

  With names and full names one to one, the outcome does not depend on the order of the
  jobs (`request_applied_exactly`): `model_map_` gets exactly the requested models, a
  service is registered when all of its models loaded, and a model that is already loaded
  with the requested timestamp is not loaded again. The argument needs that each model has
  at most one load job, that its entry says loading as long as that job is pending, and
  that `load_models` has marked every entry before a register job is added.

  A request may list two models under one full name. A set of records keeps one of them,
  and the other never gets into `model_map_` (`shared_full_name_is_dropped`).
-/

import PredictorService.Server.RegisterWaits

namespace PredictorService.HttpService

open Std (TreeMap)
open PredictorService.Lib
open PredictorService.Lib.TaskPool

/-- The register jobs an action holds. -/
def Action.jobs : Action → List RegisterJob
  | .registerServices jobs => jobs
  | .pollModels job => [job]
  | _ => []

theorem loads_subset_addsModel {a : Action} {n : String} (h : n ∈ a.loads) : n ∈ a.addsModel := by
  cases a <;> first | exact h | cases h

theorem marks_subset_addsModel {a : Action} {n : String} (h : n ∈ a.marks) : n ∈ a.addsModel := by
  cases a <;> first | exact h | cases h

theorem not_marks_of_loads {a : Action} {n : String} (h : n ∈ a.loads) : n ∉ a.marks := by
  cases a <;> simp [Action.loads, Action.marks] at h ⊢

theorem addsModel_cases {a : Action} {n : String} (h : n ∈ a.addsModel) : n ∈ a.loads ∨ n ∈ a.marks := by
  cases a <;> first | exact .inl h | exact .inr h

/-! ## What one action does -/

section Exec

variable (env : Env) (x : Answer) (m : Maps) {a : Action}

theorem addsModel_fresh (a : Action) : ((exec env x m a).fresh.flatMap Action.addsModel).Sublist a.addsModel := by
  fun_cases exec env x m a <;> simp [Effect.fresh, Action.addsModel]
  grind

theorem marks_done {n : String} (h : n ∈ a.marks) :
    (∃ c ∈ (exec env x m a).next, n ∈ c.marks) ∨ ∃ c ∈ (exec env x m a).fresh, n ∈ c.loads := by
  cases a with
  | loadModels rs =>
    cases rs with
    | nil => cases h
    | cons r rs =>
      rcases List.mem_cons.mp h with rfl | h
      · exact .inr ⟨.addLoad (r.setState .loading), by simp [exec, Effect.fresh], List.mem_cons_self⟩
      · exact .inl ⟨.loadModels rs, by simp [exec], h⟩
  | _ => cases h

theorem addsModel_done {n : String} (h : n ∈ a.addsModel) :
    n ∈ (exec env x m a).store.modelMap ∨ ∃ b ∈ (exec env x m a).fresh, n ∈ b.addsModel := by
  rcases addsModel_cases h with h | h
  · rcases loads_fresh env x m h with ⟨b, hb, hn⟩ | ⟨r, rfl, rfl⟩
    · exact .inr ⟨b, hb, loads_subset_addsModel hn⟩
    · exact .inl (by simp [exec])
  · rcases marks_next env x m h with hin | ⟨b, hb, hn⟩
    · exact .inl hin
    · exact .inr ⟨b, List.mem_append_left _ hb, marks_subset_addsModel hn⟩

theorem entry_kept {n : String} (hadd : n ∉ a.addsModel) (hdrop : n ∉ a.dropsModel) :
    (exec env x m a).store.modelMap[n]? = m.modelMap[n]? := by
  fun_cases exec env x m a <;>
    simp [Action.addsModel, Action.dropsModel, getElem?_foldl_erase, TreeMap.getElem?_insert] at hadd hdrop ⊢ <;> grind

theorem loads_of_fresh {n : String} : ∀ b ∈ (exec env x m a).fresh, n ∈ b.loads →
    n ∈ a.loads ∧ (exec env x m a).store.modelMap = m.modelMap ∨ ∃ r rs, a = .loadModels (r :: rs) ∧ r.name = n := by
  fun_cases exec env x m a <;> simp [Effect.fresh, Action.loads] <;> grind

/-- A load job in the pool has been marked, by this action or before. -/
theorem loading_fresh {n : String} {b : Action} (hb : b ∈ (exec env x m a).fresh) (hn : n ∈ b.loads) :
    (∃ e : ModelRecord, (exec env x m a).store.modelMap[n]? = some e ∧ e.state = .loading) ∨
      n ∈ a.loads ∧ (exec env x m a).store.modelMap = m.modelMap := by
  rcases loads_of_fresh env x m b hb hn with h | ⟨r, rs, rfl, rfl⟩
  · exact .inr h
  · exact .inl ⟨r.setState .loading, TreeMap.getElem?_insert_self, rfl⟩

theorem marks_fresh {n : String} : ∀ b ∈ (exec env x m a).fresh, n ∈ b.marks → n ∈ a.marks := by
  fun_cases exec env x m a <;> simp [Effect.fresh, Action.marks] <;> grind

theorem jobs_fresh : ∀ b ∈ (exec env x m a).fresh, ∀ job ∈ b.jobs, job ∈ a.jobs := by
  fun_cases exec env x m a <;> simp [Effect.fresh, Action.jobs] <;> grind

/-- A service is about to be inserted only when its models were seen loaded. -/
theorem insertService_fresh {service : String} {weight : Int}
    (h : .insertService service weight ∈ (exec env x m a).fresh) :
    ∃ job, a = .pollModels job ∧ job.serviceName = service ∧ poll m.modelMap job.modelRecords = .allLoaded := by
  revert h
  fun_cases exec env x m a <;> simp [Effect.fresh]
  grind

theorem service_inserted {n : String} (h : n ∈ (exec env x m a).store.serviceMap) :
    n ∈ m.serviceMap ∨ ∃ weight, a = .insertService n weight := by
  revert h
  fun_cases exec env x m a <;> simp <;> grind

theorem addsService_done {n : String} (h : n ∈ a.addsService) :
    (∃ b ∈ (exec env x m a).fresh, n ∈ b.addsService) ∨ n ∈ (exec env x m a).store.serviceMap ∨
      ∃ job, a = .pollModels job ∧ job.serviceName = n ∧ poll m.modelMap job.modelRecords = .failed := by
  cases a with
  | registerServices jobs =>
    cases jobs with
    | nil => cases h
    | cons job jobs =>
      obtain ⟨hn, hne⟩ := List.mem_filter.mp h
      rcases List.mem_cons.mp hn with rfl | hn
      · exact .inl ⟨.pollModels job, by simp [exec, Effect.fresh], List.mem_filter.mpr ⟨List.mem_cons_self, hne⟩⟩
      · exact .inl ⟨.registerServices jobs, by simp [exec, Effect.fresh], List.mem_filter.mpr ⟨hn, hne⟩⟩
  | pollModels job =>
    obtain ⟨hn, hne⟩ := List.mem_filter.mp h
    obtain rfl := List.mem_singleton.mp hn
    cases hpoll : poll m.modelMap job.modelRecords with
    | wait => exact .inl ⟨.pollModels job, by simp [exec, hpoll, Effect.fresh], h⟩
    | failed => exact .inr (.inr ⟨job, rfl, rfl, hpoll⟩)
    | allLoaded =>
      refine .inl ⟨.insertService job.serviceName job.serverWeight, ?_, List.mem_cons_self⟩
      simpa [exec, hpoll, Effect.fresh] using hne
  | insertService service weight =>
    obtain rfl := List.mem_singleton.mp h
    by_cases hin : n ∈ m.serviceMap <;> simp [exec, hin]
  | _ => cases h

theorem loads_exec : (exec env x m a).store.loads = m.loads ∨
    ∃ r, a = .loadModel r ∧ (exec env x m a).store.loads = m.loads ++ [r] := by
  fun_cases exec env x m a <;> simp

end Exec

theorem poll_allLoaded {modelMap : TreeMap String ModelRecord} {rs : List ModelRecord}
    (h : poll modelMap rs = .allLoaded) :
    ∀ r ∈ rs, ∃ e : ModelRecord, modelMap[r.name]? = some e ∧ e.state = .loaded := by
  fun_induction poll modelMap rs <;> grind

theorem poll_failed {modelMap : TreeMap String ModelRecord} {rs : List ModelRecord} (h : poll modelMap rs = .failed) :
    ∃ r ∈ rs, ∃ e : ModelRecord, modelMap[r.name]? = some e ∧ e.state = .failed := by
  fun_induction poll modelMap rs <;> grind

/-! ## The request -/

/-- A model name occurs with one timestamp and one full name. -/
def SingleVersion (req : Request) : Prop :=
  ∀ p ∈ entries req, ∀ q ∈ entries req, p.2.name = q.2.name →
    p.2.timestamp = q.2.timestamp ∧ p.2.fullName = q.2.fullName

instance (req : Request) : Decidable (SingleVersion req) := by unfold SingleVersion; infer_instance

/-- And a full name occurs with one model name. -/
structure OneToOne (req : Request) : Prop where
  single : SingleVersion req
  distinct : ∀ p ∈ entries req, ∀ q ∈ entries req, p.2.fullName = q.2.fullName → p.2.name = q.2.name

def compNames (env : Env) (m : Maps) (req : Request) : List String :=
  (recordsOf (parse env m.modelMap req).compModels).map (·.name)

/-- The records of a register job are those of its service. -/
def JobOf (req : Request) (job : RegisterJob) : Prop :=
  ∀ r, r ∈ job.modelRecords ↔ ∃ f, serviceRecord (entries req) job.serviceName f = some r

/-- Every model listed for the service is loaded. -/
def AllLoaded (m : Maps) (req : Request) (service : String) : Prop :=
  ∀ p ∈ entries req, p.1 = service → ∃ e : ModelRecord, m.modelMap[p.2.name]? = some e ∧ e.state = .loaded

/-- The entry of the model is in this state for good: no load job for it is pending. -/
def Final (state : ModelState) (s : State) (n : String) : Prop :=
  (∃ e : ModelRecord, s.store.modelMap[n]? = some e ∧ e.state = state) ∧ ∀ a ∈ s.pending, n ∉ a.addsModel

variable {env : Env} {req : Request}

/-- The job of a service waits for every model listed for it. -/
theorem JobOf.polls {job : RegisterJob} (h : JobOf req job) (hreq : OneToOne req) {p : String × ModelJson}
    (hp : p ∈ entries req) (hs : p.1 = job.serviceName) : ∃ r ∈ job.modelRecords, r.name = p.2.name := by
  obtain ⟨r, hr⟩ := exists_firstRecord (·.1 = job.serviceName) hp (by simpa using hs)
  refine ⟨r, (h r).mpr ⟨_, hr⟩, ?_⟩
  obtain ⟨q, hq, -, hf, rfl⟩ := of_firstRecord hr
  exact hreq.distinct q hq p hp hf

theorem JobOf.listed {job : RegisterJob} (h : JobOf req job) {r : ModelRecord} (hr : r ∈ job.modelRecords) :
    ∃ p ∈ entries req, p.1 = job.serviceName ∧ p.2.name = r.name := by
  obtain ⟨f, hf⟩ := (h r).mp hr
  obtain ⟨p, hp, hs, -, rfl⟩ := of_firstRecord hf
  exact ⟨p, hp, by simpa using hs, rfl⟩

/-- How far the jobs of one request have come, from the quiet state `s₀`. -/
structure Applying (env : Env) (s₀ : State) (req : Request) (s : State) : Prop where
  waiting : Waiting s
  following : Following req s
  complete : Complete (fun m n => n ∈ m.modelMap) Action.addsModel (· ∈ modelNames req) s
  /-- No two load jobs for one model. -/
  once : (s.pending.flatMap Action.addsModel).Nodup
  comp : ∀ a ∈ s.pending, ∀ n ∈ a.addsModel, n ∈ compNames env s₀.store req
  loading : ∀ a ∈ s.pending, ∀ n ∈ a.loads, ∃ e : ModelRecord, s.store.modelMap[n]? = some e ∧ e.state = .loading
  /-- What is waited for and not marked yet is marked earlier in the same task. -/
  marked : ∀ task ∈ s.tasks, ∀ before b after, task = before ++ b :: after → ∀ n ∈ b.awaits,
    (∃ a ∈ s.pending, n ∈ a.marks) → ∃ c ∈ before, n ∈ c.marks
  jobs : ∀ a ∈ s.pending, ∀ job ∈ a.jobs, JobOf req job
  inserting : ∀ service weight, .insertService service weight ∈ s.pending →
    ∀ p ∈ entries req, p.1 = service → Final .loaded s p.2.name
  registered : ∀ n ∈ s.store.serviceMap, n ∉ s₀.store.serviceMap →
    ∀ p ∈ entries req, p.1 = n → Final .loaded s p.2.name
  outcome : ∀ n ∈ serviceNames req, n ≠ "" → (∃ a ∈ s.pending, n ∈ a.addsService) ∨ n ∈ s.store.serviceMap ∨
    ∃ p ∈ entries req, p.1 = n ∧ Final .failed s p.2.name
  logged : ∀ n, n ∉ compNames env s₀.store req →
    s.store.loads.filter (·.name = n) = s₀.store.loads.filter (·.name = n)

/-! ## Steps -/

section Step

variable {s₀ s t : State} {i : Nat} {x : Answer}

theorem Final.work {state : ModelState} {n : String} (hf : Final state s n) (hs : Following req s)
    (hn : n ∈ modelNames req) (h : TaskPool.work (exec env) s i x = some t) : Final state t n := by
  obtain ⟨a, ha, hst, hold, -, -⟩ := mem_pending_of_work _ h
  obtain ⟨⟨e, he, hstate⟩, hnone⟩ := hf
  refine ⟨⟨e, ?_, hstate⟩, ?_⟩
  · rw [hst, entry_kept env x s.store (hnone a ha) fun hd => hs.1.drops_unwanted a ha n hd hn]
    exact he
  · intro b hb hadd
    rcases hold b hb with hb | hb
    · exact hnone b hb hadd
    · exact hnone a ha ((declares_models env).adds_fresh x s.store a b hb n hadd)

theorem mem_modelNames {p : String × ModelJson} (hp : p ∈ entries req) : p.2.name ∈ modelNames req :=
  List.mem_map_of_mem hp

/-- An action at one place of a list without duplicates adds no model that another adds. -/
theorem once_apart {before after : List Action} {a b : Action} {n : String}
    (h : ((before ++ a :: after).flatMap Action.addsModel).Nodup) (hb : b ∈ before ++ after) (hna : n ∈ a.addsModel) :
    n ∉ b.addsModel := by
  rw [(List.perm_middle.flatMap_right _).nodup_iff, List.flatMap_cons] at h
  exact fun hnb => List.disjoint_of_nodup_append h hna (List.mem_flatMap.mpr ⟨b, hb, hnb⟩)

theorem once_unique {l : List Action} (h : (l.flatMap Action.addsModel).Nodup) {a b : Action} (ha : a ∈ l) (hb : b ∈ l)
    {n : String} (hna : n ∈ a.addsModel) (hnb : n ∈ b.addsModel) : a = b := by
  by_contra hne
  obtain ⟨before, after, rfl⟩ := List.append_of_mem ha
  have hb : b ∈ before ++ after := by
    simp only [List.mem_append, List.mem_cons] at hb ⊢
    rcases hb with hb | rfl | hb
    · exact .inl hb
    · exact absurd rfl hne
    · exact .inr hb
  exact once_apart h hb hna hnb

theorem once_work (hs : Applying env s₀ req s) (h : TaskPool.work (exec env) s i x = some t) :
    (t.pending.flatMap Action.addsModel).Nodup := by
  obtain ⟨before, a, after, -, hp, -, hq⟩ := work_pending _ h
  have honce := hs.once
  rw [hp, (List.perm_middle.flatMap_right _).nodup_iff, List.flatMap_cons, List.nodup_append_comm] at honce
  rw [(hq.flatMap_right _).nodup_iff, List.flatMap_append]
  exact honce.sublist ((addsModel_fresh env x s.store a).append_left _)

theorem loading_work (hs : Applying env s₀ req s) (h : TaskPool.work (exec env) s i x = some t) :
    ∀ b ∈ t.pending, ∀ n ∈ b.loads, ∃ e : ModelRecord, t.store.modelMap[n]? = some e ∧ e.state = .loading := by
  obtain ⟨before, a, after, -, hp, hst, hq⟩ := work_pending _ h
  have ha : a ∈ s.pending := by simp [hp]
  intro b hb n hn
  rw [hst]
  rcases List.mem_append.mp (hq.mem_iff.mp hb) with hb | hb
  · have hbs : b ∈ s.pending := by
      rw [hp, List.perm_middle.mem_iff]
      exact List.mem_cons_of_mem _ hb
    -- the entry of another load job is left alone: no two jobs add one model
    have hna : n ∉ a.addsModel := fun hna => once_apart (hp ▸ hs.once) hb hna (loads_subset_addsModel hn)
    have hwanted := hs.following.1.adds_wanted b hbs n (loads_subset_addsModel hn)
    rw [entry_kept env x s.store hna fun hd => hs.following.1.drops_unwanted a ha n hd hwanted]
    exact hs.loading b hbs n hn
  · rcases loading_fresh env x s.store hb hn with he | ⟨hna, hsame⟩
    · exact he
    · rw [hsame]
      exact hs.loading a ha n hna

theorem marked_work (hs : Applying env s₀ req s) (h : TaskPool.work (exec env) s i x = some t) :
    ∀ task ∈ t.tasks, ∀ before b after, task = before ++ b :: after → ∀ n ∈ b.awaits,
      (∃ a ∈ t.pending, n ∈ a.marks) → ∃ c ∈ before, n ∈ c.marks := by
  have hmarks : ∀ n, (∃ a ∈ t.pending, n ∈ a.marks) → ∃ a ∈ s.pending, n ∈ a.marks := by
    intro n h
    obtain ⟨b, hb, hn⟩ := h
    obtain ⟨a, ha, -, hold, -, -⟩ := mem_pending_of_work _ h
    rcases hold b hb with hb | hb
    · exact ⟨b, hb, hn⟩
    · exact ⟨a, ha, marks_fresh env x s.store b hb hn⟩
  obtain ⟨a, rest, htask, -, hnew, hpos⟩ := work_position _ h
  intro task hmem before b after heq n hn hmark
  rcases hpos task hmem before b after heq with hmem | hfresh | ⟨mid, rfl, hsplit⟩
  · exact hs.marked task hmem before b after heq n hn (hmarks n hmark)
  -- a fresh action waits for nothing that is not marked: `a` was at the head of its task
  · obtain ⟨c, hc, -⟩ := hs.marked _ htask [] a rest rfl n (awaits_fresh b hfresh n hn) (hmarks n hmark)
    cases hc
  · obtain ⟨c, hc, hcn⟩ := hs.marked _ htask (a :: mid) b after hsplit n hn (hmarks n hmark)
    rcases List.mem_cons.mp hc with rfl | hc
    · rcases marks_done env x s.store hcn with ⟨c', hc', hcn'⟩ | ⟨c', hc', hload⟩
      · exact ⟨c', List.mem_append_left _ hc', hcn'⟩
      -- it has just been marked, and nothing else marks it
      · obtain ⟨a', ha', hmark⟩ := hmark
        obtain rfl := once_unique (once_work hs h) (hnew c' hc') ha' (loads_subset_addsModel hload)
          (marks_subset_addsModel hmark)
        exact absurd hmark (not_marks_of_loads hload)
    · exact ⟨c, List.mem_append_right _ hc, hcn⟩

/-- What a register job has seen in the map is final. -/
theorem Applying.seen (hs : Applying env s₀ req s) {job : RegisterJob} (hjob : .pollModels job ∈ s.pending)
    {r : ModelRecord} (hr : r ∈ job.modelRecords) {e : ModelRecord} (he : s.store.modelMap[r.name]? = some e)
    (hne : e.state ≠ .loading) : Final e.state s r.name := by
  refine ⟨⟨e, he, rfl⟩, ?_⟩
  intro a ha hadd
  rcases addsModel_cases hadd with hload | hmark
  · obtain ⟨e', he', hloading⟩ := hs.loading a ha r.name hload
    obtain rfl := Option.some.inj (he.symm.trans he')
    exact hne hloading
  · obtain ⟨task, htask, hin⟩ := Pool.mem_pending.mp hjob
    obtain rfl := hs.waiting.alone task htask job hin
    obtain ⟨c, hc, -⟩ := hs.marked _ htask [] (.pollModels job) [] rfl r.name (List.mem_map_of_mem hr) ⟨a, ha, hmark⟩
    cases hc

theorem inserting_work (hs : Applying env s₀ req s) (hreq : OneToOne req)
    (h : TaskPool.work (exec env) s i x = some t) {service : String} {weight : Int}
    (hin : .insertService service weight ∈ t.pending) : ∀ p ∈ entries req, p.1 = service → Final .loaded t p.2.name := by
  obtain ⟨a, ha, -, hold, -, -⟩ := mem_pending_of_work _ h
  intro p hp hservice
  refine Final.work ?_ hs.following (mem_modelNames hp) h
  rcases hold _ hin with hin | hin
  · exact hs.inserting service weight hin p hp hservice
  · obtain ⟨job, rfl, rfl, hpoll⟩ := insertService_fresh env x s.store hin
    have hjob := hs.jobs _ ha job List.mem_cons_self
    obtain ⟨r, hr, hname⟩ := hjob.polls hreq hp hservice
    obtain ⟨e, he, hstate⟩ := poll_allLoaded hpoll r hr
    rw [← hname, ← hstate]
    exact hs.seen ha hr he (by simp [hstate])

theorem registered_work (hs : Applying env s₀ req s) (h : TaskPool.work (exec env) s i x = some t) {n : String}
    (hn : n ∈ t.store.serviceMap) (hnew : n ∉ s₀.store.serviceMap) :
    ∀ p ∈ entries req, p.1 = n → Final .loaded t p.2.name := by
  obtain ⟨a, ha, hst, -⟩ := mem_pending_of_work _ h
  intro p hp hservice
  refine Final.work ?_ hs.following (mem_modelNames hp) h
  rw [hst] at hn
  rcases service_inserted env x s.store hn with hn | ⟨weight, rfl⟩
  · exact hs.registered n hn hnew p hp hservice
  · exact hs.inserting n weight ha p hp hservice

theorem outcome_work (hs : Applying env s₀ req s)
    (h : TaskPool.work (exec env) s i x = some t) : ∀ n ∈ serviceNames req, n ≠ "" →
      (∃ a ∈ t.pending, n ∈ a.addsService) ∨ n ∈ t.store.serviceMap ∨
        ∃ p ∈ entries req, p.1 = n ∧ Final .failed t p.2.name := by
  obtain ⟨a, ha, hst, -, hkeep, hnew⟩ := mem_pending_of_work _ h
  intro n hn hne
  rcases hs.outcome n hn hne with ⟨b, hb, hnb⟩ | hmem | ⟨p, hp, hservice, hfail⟩
  · rcases hkeep b hb with rfl | hb
    · rw [hst]
      rcases addsService_done env x s.store hnb with ⟨c, hc, hnc⟩ | hmem | ⟨job, rfl, rfl, hpoll⟩
      · exact .inl ⟨c, hnew c hc, hnc⟩
      · exact .inr (.inl hmem)
      · obtain ⟨r, hr, e, he, hstate⟩ := poll_failed hpoll
        obtain ⟨p, hp, hservice, hname⟩ := (hs.jobs _ ha job List.mem_cons_self).listed hr
        refine .inr (.inr ⟨p, hp, hservice, Final.work ?_ hs.following (mem_modelNames hp) h⟩)
        rw [hname, ← hstate]
        exact hs.seen ha hr he (by simp [hstate])
    · exact .inl ⟨b, hb, hnb⟩
  · exact .inr (.inl (hs.following.2.keeps (declares_services env) h hn hmem))
  · exact .inr (.inr ⟨p, hp, hservice, hfail.work hs.following (mem_modelNames hp) h⟩)

theorem logged_work (hs : Applying env s₀ req s) (h : TaskPool.work (exec env) s i x = some t) :
    ∀ n, n ∉ compNames env s₀.store req →
      t.store.loads.filter (·.name = n) = s₀.store.loads.filter (·.name = n) := by
  obtain ⟨a, ha, hst, -⟩ := mem_pending_of_work _ h
  intro n hn
  rw [hst, ← hs.logged n hn]
  rcases loads_exec env x s.store (a := a) with heq | ⟨r, rfl, heq⟩
  · rw [heq]
  · have hne : r.name ≠ n := by
      intro heq
      subst heq
      exact hn (hs.comp _ ha r.name List.mem_cons_self)
    rw [heq, List.filter_append]
    simp [hne]

theorem Applying.work (hs : Applying env s₀ req s) (hreq : OneToOne req)
    (h : TaskPool.work (exec env) s i x = some t) : Applying env s₀ req t := by
  obtain ⟨a, ha, -, hold, -, -⟩ := mem_pending_of_work _ h
  refine ⟨hs.waiting.work h, following_work hs.following h, ?_, once_work hs h, ?_, loading_work hs h, marked_work hs h,
    ?_, fun _ _ => inserting_work hs hreq h, fun _ => registered_work hs h, outcome_work hs h, logged_work hs h⟩
  · exact hs.complete.work (declares_models env) (fun x m _ _ hn => addsModel_done env x m hn) hs.following.1 h
  · intro b hb n hn
    rcases hold b hb with hb | hb
    · exact hs.comp b hb n hn
    · exact hs.comp a ha n ((declares_models env).adds_fresh x s.store a b hb n hn)
  · intro b hb job hjob
    rcases hold b hb with hb | hb
    · exact hs.jobs b hb job hjob
    · exact hs.jobs a ha job (jobs_fresh env x s.store b hb job hjob)

end Step

/-! ## From a quiet state -/

section Start

variable {s t : State}

/-- A requested model that is missing is loaded. -/
theorem mem_compNames_of_missing (env : Env) (hreq : OneToOne req) {p : String × ModelJson} (hp : p ∈ entries req)
    (hmiss : p.2.name ∉ s.store.modelMap) : p.2.name ∈ compNames env s.store req := by
  obtain ⟨r, hr⟩ := exists_firstRecord (needsLoad env s.store.modelMap ·.2) hp (needsLoad_of_not_mem hmiss)
  refine List.mem_map.mpr ⟨r, mem_compModels.mpr ⟨_, hr⟩, ?_⟩
  obtain ⟨q, hq, -, hf, rfl⟩ := of_firstRecord hr
  exact hreq.distinct q hq p hp hf

theorem compNames_nodup (hreq : OneToOne req) (m : Maps) : (compNames env m req).Nodup := by
  rw [compNames, recordsOf, List.map_map, List.Nodup, List.pairwise_map]
  refine List.Pairwise.imp_of_mem ?_ TreeMap.distinct_keys_toList
  intro h h₂ hr hr' hne hname
  obtain ⟨f, r⟩ := h
  obtain ⟨f', r'⟩ := h₂
  have hcomp : ∀ {f r}, (f, r) ∈ (parse env m.modelMap req).compModels.toList →
      ∃ e ∈ entries req, e.2.fullName = f ∧ e.2.name = r.name := by
    intro f r hr
    have hget := (reads_parse env m.modelMap req).comp f ▸ TreeMap.mem_toList_iff_getElem?_eq_some.mp hr
    obtain ⟨e, he, -, hf, rfl⟩ := of_firstRecord hget
    exact ⟨e, he, hf, rfl⟩
  obtain ⟨e, he, rfl, hn⟩ := hcomp hr
  obtain ⟨e', he', rfl, hn'⟩ := hcomp hr'
  exact hne (Std.compare_eq_iff_eq.mpr (hreq.single e he e' he' (by rw [hn, hn']; exact hname)).2)

/-- A model that is loaded with the requested timestamp is not loaded. -/
theorem not_mem_compNames (hreq : OneToOne req) {m : Maps} {p : String × ModelJson} (hp : p ∈ entries req)
    {e : ModelRecord} (he : m.modelMap[p.2.name]? = some e) (hloaded : e.state = .loaded)
    (htime : e.timestamp = p.2.timestamp) : p.2.name ∉ compNames env m req := by
  intro hmem
  obtain ⟨r, hr, hname⟩ := List.mem_map.mp hmem
  obtain ⟨f, hf⟩ := mem_compModels.mp hr
  obtain ⟨q, hq, hload, -, rfl⟩ := of_firstRecord hf
  have hqp : q.2.name = p.2.name := hname
  have hqt := (hreq.single q hq p hp hqp).1
  simp only [needsLoad, hqp, he, hloaded, hqt, htime] at hload
  split at hload <;> simp at hload

theorem exists_registerJob (env : Env) (m : Maps) {n : String} (hn : n ∈ serviceNames req) :
    ∃ job ∈ registerJobs env (parse env m.modelMap req), job.serviceName = n := by
  have hmem := ((reads_parse env m.modelMap req).services n).mpr hn
  obtain ⟨records, hget⟩ := Option.isSome_iff_exists.mp (TreeMap.mem_iff_isSome_getElem?.mp hmem)
  exact ⟨_, List.mem_map_of_mem (TreeMap.mem_toList_iff_getElem?_eq_some.mpr hget), rfl⟩

theorem Quiet.inFavour (hs : Quiet s) : InFavour s req := fun a ha => absurd ha (hs.idle.not_mem a)

theorem Quiet.leavesAwaited (hs : Quiet s) (hreq : OneToOne req) : LeavesAwaited env s req :=
  ⟨fun a ha => absurd ha (hs.idle.not_mem a), fun a ha => absurd ha (hs.idle.not_mem a),
    fun p hp q hq _ hf _ _ => hreq.distinct p hp q hq hf⟩

theorem applying_request (hs : Quiet s) (hreq : OneToOne req) (h : step env s (.request req) = some t) :
    Applying env s req t := by
  obtain ⟨hst, hp⟩ := pending_request h
  rw [hs.idle.pending, List.nil_append] at hp
  have hadds : t.pending.flatMap Action.addsModel = compNames env s.store req := by
    simp [hp, loadAndRegister, Action.addsModel, compNames]
  have hmem : ∀ a ∈ t.pending, a ∈ loadAndRegister env s.store req := fun a ha => hp ▸ ha
  have hloads : ∀ a ∈ t.pending, a.loads = [] := by simp [hp, loadAndRegister, Action.loads]
  refine ⟨hs.waiting.request (hs.leavesAwaited hreq) h, following_request hs.namedState hs.inFavour h,
    ?_, ?_, ?_, ?_, ?_, ?_, ?_, ?_, ?_, ?_⟩
  · intro n hn
    obtain ⟨p, hpmem, rfl⟩ := List.mem_map.mp hn
    by_cases hin : p.2.name ∈ s.store.modelMap
    · exact .inl (hst ▸ hin)
    · have hcomp := mem_compNames_of_missing env hreq hpmem hin
      rw [← hadds] at hcomp
      exact .inr (List.mem_flatMap.mp hcomp)
  · rw [hadds]
    exact compNames_nodup hreq s.store
  · intro a ha n hn
    rw [← hadds]
    exact List.mem_flatMap.mpr ⟨a, ha, hn⟩
  · intro a ha n hn
    simp [hloads a ha] at hn
  · intro task htask before b after heq n hn hmark
    have htask : task = loadAndRegister env s.store req := by
      cases h
      rcases List.mem_append.mp htask with htask | htask
      · simp [hs.idle task htask] at heq
      · exact List.mem_singleton.mp htask
    subst htask
    obtain ⟨a, ha, hna⟩ := hmark
    refine ⟨_, (handler_split heq hn).2, ?_⟩
    rcases mem_loadAndRegister.mp (hmem a ha) with rfl | rfl | rfl
    · cases hna
    · exact hna
    · cases hna
  · intro a ha job hjob
    rcases mem_loadAndRegister.mp (hmem a ha) with rfl | rfl | rfl
    · cases hjob
    · cases hjob
    · exact (mem_registerJobs hjob).2
  · intro service weight hin
    simp [hp, loadAndRegister] at hin
  · intro n hn hnew
    exact absurd (hst ▸ hn) hnew
  · intro n hn hne
    obtain ⟨job, hjob, rfl⟩ := exists_registerJob env s.store hn
    refine .inl ⟨.registerServices (registerJobs env (parse env s.store.modelMap req)), by simp [hp, loadAndRegister], ?_⟩
    exact List.mem_filter.mpr ⟨List.mem_map_of_mem hjob, by simpa using hne⟩
  · intro n _
    rw [hst]

theorem applying_run (hs : Quiet s) (hreq : OneToOne req) {ws : List Event} (hws : ∀ e ∈ ws, e.isWork)
    (hr : run (step env) s (.request req :: ws) = some t) : Applying env s req t := by
  obtain ⟨v, hv, hr⟩ := (run_cons_some (step env)).mp hr
  exact work_run (Applying env s req) (fun _ _ _ _ hu h => hu.work hreq h) hws (applying_request hs hreq hv) hr

end Start

/-- One request from a quiet state, whatever the order of its jobs and the results of the
    loads. -/
theorem request_applied_exactly (env : Env) {s t : State} (hs : Quiet s) {req : Request} (hreq : OneToOne req)
    {ws : List Event} (hws : ∀ e ∈ ws, e.isWork) (hr : run (step env) s (.request req :: ws) = some t) :
    (t.Idle → (∀ n, n ∈ t.store.modelMap ↔ n ∈ modelNames req) ∧
      ∀ n, n ∈ t.store.serviceMap ↔ n ∈ s.store.serviceMap ∧ n ∈ serviceNames req ∨
        n ∈ serviceNames req ∧ n ≠ "" ∧ AllLoaded t.store req n) ∧
    (∀ n ∈ t.store.serviceMap, n ∉ s.store.serviceMap → AllLoaded t.store req n) ∧
    (∀ p ∈ entries req, ∀ e : ModelRecord, s.store.modelMap[p.2.name]? = some e → e.state = .loaded →
      e.timestamp = p.2.timestamp →
        t.store.loads.filter (·.name = p.2.name) = s.store.loads.filter (·.name = p.2.name)) ∧
    ∃ ws' u, (∀ e ∈ ws', e.isWork) ∧ run (step env) t ws' = some u ∧ u.Idle := by
  have ht := applying_run hs hreq hws hr
  have hnew : ∀ n ∈ t.store.serviceMap, n ∉ s.store.serviceMap → AllLoaded t.store req n :=
    fun n hn hnot p hp hservice => (ht.registered n hn hnot p hp hservice).1
  refine ⟨fun hidle => ⟨fun n => ⟨fun hn => ht.following.1.idle hidle hn, fun hn => ht.complete.idle hidle hn⟩, ?_⟩,
    hnew, fun p hp e he hstate htime => ht.logged _ (not_mem_compNames hreq hp he hstate htime), ht.waiting.can_finish⟩
  intro n
  constructor
  · intro hn
    have hreqd := ht.following.2.idle hidle hn
    by_cases hold : n ∈ s.store.serviceMap
    · exact .inl ⟨hold, hreqd⟩
    · refine .inr ⟨hreqd, ?_, hnew n hn hold⟩
      intro heq
      subst heq
      exact (named_run hs hr).1 hn
  · intro h
    rcases h with ⟨hold, hreqd⟩ | ⟨hreqd, hne, hall⟩
    · obtain ⟨v, hv, hr⟩ := (run_cons_some (step env)).mp hr
      have hfol := following_request hs.namedState hs.inFavour hv
      exact (keeps_run hws hfol hr).2.1 n hreqd ((pending_request hv).1 ▸ hold)
    · rcases ht.outcome n hreqd hne with ⟨a, ha, -⟩ | hmem | ⟨p, hp, hservice, ⟨e, he, hfailed⟩, -⟩
      · exact absurd ha (hidle.not_mem a)
      · exact hmem
      · obtain ⟨e', he', hloaded⟩ := hall p hp hservice
        obtain rfl := Option.some.inj (he.symm.trans he')
        exact absurd (hfailed.symm.trans hloaded) (by decide)

def cvr : ModelJson where
  name := "cvr"
  timestamp := "20200826"
  fullName := "cvr-20200826"
  configName := "cvr"

def twoModels : Request :=
  [{ serviceName := "feed", modelRecords := [ctr] }, { serviceName := "ads", modelRecords := [ctr, cvr] }]

/-- `ctr` loads and `cvr` (task 3) does not. -/
def oneFails : List Event :=
  [go 0, go 0, go 0, go 0, go 0, go 0, go 0, go 0, go 0, go 1, go 1, go 2, go 2, .work 3 { ok := false }, go 3, go 4,
    go 5, go 5, go 5, go 5, go 5]

theorem request_applied_exactly_one_fails :
    ∃ t, run (step demoEnv) init (.request twoModels :: oneFails) = some t ∧ t.Idle ∧
      (∀ n, n ∈ t.store.modelMap ↔ n ∈ modelNames twoModels) ∧
      ∀ n, n ∈ t.store.serviceMap ↔ n ∈ init.store.serviceMap ∧ n ∈ serviceNames twoModels ∨
        n ∈ serviceNames twoModels ∧ n ≠ "" ∧ AllLoaded t.store twoModels n := by
  have hrun : (run (step demoEnv) init (.request twoModels :: oneFails)).any (fun t => t.Idle) := by decide
  obtain ⟨t, ht, hidle⟩ := (Option.any_eq_true _ _).mp hrun
  have hidle : t.Idle := by simpa using hidle
  exact ⟨t, ht, hidle, (request_applied_exactly demoEnv quiet_init ⟨by decide, by decide⟩ (by decide) ht).1 hidle⟩

/-- `cvr` under the full name of `ctr`. -/
def sharedFullName : Request := [{ serviceName := "ads", modelRecords := [ctr, { cvr with fullName := ctr.fullName }] }]

def allLoad : List Event :=
  [go 0, go 0, go 0, go 0, go 0, go 0, go 1, go 1, go 2, go 2, go 3, go 3, go 3, go 3, go 3]

theorem shared_full_name_is_dropped :
    ¬ ∀ (s t : State) (req : Request) (ws : List Event), Quiet s → SingleVersion req → (∀ e ∈ ws, e.isWork) →
      run (step demoEnv) s (.request req :: ws) = some t → t.Idle → ∀ n, n ∈ t.store.modelMap ↔ n ∈ modelNames req := by
  intro h
  have hrun : (run (step demoEnv) init (.request sharedFullName :: allLoad)).any
      (fun t => t.Idle && "cvr" ∉ t.store.modelMap) := by decide
  obtain ⟨t, ht, hbad⟩ := (Option.any_eq_true _ _).mp hrun
  simp only [Bool.and_eq_true, decide_eq_true_eq] at hbad
  refine hbad.2 ((h init t sharedFullName allLoad quiet_init (by decide) (by decide) ht hbad.1 "cvr").mpr ?_)
  decide

end PredictorService.HttpService
