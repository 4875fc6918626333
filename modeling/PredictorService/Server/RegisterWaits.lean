/-
  PredictorService.Server.RegisterWaits — what register jobs wait for.

  A register job polls `model_map_` until every model of its service is loaded or one of
  them has failed. It waits for nothing when a model it waits for has no entry that will
  ever be decided. `Waiting` is the invariant that excludes this: every entry is decided or
  has a load job, and what is waited for has an entry, or will be marked by the handler
  before it adds the register job. Requests that leave alone what pending register jobs
  wait for keep it (`never_waits_for_nothing`). One that does not can unload a model after
  its load job has finished (`unloaded_model_is_awaited`).
-/

import PredictorService.Server.Reconcile

namespace PredictorService.HttpService

open Std (TreeMap)
open PredictorService.Lib
open PredictorService.Lib.TaskPool

/-- The models a load job loads, also one that the handler is about to add. -/
def Action.loads : Action → List String
  | .addLoad r => [r.name]
  | .loadModel r => [r.name]
  | .storeRecord r => [r.name]
  | _ => []

/-- The models that `load_models` has yet to mark and to add a job for. -/
def Action.marks : Action → List String
  | .loadModels rs => rs.map (·.name)
  | _ => []

def Action.awaits : Action → List String
  | .registerServices jobs => jobs.flatMap fun job => job.modelRecords.map (·.name)
  | .pollModels job => job.modelRecords.map (·.name)
  | _ => []

def Decided (m : Maps) (n : String) : Prop :=
  ∃ e : ModelRecord, m.modelMap[n]? = some e ∧ (e.state = .loaded ∨ e.state = .failed)

def LoadPending (s : State) (n : String) : Prop := ∃ a ∈ s.pending, n ∈ a.loads

/-! ## What one action does -/

section Exec

variable {env : Env} {x : Answer} {m : Maps} {a : Action}

theorem awaits_fresh : ∀ b ∈ (exec env x m a).fresh, ∀ n ∈ b.awaits, n ∈ a.awaits := by
  fun_cases exec env x m a <;> simp [Effect.fresh, Action.awaits] <;> grind

variable (env x m) in
theorem marks_next {n : String} (h : n ∈ a.marks) :
    n ∈ (exec env x m a).store.modelMap ∨ ∃ c ∈ (exec env x m a).next, n ∈ c.marks := by
  cases a with
  | loadModels rs =>
    cases rs with
    | nil => cases h
    | cons r rs =>
      rcases List.mem_cons.mp h with rfl | h
      · exact .inl (by simp [exec])
      · exact .inr ⟨.loadModels rs, by simp [exec], h⟩
  | _ => cases h

variable (env x m) in
theorem loads_fresh {n : String} (h : n ∈ a.loads) :
    (∃ c ∈ (exec env x m a).fresh, n ∈ c.loads) ∨ ∃ r, a = .storeRecord r ∧ r.name = n := by
  cases a with
  | addLoad r => exact .inl ⟨.loadModel r, by simp [exec, Effect.fresh], h⟩
  | loadModel r =>
    simp only [exec]
    split
    · exact .inl ⟨_, List.mem_cons_self, h⟩
    · exact .inl ⟨_, List.mem_cons_self, h⟩
  | storeRecord r => exact .inr ⟨r, rfl, (List.mem_singleton.mp h).symm⟩
  | _ => cases h

theorem storeRecord_fresh {r : ModelRecord} (h : .storeRecord r ∈ (exec env x m a).fresh) :
    r.state = .loaded ∨ r.state = .failed := by
  revert h
  fun_cases exec env x m a <;> simp [Effect.fresh] <;> grind

/-- An entry is from before, or the action put it there. -/
theorem entry_exec {n : String} {e : ModelRecord} (h : (exec env x m a).store.modelMap[n]? = some e) :
    m.modelMap[n]? = some e ∨ a = .storeRecord e ∨ ∃ c ∈ (exec env x m a).fresh, n ∈ c.loads := by
  revert h
  fun_cases exec env x m a <;>
    simp [Effect.fresh, Action.loads, getElem?_foldl_erase, TreeMap.getElem?_insert] <;> grind

theorem pollModels_next {job : RegisterJob} (h : .pollModels job ∈ (exec env x m a).next) :
    a = .pollModels job ∧ (exec env x m a).next = [.pollModels job] := by
  revert h
  fun_cases exec env x m a <;> simp
  grind

theorem pollModels_spawned {job : RegisterJob} :
    ∀ task ∈ (exec env x m a).spawned, .pollModels job ∈ task → task = [.pollModels job] := by
  fun_cases exec env x m a <;> simp
  intro heq
  subst heq
  rfl

end Exec

/-! ## The invariant -/

/-- Every entry is decided or will be. -/
structure Settling (s : State) : Prop where
  decided : ∀ (n : String) (e : ModelRecord), s.store.modelMap[n]? = some e →
    e.state = .loaded ∨ e.state = .failed ∨ LoadPending s n
  stored : ∀ r, .storeRecord r ∈ s.pending → r.state = .loaded ∨ r.state = .failed

structure Waiting (s : State) : Prop extends Settling s where
  /-- What is waited for has an entry, or is marked earlier in the same task. -/
  present : ∀ task ∈ s.tasks, ∀ before b after, task = before ++ b :: after → ∀ n ∈ b.awaits,
    n ∈ s.store.modelMap ∨ ∃ c ∈ before, n ∈ c.marks
  kept : ∀ a ∈ s.pending, ∀ n ∈ a.dropsModel, ∀ b ∈ s.pending, n ∉ b.awaits
  alone : ∀ task ∈ s.tasks, ∀ job, .pollModels job ∈ task → task = [.pollModels job]

theorem Quiet.settling {s : State} (hs : Quiet s) : Settling s where
  decided n e h := (hs.decided n e h).imp_right .inl
  stored _ hr := absurd hr (hs.idle.not_mem _)

theorem Quiet.waiting {s : State} (hs : Quiet s) : Waiting s where
  toSettling := hs.settling
  present task htask before b after heq := by simp [hs.idle task htask] at heq
  kept a ha := absurd ha (hs.idle.not_mem a)
  alone task htask job hjob := by simp [hs.idle task htask] at hjob

variable {env : Env}

/-- What a pending action waits for is not dropped. -/
theorem Waiting.keeps {s : State} (hs : Waiting s) {a b : Action} (ha : a ∈ s.pending) (hb : b ∈ s.pending) {n : String}
    (hn : n ∈ b.awaits) {x : Answer} (hmem : n ∈ s.store.modelMap) : n ∈ (exec env x s.store a).store.modelMap := by
  rcases (declares_models env).keeps x s.store a n hmem with h | h
  · exact h
  · exact absurd hn (hs.kept a ha n h b hb)

theorem Settling.work {s t : State} {i : Nat} {x : Answer} (hs : Settling s)
    (h : TaskPool.work (exec env) s i x = some t) : Settling t := by
  obtain ⟨a, ha, hst, hold, hkeep, hnew⟩ := mem_pending_of_work _ h
  refine ⟨?_, ?_⟩
  · intro n e he
    rw [hst] at he
    rcases entry_exec he with hbefore | rfl | ⟨c, hc, hn⟩
    · rcases hs.decided n e hbefore with hd | hd | ⟨b, hb, hn⟩
      · exact .inl hd
      · exact .inr (.inl hd)
      · rcases hkeep b hb with rfl | hb
        · rcases loads_fresh env x s.store hn with ⟨c, hc, hn⟩ | ⟨r, rfl, rfl⟩
          · exact .inr (.inr ⟨c, hnew c hc, hn⟩)
          -- the load job stores its own record, so the entry is not an older one
          · simp only [exec, TreeMap.getElem?_insert_self, Option.some.injEq] at he
            subst he
            exact (hs.stored r ha).imp_right .inl
        · exact .inr (.inr ⟨b, hb, hn⟩)
    · exact (hs.stored e ha).imp_right .inl
    · exact .inr (.inr ⟨c, hnew c hc, hn⟩)
  · intro r hr
    rcases hold _ hr with hr | hr
    · exact hs.stored r hr
    · exact storeRecord_fresh hr

theorem Settling.request {s t : State} {req : Request} (hs : Settling s) (h : step env s (.request req) = some t) :
    Settling t := by
  obtain ⟨hst, hp⟩ := pending_request h
  refine ⟨?_, ?_⟩
  · intro n e he
    rw [hst] at he
    rcases hs.decided n e he with hd | hd | ⟨b, hb, hn⟩
    · exact .inl hd
    · exact .inr (.inl hd)
    · exact .inr (.inr ⟨b, by rw [hp]; exact List.mem_append_left _ hb, hn⟩)
  · intro r hr
    rw [hp, List.mem_append] at hr
    rcases hr with hr | hr
    · exact hs.stored r hr
    · simp [loadAndRegister] at hr

/-- Any requests, with any interleaving of their jobs, end in a quiet state if they end. -/
theorem quiet_of_run {s t : State} (hs : Quiet s) {es : List Event} (hr : run (step env) s es = some t)
    (hidle : t.Idle) : Quiet t := by
  have hstep : ∀ (s t : State) (e : Event), Settling s → step env s e = some t → Settling t := by
    intro s t e hs ht
    cases e with
    | request req => exact hs.request ht
    | work i x => exact hs.work ht
  have ht := run_invariant (step env) Settling hstep hs.settling hr
  refine ⟨hidle, (named_run hs hr).1, fun n e he => ?_⟩
  rcases ht.decided n e he with hd | hd | ⟨a, ha, -⟩
  · exact .inl hd
  · exact .inr hd
  · exact absurd ha (hidle.not_mem a)

theorem present_work {s t : State} {i : Nat} {x : Answer} (hs : Waiting s) (h : work (exec env) s i x = some t) :
    ∀ task ∈ t.tasks, ∀ before b after, task = before ++ b :: after → ∀ n ∈ b.awaits,
      n ∈ t.store.modelMap ∨ ∃ c ∈ before, n ∈ c.marks := by
  obtain ⟨a, rest, htask, hst, -, hpos⟩ := work_position _ h
  have ha : a ∈ s.pending := Pool.mem_pending.mpr ⟨_, htask, List.mem_cons_self⟩
  rw [hst]
  have hold : ∀ task ∈ s.tasks, ∀ before b after, task = before ++ b :: after → ∀ n ∈ b.awaits,
      n ∈ (exec env x s.store a).store.modelMap ∨ ∃ c ∈ before, n ∈ c.marks := by
    intro task hmem before b after heq n hn
    have hb : b ∈ s.pending := Pool.mem_pending.mpr ⟨task, hmem, by simp [heq]⟩
    rcases hs.present task hmem before b after heq n hn with hin | hmark
    · exact .inl (hs.keeps ha hb hn hin)
    · exact .inr hmark
  intro task hmem before b after heq n hn
  rcases hpos task hmem before b after heq with hmem | hfresh | ⟨mid, rfl, hsplit⟩
  · exact hold task hmem before b after heq n hn
  -- a fresh action waits for what `a` waited for at the head of its task
  · rcases hold _ htask [] a rest rfl n (awaits_fresh b hfresh n hn) with hin | ⟨c, hc, -⟩
    · exact .inl hin
    · cases hc
  · rcases hold _ htask (a :: mid) b after hsplit n hn with hin | ⟨c, hc, hmark⟩
    · exact .inl hin
    · rcases List.mem_cons.mp hc with rfl | hc
      · rcases marks_next env x s.store hmark with hin | ⟨c', hc', hmark⟩
        · exact .inl hin
        · exact .inr ⟨c', List.mem_append_left _ hc', hmark⟩
      · exact .inr ⟨c, List.mem_append_right _ hc, hmark⟩

theorem alone_work {s t : State} {i : Nat} {x : Answer} (hs : Waiting s) (h : work (exec env) s i x = some t) :
    ∀ task ∈ t.tasks, ∀ job, .pollModels job ∈ task → task = [.pollModels job] := by
  obtain ⟨tasks₁, tasks₂, a, rest, -, hp, rfl⟩ := work_some _ h
  intro task hmem job hjob
  simp only [List.mem_append, List.mem_cons] at hmem
  rcases hmem with (hmem | rfl | hmem) | hmem
  · exact hs.alone task (by simp [hp, hmem]) job hjob
  · have hold : .pollModels job ∈ a :: rest → a :: rest = [.pollModels job] := hs.alone (a :: rest) (by simp [hp]) job
    rcases List.mem_append.mp hjob with hjob | hjob
    · obtain ⟨rfl, hnext⟩ := pollModels_next hjob
      obtain ⟨-, rfl⟩ := List.cons.inj (hold List.mem_cons_self)
      rw [hnext, List.append_nil]
    · obtain ⟨-, rfl⟩ := List.cons.inj (hold (List.mem_cons_of_mem _ hjob))
      cases hjob
  · exact hs.alone task (by simp [hp, hmem]) job hjob
  · exact pollModels_spawned task hmem hjob

theorem Waiting.work {s t : State} {i : Nat} {x : Answer} (hs : Waiting s)
    (h : TaskPool.work (exec env) s i x = some t) : Waiting t := by
  obtain ⟨a, ha, hst, hold, -, -⟩ := mem_pending_of_work _ h
  refine ⟨hs.toSettling.work h, present_work hs h, ?_, alone_work hs h⟩
  · intro b hb n hn c hc hawait
    have hdrop : ∃ b' ∈ s.pending, n ∈ b'.dropsModel := by
      rcases hold b hb with hb | hb
      · exact ⟨b, hb, hn⟩
      · exact ⟨a, ha, (declares_models env).drops_fresh x s.store a b hb n hn⟩
    have hwait : ∃ c' ∈ s.pending, n ∈ c'.awaits := by
      rcases hold c hc with hc | hc
      · exact ⟨c, hc, hawait⟩
      · exact ⟨a, ha, awaits_fresh c hc n hawait⟩
    obtain ⟨b', hb', hn⟩ := hdrop
    obtain ⟨c', hc', hawait⟩ := hwait
    exact hs.kept b' hb' n hn c' hc' hawait

/-! ## Requests -/

/-- The request names no model that is about to be unloaded, leaves no model out that a
    register job waits for, and lists no missing model under a full name that another model,
    listed for another service, is loaded under. -/
def LeavesAwaited (env : Env) (s : State) (req : Request) : Prop :=
  (∀ a ∈ s.pending, ∀ n ∈ a.dropsModel, n ∉ modelNames req) ∧
  (∀ a ∈ s.pending, ∀ n ∈ a.awaits, n ∈ s.store.modelMap → n ∈ modelNames req) ∧
  ∀ p ∈ entries req, ∀ q ∈ entries req, p.1 ≠ q.1 → p.2.fullName = q.2.fullName →
    needsLoad env s.store.modelMap p.2 → q.2.name ∉ s.store.modelMap → p.2.name = q.2.name

instance (s : State) (req : Request) : Decidable (LeavesAwaited env s req) := by unfold LeavesAwaited; infer_instance

theorem needsLoad_of_not_mem {modelMap : TreeMap String ModelRecord} {m : ModelJson} (h : m.name ∉ modelMap) :
    needsLoad env modelMap m := by
  simp [needsLoad, TreeMap.getElem?_eq_none h]

theorem find?_eq_of_find? {α : Type*} {l : List α} {p q : α → Bool} {a b : α} (ha : l.find? p = some a)
    (hb : l.find? q = some b) (hqa : q a) (hpb : p b) : a = b := by
  induction l with
  | nil => cases ha
  | cons c l ih => grind

/-- Every model that a register job of the request will wait for and that is missing is
    loaded under its own name. -/
theorem comp_of_awaited {s : State} {req : Request} (hreq : LeavesAwaited env s req) {job : RegisterJob}
    (hjob : job ∈ registerJobs env (parse env s.store.modelMap req)) {r : ModelRecord} (hr : r ∈ job.modelRecords)
    (hmiss : r.name ∉ s.store.modelMap) :
    ∃ c ∈ recordsOf (parse env s.store.modelMap req).compModels, c.name = r.name := by
  obtain ⟨f, hf⟩ := ((mem_registerJobs hjob).2 r).mp hr
  obtain ⟨q, hq, rfl⟩ := Option.map_eq_some_iff.mp hf
  have hqp := List.find?_some hq
  simp only [Bool.and_eq_true, decide_eq_true_eq] at hqp
  have hload : needsLoad env s.store.modelMap q.2 := needsLoad_of_not_mem hmiss
  obtain ⟨c, hc⟩ := exists_firstRecord (needsLoad env s.store.modelMap ·.2) (List.mem_of_find?_eq_some hq) hload
  refine ⟨c, mem_compModels.mpr ⟨_, hc⟩, ?_⟩
  obtain ⟨p, hp, rfl⟩ := Option.map_eq_some_iff.mp hc
  have hpp := List.find?_some hp
  simp only [Bool.and_eq_true, decide_eq_true_eq] at hpp
  by_cases hsame : p.1 = q.1
  -- the two are the first of their kind, and each is of the other's kind
  · have hpq := find?_eq_of_find? hp hq (by simp [hsame, hqp.1, hpp.2, hqp.2]) (by simp [hload])
    rw [hpq]
  · exact hreq.2.2 p (List.mem_of_find?_eq_some hp) q (List.mem_of_find?_eq_some hq) hsame hpp.2 hpp.1 hmiss

theorem handler_awaits {m : Maps} {req : Request} {a : Action} (ha : a ∈ loadAndRegister env m req) {n : String}
    (hn : n ∈ a.awaits) :
    a = .registerServices (registerJobs env (parse env m.modelMap req)) ∧ n ∈ modelNames req := by
  rcases mem_loadAndRegister.mp ha with rfl | rfl | rfl
  · simp [Action.awaits] at hn
  · simp [Action.awaits] at hn
  · refine ⟨rfl, ?_⟩
    obtain ⟨job, hjob, hn⟩ := List.mem_flatMap.mp hn
    obtain ⟨r, hr, rfl⟩ := List.mem_map.mp hn
    obtain ⟨f, hf⟩ := ((mem_registerJobs hjob).2 r).mp hr
    obtain ⟨e, he, -, -, rfl⟩ := of_firstRecord hf
    exact List.mem_map_of_mem he

/-- Only the third action of the handler waits, and the second one marks. -/
theorem handler_split {m : Maps} {req : Request} {before after : List Action} {b : Action} {n : String}
    (heq : loadAndRegister env m req = before ++ b :: after) (hn : n ∈ b.awaits) :
    b = .registerServices (registerJobs env (parse env m.modelMap req)) ∧
      .loadModels (recordsOf (parse env m.modelMap req).compModels) ∈ before := by
  rcases before with _ | ⟨a₁, _ | ⟨a₂, _ | ⟨a₃, before⟩⟩⟩
  · obtain ⟨rfl, -⟩ := List.cons.inj heq
    cases hn
  · obtain ⟨rfl, -⟩ := List.cons.inj (List.cons.inj heq).2
    cases hn
  · obtain ⟨rfl, htail⟩ := List.cons.inj (List.cons.inj heq).2
    obtain ⟨rfl, -⟩ := List.cons.inj htail
    exact ⟨rfl, List.mem_cons_of_mem _ List.mem_cons_self⟩
  · have hlen := congrArg List.length heq
    simp [loadAndRegister] at hlen

theorem present_handler {s : State} {req : Request} (hreq : LeavesAwaited env s req) :
    ∀ before b after, loadAndRegister env s.store req = before ++ b :: after → ∀ n ∈ b.awaits,
      n ∈ s.store.modelMap ∨ ∃ c ∈ before, n ∈ c.marks := by
  intro before b after heq n hn
  by_cases hmem : n ∈ s.store.modelMap
  · exact .inl hmem
  obtain ⟨rfl, hbefore⟩ := handler_split heq hn
  obtain ⟨job, hjob, hn⟩ := List.mem_flatMap.mp hn
  obtain ⟨r, hr, rfl⟩ := List.mem_map.mp hn
  obtain ⟨c, hc, hname⟩ := comp_of_awaited hreq hjob hr hmem
  exact .inr ⟨_, hbefore, List.mem_map.mpr ⟨c, hc, hname⟩⟩

theorem Waiting.request {s t : State} {req : Request} (hs : Waiting s) (hreq : LeavesAwaited env s req)
    (h : step env s (.request req) = some t) : Waiting t := by
  obtain ⟨hst, hp⟩ := pending_request h
  have htasks : ∀ task ∈ t.tasks, task ∈ s.tasks ∨ task = loadAndRegister env s.store req := by
    cases h
    simp
  have hcase : ∀ a ∈ t.pending, a ∈ s.pending ∨ a ∈ loadAndRegister env s.store req := by
    intro a ha
    rwa [hp, List.mem_append] at ha
  refine ⟨hs.toSettling.request h, ?_, ?_, ?_⟩
  · intro task htask before b after heq n hn
    rw [hst]
    rcases htasks task htask with htask | rfl
    · exact hs.present task htask before b after heq n hn
    · exact present_handler hreq before b after heq n hn
  · intro a ha n hn b hb hawait
    rcases hcase a ha with ha | ha <;> rcases hcase b hb with hb | hb
    · exact hs.kept a ha n hn b hb hawait
    · exact hreq.1 a ha n hn (handler_awaits hb hawait).2
    · rcases mem_loadAndRegister.mp ha with rfl | rfl | rfl
      · obtain ⟨hin, hnot⟩ := mem_uselessModelNames.mp hn
        exact hnot (hreq.2.1 b hb n hawait hin)
      · simp [Action.dropsModel] at hn
      · simp [Action.dropsModel] at hn
    · exact (handler_drops ha).1 n hn (handler_awaits hb hawait).2
  · intro task htask job hjob
    rcases htasks task htask with htask | rfl
    · exact hs.alone task htask job hjob
    · simp [loadAndRegister] at hjob

/-! ## Progress -/

/-- Steps an action can still cause, a poll counting as the last one. -/
def Action.cost : Action → Nat
  | .unregisterServicesAndUnloadModels services _ => 3 + 4 * services.length
  | .loadModels rs => 1 + 5 * rs.length
  | .addLoad _ => 3
  | .registerServices jobs => 1 + 7 * jobs.length
  | .unregisterServices services => 1 + 4 * services.length
  | .loadModel _ => 2
  | .pollModels _ => 6
  | .insertService _ _ => 3
  | _ => 1

theorem cost_registerServiceName (service : String) (weight : Int) :
    ((registerServiceName service weight).map Action.cost).sum ≤ 3 := by
  unfold registerServiceName
  split <;> simp [Action.cost]

theorem cost_unregisterServiceName (service : String) : ((unregisterServiceName service).map Action.cost).sum ≤ 3 := by
  unfold unregisterServiceName
  split <;> simp [Action.cost]

theorem cost_exec {x : Answer} {m : Maps} {a : Action}
    (h : ∀ job, a = .pollModels job → poll m.modelMap job.modelRecords ≠ .wait) :
    ((exec env x m a).fresh.map Action.cost).sum < a.cost := by
  cases a with
  | loadModels rs =>
    cases rs <;> simp [exec, Effect.fresh, Action.cost]
    omega
  | registerServices jobs =>
    cases jobs <;> simp [exec, Effect.fresh, Action.cost]
    omega
  | unregisterServices services =>
    cases services with
    | nil => simp [exec, Effect.fresh, Action.cost]
    | cons service services =>
      have hle := cost_unregisterServiceName service
      simp [exec, Effect.fresh, Action.cost]
      omega
  | pollModels job =>
    have hle := cost_registerServiceName job.serviceName job.serverWeight
    cases hpoll : poll m.modelMap job.modelRecords with
    | wait => exact absurd hpoll (h job rfl)
    | failed => simp [exec, hpoll, Effect.fresh, Action.cost]
    | allLoaded =>
      simp [exec, hpoll, Effect.fresh, Action.cost]
      omega
  | loadModel r => cases hok : x.ok <;> simp [exec, hok, Effect.fresh, Action.cost]
  | insertService service weight =>
    by_cases hin : service ∈ m.serviceMap <;> simp [exec, hin, Effect.fresh, Action.cost]
  | setServiceWeight service weight =>
    simp only [exec]
    split <;> simp [Effect.fresh, Action.cost]
  | unregisterServicesAndUnloadModels services models =>
    simp [exec, Effect.fresh, Action.cost]
    omega
  | _ => simp [exec, Effect.fresh, Action.cost]

theorem poll_ne_wait {m : Maps} {rs : List ModelRecord} (h : ∀ r ∈ rs, Decided m r.name) : poll m.modelMap rs ≠ .wait := by
  induction rs with
  | nil => simp [poll]
  | cons r rs ih =>
    obtain ⟨e, he, hstate⟩ := h r List.mem_cons_self
    have ih := ih fun r hr => h r (List.mem_cons_of_mem _ hr)
    rcases hstate with hstate | hstate <;> simp [poll, he, hstate, ih]

theorem waiting_progress (p : State) (hp : Waiting p) (hbusy : ¬ p.Idle) :
    ∃ i x q, TaskPool.work (exec env) p i x = some q ∧ Waiting q ∧ q.weight Action.cost < p.weight Action.cost := by
  have hstep : ∀ tasks₁ tasks₂ a rest, p.tasks = tasks₁ ++ (a :: rest) :: tasks₂ →
      (∀ job, a = .pollModels job → poll p.store.modelMap job.modelRecords ≠ .wait) →
      ∃ i x q, TaskPool.work (exec env) p i x = some q ∧ Waiting q ∧ q.weight Action.cost < p.weight Action.cost := by
    intro tasks₁ tasks₂ a rest htasks hpoll
    have hwork := work_of_tasks (exec env) htasks {}
    exact ⟨_, _, _, hwork, hp.work hwork, weight_work Action.cost htasks (cost_exec hpoll)⟩
  by_cases hhead : ∃ tasks₁ tasks₂ a rest, p.tasks = tasks₁ ++ (a :: rest) :: tasks₂ ∧ ∀ job, a ≠ .pollModels job
  · obtain ⟨tasks₁, tasks₂, a, rest, htasks, hne⟩ := hhead
    exact hstep tasks₁ tasks₂ a rest htasks fun job h => absurd h (hne job)
  -- only polls are left, so every load job has finished
  have honly : ∀ task ∈ p.tasks, task ≠ [] → ∃ job, task = [.pollModels job] := by
    intro task htask hne
    obtain ⟨a, rest, rfl⟩ := List.exists_cons_of_ne_nil hne
    obtain ⟨tasks₁, tasks₂, htasks⟩ := List.append_of_mem htask
    by_contra hcon
    refine hhead ⟨tasks₁, tasks₂, a, rest, htasks, ?_⟩
    intro job heq
    subst heq
    exact hcon ⟨job, hp.alone _ htask job List.mem_cons_self⟩
  have hload : ∀ n, ¬ LoadPending p n := by
    intro n h
    obtain ⟨a, ha, hn⟩ := h
    obtain ⟨task, htask, hin⟩ := Pool.mem_pending.mp ha
    obtain ⟨job, rfl⟩ := honly task htask (List.ne_nil_of_mem hin)
    obtain rfl := List.mem_singleton.mp hin
    simp [Action.loads] at hn
  obtain ⟨task, htask, hne⟩ : ∃ task ∈ p.tasks, task ≠ [] := by simpa [Pool.Idle] using hbusy
  obtain ⟨job, rfl⟩ := honly task htask hne
  obtain ⟨tasks₁, tasks₂, htasks⟩ := List.append_of_mem htask
  refine hstep tasks₁ tasks₂ _ [] htasks ?_
  intro job' hjob
  cases hjob
  refine poll_ne_wait fun r hr => ?_
  rcases hp.present _ htask [] (.pollModels job) [] rfl r.name (List.mem_map_of_mem hr) with hin | ⟨c, hc, -⟩
  · obtain ⟨e, he⟩ := Option.isSome_iff_exists.mp (TreeMap.mem_iff_isSome_getElem?.mp hin)
    refine ⟨e, he, ?_⟩
    rcases hp.decided r.name e he with hd | hd | hd
    · exact .inl hd
    · exact .inr hd
    · exact absurd hd (hload r.name)
  · cases hc

/-- All jobs can finish. -/
theorem Waiting.can_finish {s : State} (hs : Waiting s) :
    ∃ (ws : List Event) (t : State), (∀ e ∈ ws, e.isWork) ∧ run (step env) s ws = some t ∧ t.Idle := by
  obtain ⟨ws, t, hr, hidle⟩ := reaches_idle (exec env) Action.cost Waiting waiting_progress hs
  refine ⟨ws.map fun w => .work w.1 w.2, t, ?_, ?_, hidle⟩
  · intro e he
    obtain ⟨w, -, rfl⟩ := List.mem_map.mp he
    rfl
  · rw [← hr, run, run, List.foldlM_map]
    rfl

/-! ## Every run -/

/-- Requests leave alone what is waited for; jobs run as they like. -/
def Careful (env : Env) (s : State) : Event → Prop
  | .request req => LeavesAwaited env s req
  | .work _ _ => True

instance (s : State) (e : Event) : Decidable (Careful env s e) := by cases e <;> unfold Careful <;> infer_instance

theorem waiting_run {s t : State} (hs : Waiting s) {es : List Event} (hm : Meets (step env) (Careful env) s es)
    (hr : run (step env) s es = some t) : Waiting t := by
  refine run_history (step env) (Careful env) (fun _ s => Waiting s) ?_ [] hs hm hr
  intro _ s t e hs hok ht
  cases e with
  | request req => exact hs.request hok ht
  | work i x => exact hs.work ht

/-- For every record a register job polls, its entry is decided or a load job for it is
    pending, and all jobs can finish. -/
theorem never_waits_for_nothing (env : Env) {s t : State} (hs : Quiet s) {es : List Event}
    (hm : Meets (step env) (Careful env) s es) (hr : run (step env) s es = some t) :
    (∀ job, .pollModels job ∈ t.pending → ∀ r ∈ job.modelRecords, Decided t.store r.name ∨ LoadPending t r.name) ∧
      ∃ ws u, (∀ e ∈ ws, e.isWork) ∧ run (step env) t ws = some u ∧ u.Idle := by
  have ht := waiting_run hs.waiting hm hr
  refine ⟨?_, ht.can_finish⟩
  intro job hjob r hr
  obtain ⟨task, htask, hin⟩ := Pool.mem_pending.mp hjob
  obtain rfl := ht.alone task htask job hin
  rcases ht.present _ htask [] (.pollModels job) [] rfl r.name (List.mem_map_of_mem hr) with hmem | ⟨c, hc, -⟩
  · obtain ⟨e, he⟩ := Option.isSome_iff_exists.mp (TreeMap.mem_iff_isSome_getElem?.mp hmem)
    rcases ht.decided r.name e he with hd | hd | hd
    · exact .inl ⟨e, he, .inl hd⟩
    · exact .inl ⟨e, he, .inr hd⟩
    · exact .inr hd
  · cases hc

/-- Two requests, the second while the job of `feed` polls and its model is loading. -/
def overlapping : List Event :=
  [.request feedOnly, go 0, go 0, go 0, go 0, go 0, go 3, .request feedAndAds, go 4, go 4, go 4, go 4, go 2]

theorem never_waits_for_nothing_overlapping :
    ∃ t, run (step demoEnv) init overlapping = some t ∧
      (∀ job, .pollModels job ∈ t.pending → ∀ r ∈ job.modelRecords, Decided t.store r.name ∨ LoadPending t r.name) ∧
      ∃ ws u, (∀ e ∈ ws, e.isWork) ∧ run (step demoEnv) t ws = some u ∧ u.Idle := by
  have hrun : (run (step demoEnv) init overlapping).isSome := by decide
  obtain ⟨t, ht⟩ := Option.isSome_iff_exists.mp hrun
  exact ⟨t, ht, never_waits_for_nothing demoEnv quiet_init (by decide) ht⟩

/-- `ctr` is loaded for `feed`; the next request asks for nothing and its unregister job
    unloads `ctr` before the register job (task 3) polls. -/
def unloaded : List Event :=
  [.request feedOnly, go 0, go 0, go 0, go 0, go 0, go 0, go 1, go 1, go 2, go 2, .request [], go 4, go 4, go 4, go 5, go 5]

theorem unloaded_model_is_awaited :
    ¬ ∀ (es : List Event) (t : State), run (step demoEnv) init es = some t →
      ∀ job, .pollModels job ∈ t.pending → ∀ r ∈ job.modelRecords, Decided t.store r.name ∨ LoadPending t r.name := by
  intro h
  have hrun : (run (step demoEnv) init unloaded).any fun t =>
      t.pending = [.pollModels ⟨"feed", [modelRecord "feed" ctr], 0⟩] && "ctr" ∉ t.store.modelMap := by
    decide
  obtain ⟨t, ht, hbad⟩ := (Option.any_eq_true _ _).mp hrun
  simp only [Bool.and_eq_true, decide_eq_true_eq] at hbad
  rcases h unloaded t ht _ (hbad.1 ▸ List.mem_cons_self) _ List.mem_cons_self with ⟨e, he, -⟩ | ⟨a, ha, hn⟩
  · exact hbad.2 (TreeMap.mem_iff_isSome_getElem?.mpr (Option.isSome_iff_exists.mpr ⟨e, he⟩))
  · rw [hbad.1] at ha
    obtain rfl := List.mem_singleton.mp ha
    cases hn

end PredictorService.HttpService
