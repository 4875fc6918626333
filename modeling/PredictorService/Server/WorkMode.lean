/-
  PredictorService.Server.WorkMode — the handler of `/set_work_mode`
  (predictor/server/http_service/http_service.cc: `HttpService::setWorkMode`).

  A request without a `work_mode` gets code -1 and then goes on into the comparison with the
  current mode, where both branches set code 0: it unregisters every service, unless the
  mode was empty already. The state before a request is any state of a run in which the
  operations on the services interleave as in `ServiceMap.step`, with work-mode and weight
  requests in between. In each of them the router has a record for each service of
  `service_map_` and no other (`tracks_serve`), so a request that changes the mode leaves
  neither a service nor a record.
  - `request_met_iff`: a request does what it should iff its `work_mode` is not empty.

  `PredictorRouter::init`, which a change to the router mode calls once, reads static lists
  and registers no server; it is left out, as are the logs.
-/

import PredictorService.Server.ServiceMap

namespace PredictorService.ServiceMap

open Std (TreeMap ExtTreeMap)
open PredictorService.Lib
open PredictorService.Lib.TaskPool
open PredictorService.ServiceRouter

/-! ## The handler -/

/-- The object that is answered. -/
structure SetWorkModeResult where
  code : Option Int := none
  msg : String := ""
  deriving DecidableEq, Repr

/-- `workMode` is the query parameter, if there is one: `getQueryParam` returns the empty
    string for one that is missing. -/
def handleSetWorkMode (n : Node) (workMode : Option String) : Node × SetWorkModeResult :=
  let workMode := workMode.getD ""
  let result : SetWorkModeResult := {}
  let result := if workMode.length = 0 then { result with code := some (-1), msg := "no param of work_mode" } else result
  if workMode = n.workMode then
    (n, { result with code := some 0, msg := "work_mode maintained " ++ n.workMode })
  else
    (setWorkMode n workMode, { result with code := some 0, msg := "work_mode change success" })

theorem handleSetWorkMode_fst (n : Node) (workMode : Option String) : (handleSetWorkMode n workMode).1 = setWorkMode n (workMode.getD "") := by
  unfold handleSetWorkMode setWorkMode
  simp only
  split <;> rfl

/-- Both branches answer 0. -/
theorem handleSetWorkMode_code (n : Node) (workMode : Option String) : (handleSetWorkMode n workMode).2.code = some 0 := by
  unfold handleSetWorkMode
  simp only
  split <;> rfl

/-! ## Runs -/

variable (c : ConsulRegistry.Codec) (f : Flags)

inductive Request where
  | event (e : Event)
  | setServerStaticWeight (serviceName : String) (weight : Option Int32)
  | setWorkMode (workMode : Option String)

def serve (s : State) : Request → Option State
  | .event e => step c f s e
  | .setServerStaticWeight serviceName weight =>
    if s.store.crashed then none else some { s with store := setServerStaticWeight f s.store serviceName weight }
  | .setWorkMode workMode => if s.store.crashed then none else some { s with store := (handleSetWorkMode s.store workMode).1 }

/-- The process starts in some mode, without services. -/
def start (workMode : String) : State := ⟨{ workMode }, []⟩

variable {c f} {n : Node}

/-- A section keeps the map and the router together, unless it ends the process. -/
theorem Tracks.exec (h : Tracks f n) {a : Action} (hname : ∀ k weight, a = .insertService k weight → k ≠ "") :
    (ServiceMap.exec c f () n a).store.crashed = true ∨ Tracks f (ServiceMap.exec c f () n a).store := by
  cases a with
  | insertService k weight => exact .inr (h.insertService c (hname k weight rfl))
  | initServiceModels k => exact .inr ⟨h.1, h.2, h.3, h.4, h.5, h.6⟩
  | setServiceWeight k weight => exact .inr (h.setServiceWeight k weight)
  | eraseService k => exact .inr (h.eraseService k)
  | eraseServiceWeight k => exact .inr ⟨h.1, h.2, h.3, h.4, h.5, h.6⟩
  | eraseServiceModels k => exact .inr ⟨h.1, h.2, h.3, h.4, h.5, h.6⟩
  | unregisterAll => exact .inr h.unregisterAll
  | findService service qps models => exact .inr h
  | accessService service qps models =>
    show (accessService f n service qps models).crashed = true ∨ Tracks f (accessService f n service qps models)
    unfold accessService
    split
    · rename_i server hserver
      right
      exact ((h.changeServer server _).changeServer server _).changeServer server _
    · exact .inl rfl
    · exact .inl rfl

/-- What holds in every state of a run: no pending section inserts a service without a
    name, and while the process lives the router has the records of the map. -/
structure Consistent (f : Flags) (s : State) : Prop where
  named : ∀ k weight, Action.insertService k weight ∈ s.pending → k ≠ ""
  tracks : s.store.crashed = true ∨ Tracks f s.store

/-- A new task inserts no service without a name. -/
theorem mem_task {e : Event} {k : String} {weight : Int32} (h : Action.insertService k weight ∈ task e) : k ≠ "" := by
  cases e with
  | register name weight' =>
    simp only [task] at h
    split at h
    · simp at h
    · rename_i hne
      cases List.mem_singleton.mp h
      exact hne
  | unregister name =>
    simp only [task] at h
    split at h <;> simp at h
  | unregisterAll => simp [task] at h
  | setStressInfos models qps service => simp [task] at h
  | work i => simp [task] at h

theorem Consistent.spawn {s : State} (h : Consistent f s) (e : Event) :
    Consistent f { s with tasks := s.tasks ++ [task e] } := by
  refine ⟨fun k weight hk => ?_, h.tracks⟩
  simp only [Pool.pending, List.flatten_append, List.flatten_cons, List.flatten_nil, List.append_nil,
    List.mem_append] at hk
  rcases hk with hk | hk
  · exact h.named k weight hk
  · exact mem_task hk

theorem Consistent.step {s t : State} {e : Event} (h : Consistent f s) (ht : step c f s e = some t) :
    Consistent f t := by
  unfold ServiceMap.step at ht
  split at ht
  · cases ht
  rename_i hlive
  have htracks := h.tracks.resolve_left hlive
  cases e with
  | work i =>
    obtain ⟨a, -, ha, hstore, hpending, -⟩ := work_next _ ht
    refine ⟨fun k weight hk => ?_, ?_⟩
    · rcases hpending _ hk with hk | hk
      · exact h.named k weight hk
      · -- no section puts an insert in front of what is left
        exfalso
        revert hk
        cases a <;> simp only [exec, Effect.fresh] <;> (try split) <;> simp
    · rw [hstore]
      exact htracks.exec fun k weight heq => h.named k weight (heq ▸ ha)
  | register name weight => exact Option.some.inj ht ▸ h.spawn _
  | unregister name => exact Option.some.inj ht ▸ h.spawn _
  | unregisterAll => exact Option.some.inj ht ▸ h.spawn _
  | setStressInfos models qps service => exact Option.some.inj ht ▸ h.spawn _

theorem Consistent.serve {s t : State} {r : Request} (h : Consistent f s) (ht : serve c f s r = some t) :
    Consistent f t := by
  cases r with
  | event e => exact h.step ht
  | setServerStaticWeight serviceName weight =>
    simp only [ServiceMap.serve] at ht
    split at ht
    · cases ht
    rename_i hlive
    cases ht
    exact ⟨h.named, .inr ((h.tracks.resolve_left hlive).apply c (.setServerStaticWeight serviceName weight))⟩
  | setWorkMode workMode =>
    simp only [ServiceMap.serve, handleSetWorkMode_fst] at ht
    split at ht
    · cases ht
    rename_i hlive
    cases ht
    exact ⟨h.named, .inr ((h.tracks.resolve_left hlive).apply c (.setWorkMode (workMode.getD "")))⟩

theorem tracks_serve {workMode : String} {rs : List Request} {s : State}
    (hr : run (serve c f) (start workMode) rs = some s) (hlive : s.store.crashed = false) : Tracks f s.store := by
  have hinit : Consistent f (start workMode) := by
    refine ⟨fun k weight hk => by simp [start, Pool.pending] at hk, .inr ?_⟩
    have h := tracks_init f
    exact ⟨h.1, h.2, h.3, h.4, h.5, h.6⟩
  have h := run_invariant (serve c f) (Consistent f) (fun s t r h ht => h.serve ht) hinit hr
  exact h.tracks.resolve_left (by simp [hlive])

/-! ## What a request does -/

theorem Tracks.mem_eraseService (h : Tracks f n) (k k' : String) :
    k' ∈ (ServiceMap.eraseService n k).serviceMap ↔ k ≠ k' ∧ k' ∈ n.serviceMap := by
  unfold ServiceMap.eraseService
  cases hk : n.serviceMap[k]? with
  | none =>
    refine ⟨fun hmem => ⟨fun heq => ?_, hmem⟩, fun hmem => hmem.2⟩
    rw [TreeMap.mem_iff_isSome_getElem?, ← heq, hk] at hmem
    cases hmem
  | some v =>
    cases h.entry k v hk
    simp [TreeMap.mem_erase]

theorem Tracks.mem_eraseEach (h : Tracks f n) (names : List String) (k' : String) :
    k' ∈ (eraseEach n names).serviceMap ↔ k' ∉ names ∧ k' ∈ n.serviceMap := by
  induction names generalizing n with
  | nil => simp [eraseEach]
  | cons k names ih =>
    have hk := h.eraseService k
    unfold eraseEach
    simp only
    rw [if_neg (by simp [hk.alive]), ih hk, h.mem_eraseService]
    simp only [List.mem_cons, not_or]
    constructor
    · exact fun ⟨hnot, hne, hmem⟩ => ⟨⟨Ne.symm hne, hnot⟩, hmem⟩
    · exact fun ⟨⟨hne, hnot⟩, hmem⟩ => ⟨hnot, Ne.symm hne, hmem⟩

/-- `unregisterAll` leaves no service, and the router no record. -/
theorem Tracks.unregisterAll_empty (h : Tracks f n) :
    (∀ k, k ∉ (ServiceMap.unregisterAll n).serviceMap) ∧ (ServiceMap.unregisterAll n).router.servers = ∅ := by
  have hempty : ∀ k, k ∉ (ServiceMap.unregisterAll n).serviceMap := by
    intro k hk
    unfold ServiceMap.unregisterAll at hk
    rw [h.mem_eraseEach, TreeMap.mem_keys] at hk
    exact hk.1 hk.2
  refine ⟨hempty, ExtTreeMap.ext_getElem? fun key => ?_⟩
  cases hw : (ServiceMap.unregisterAll n).router.servers[key]? with
  | none => simp
  | some w =>
    obtain ⟨k, hk, -⟩ := h.unregisterAll.record key w hw
    exact absurd hk (hempty k)

/-- What is asked of a request: without a `work_mode` it fails and changes nothing, and the
    registrations are cleared when the mode changes and stay when it does not. -/
structure RequestMet (n : Node) (workMode : Option String) : Prop where
  invalid : workMode.getD "" = "" →
    (handleSetWorkMode n workMode).1.workMode = n.workMode ∧
      (handleSetWorkMode n workMode).1.serviceMap = n.serviceMap ∧
      (handleSetWorkMode n workMode).1.router = n.router ∧ (handleSetWorkMode n workMode).2.code = some (-1)
  cleared : (handleSetWorkMode n workMode).1.workMode ≠ n.workMode →
    (∀ k, k ∉ (handleSetWorkMode n workMode).1.serviceMap) ∧ (handleSetWorkMode n workMode).1.router.servers = ∅
  kept : (handleSetWorkMode n workMode).1.workMode = n.workMode →
    (handleSetWorkMode n workMode).1.serviceMap = n.serviceMap ∧ (handleSetWorkMode n workMode).1.router = n.router

/-- In every state that a live process can be in, a request does what is asked iff its
    `work_mode` is not empty: the registrations follow the mode, but no request is refused. -/
theorem request_met_iff (c : ConsulRegistry.Codec) (f : Flags) {first : String} {rs : List Request} {s : State}
    (hr : run (serve c f) (start first) rs = some s) (hlive : s.store.crashed = false) (workMode : Option String) :
    RequestMet s.store workMode ↔ workMode.getD "" ≠ "" := by
  have h := tracks_serve hr hlive
  constructor
  · intro hmet hempty
    have hcode := (hmet.invalid hempty).2.2.2
    rw [handleSetWorkMode_code] at hcode
    exact absurd hcode (by decide)
  · intro hne
    refine ⟨fun hempty => absurd hempty hne, fun hchange => ?_, fun hsame => ?_⟩
    · by_cases hmode : workMode.getD "" = s.store.workMode
      · rw [handleSetWorkMode_fst, setWorkMode, if_pos hmode] at hchange
        exact absurd rfl hchange
      · rw [handleSetWorkMode_fst, setWorkMode, if_neg hmode]
        exact h.unregisterAll_empty
    · by_cases hmode : workMode.getD "" = s.store.workMode
      · rw [handleSetWorkMode_fst, setWorkMode, if_pos hmode]
        exact ⟨rfl, rfl⟩
      · rw [handleSetWorkMode_fst, setWorkMode, if_neg hmode] at hsame
        exact absurd hsame hmode

/-- One service is registered. -/
def registerOne : List Request :=
  [.event (.register "ctr" 5), .event (.work 0), .event (.work 0), .event (.work 0)]

theorem request_met_iff_router :
    ∃ s, run (serve ConsulRegistry.plainCodec demoFlags) (start "ServerMode") registerOne = some s ∧
      s.store.crashed = false ∧ (RequestMet s.store (some "RouterMode") ↔ "RouterMode" ≠ "") := by
  have hrun : (run (serve ConsulRegistry.plainCodec demoFlags) (start "ServerMode") registerOne).any
      (fun s => !s.store.crashed) := by
    decide +kernel
  obtain ⟨s, hs, hlive⟩ := (Option.any_eq_true _ _).mp hrun
  have hlive' : s.store.crashed = false := by simpa using hlive
  exact ⟨s, hs, hlive', request_met_iff ConsulRegistry.plainCodec demoFlags hs hlive' (some "RouterMode")⟩

/-- A request without `work_mode` unregisters the service, empties the mode and answers 0. -/
theorem a_missing_mode_unregisters_all :
    ∃ s, run (serve ConsulRegistry.plainCodec demoFlags) (start "ServerMode") registerOne = some s ∧
      s.store.serviceMap.size = 1 ∧ (handleSetWorkMode s.store none).1.serviceMap.size = 0 ∧
      (handleSetWorkMode s.store none).1.workMode = "" ∧ (handleSetWorkMode s.store none).2.code = some 0 ∧
      ¬ RequestMet s.store none := by
  have hrun : (run (serve ConsulRegistry.plainCodec demoFlags) (start "ServerMode") registerOne).any
      (fun s => s.store.serviceMap.size == 1 && (handleSetWorkMode s.store none).1.serviceMap.size == 0 &&
        (handleSetWorkMode s.store none).1.workMode == "") := by
    decide +kernel
  obtain ⟨s, hs, hend⟩ := (Option.any_eq_true _ _).mp hrun
  simp only [Bool.and_eq_true, beq_iff_eq] at hend
  refine ⟨s, hs, hend.1.1, hend.1.2, hend.2, handleSetWorkMode_code s.store none, fun hmet => ?_⟩
  have hcode := (hmet.invalid rfl).2.2.2
  rw [handleSetWorkMode_code] at hcode
  exact absurd hcode (by decide)

end PredictorService.ServiceMap
