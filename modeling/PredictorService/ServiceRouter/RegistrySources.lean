/-
  PredictorService.ServiceRouter.RegistrySources — where a registry's requests and lists come
  from (see `PredictorService.ServiceRouter.Registry`).

  A request is one of a user's call, sent then or again by a retry. A list that a subscriber
  is told was read from a response for its service or pushed as the static nodes of it.
  `From.step` keeps both, for any properties `ok` of the calls and `seen` of the services and
  their servers.
-/

import PredictorService.ServiceRouter.RegistryNodes

namespace PredictorService.ServiceRouter

open PredictorService.Lib (FinMap)
open ConsulNode

namespace ConsulRegistry

variable (c : Codec)

/-- The servers that an event brings, under the name of their service. -/
def Ev.brings : Ev → List (String × Server)
  | .deliverNodes serviceName (some values) => (readNodes c values.value).map fun t => (serviceName, t)
  | .pushStaticNodes serviceName servers => servers.map fun t => (serviceName, t)
  | _ => []

/-- Every request is a call that is `ok`, every list to come has servers that are `seen`. -/
structure From (ok : Request → Prop) (seen : String → Server → Prop) (named : String → Prop) (s : St) : Prop where
  requests : ∀ q ∈ s.requests, ok q
  responses : ∀ p ∈ s.responses, ok p.1
  fallbacks : ∀ k d, s.fallbacks.lookup k = some d → ∀ q, FallBackDetail.request c d = some q → ok q
  work : ∀ k d, s.work.lookup k = some d → ∀ q, FallBackDetail.request c d = some q → ok q
  tasks : ∀ name servers, .notifyDiscover name servers ∈ s.tasks → ∀ t ∈ servers, seen name t
  staticNodes : ∀ name servers, s.staticNodes.lookup name = some servers → ∀ t ∈ servers, seen name t
  subscribers : ∀ name ∈ s.serviceSubscribers, named name

/-- The new lists that the subscribers have been told, all of servers that are `seen`. -/
def Tells (seen : String → Server → Prop) (named : String → Prop) (s t : St) : Prop :=
  ∃ news, t.notified = news ++ s.notified ∧ ∀ n ∈ news, named n.1 ∧ ∀ u ∈ n.2, seen n.1 u

variable {c} {ok : Request → Prop} {seen : String → Server → Prop} {named : String → Prop} {s t : St}

theorem from_init (kv : FinMap String String) : From c ok seen named { consul := kv } where
  requests _ hq := absurd hq List.not_mem_nil
  responses _ hp := absurd hp List.not_mem_nil
  fallbacks k d hd := by
    rw [Finmap.lookup_empty] at hd
    cases hd
  work k d hd := by
    rw [Finmap.lookup_empty] at hd
    cases hd
  tasks _ _ h := absurd h List.not_mem_nil
  staticNodes k d hd := by
    rw [Finmap.lookup_empty] at hd
    cases hd
  subscribers name h := absurd h (Finset.notMem_empty name)

theorem Tells.refl (h : t.notified = s.notified) : Tells seen named s t := ⟨[], h, nofun⟩

/-- Only these fields matter. -/
theorem From.same (h : From c ok seen named s) (hrequests : t.requests = s.requests)
    (hresponses : t.responses = s.responses) (hfallbacks : t.fallbacks = s.fallbacks) (hwork : t.work = s.work)
    (htasks : t.tasks = s.tasks) (hstatic : t.staticNodes = s.staticNodes)
    (hsubscribers : t.serviceSubscribers = s.serviceSubscribers) : From c ok seen named t where
  requests := hrequests ▸ h.requests
  responses := hresponses ▸ h.responses
  fallbacks := hfallbacks ▸ h.fallbacks
  work := hwork ▸ h.work
  tasks := htasks ▸ h.tasks
  staticNodes := hstatic ▸ h.staticNodes
  subscribers := hsubscribers ▸ h.subscribers

theorem From.mono (h : From c ok seen named s) {ok' : Request → Prop} {seen' : String → Server → Prop} {named' : String → Prop}
    (hok : ∀ q, ok q → ok' q) (hseen : ∀ name t, seen name t → seen' name t) (hnamed : ∀ name, named name → named' name) :
    From c ok' seen' named' s where
  requests q hq := hok q (h.requests q hq)
  responses p hp := hok p.1 (h.responses p hp)
  fallbacks k d hd q hq := hok q (h.fallbacks k d hd q hq)
  work k d hd q hq := hok q (h.work k d hd q hq)
  tasks name servers hmem t ht := hseen name t (h.tasks name servers hmem t ht)
  staticNodes name servers hl t ht := hseen name t (h.staticNodes name servers hl t ht)
  subscribers name hname := hnamed name (h.subscribers name hname)

theorem From.setTasks (h : From c ok seen named s) {tasks : List Task}
    (htasks : ∀ name servers, .notifyDiscover name servers ∈ tasks → ∀ t ∈ servers, seen name t) :
    From c ok seen named { s with tasks } := { h with tasks := htasks }

/-- Tasks that are no notifications may be added. -/
theorem From.addTask (h : From c ok seen named s) {task : Task}
    (htask : ∀ name servers, task = .notifyDiscover name servers → ∀ t ∈ servers, seen name t) :
    From c ok seen named { s with tasks := s.tasks ++ [task] } := by
  refine h.setTasks fun name servers hmem => ?_
  rcases List.mem_append.mp hmem with hmem | hmem
  · exact h.tasks name servers hmem
  · exact htask name servers (List.mem_singleton.mp hmem).symm

theorem From.eraseTask (h : From c ok seen named s) (task : Task) :
    From c ok seen named { s with tasks := s.tasks.erase task } :=
  h.setTasks fun name servers hmem => h.tasks name servers (List.mem_of_mem_erase hmem)

theorem From.send (h : From c ok seen named s) {q : Request} (hq : ok q) :
    From c ok seen named { s with requests := s.requests ++ [q] } := by
  refine { h with requests := fun q' hmem => ?_ }
  rcases List.mem_append.mp hmem with hmem | hmem
  · exact h.requests q' hmem
  · rw [List.mem_singleton.mp hmem]
    exact hq

theorem From.queue (h : From c ok seen named s) {key : String} {detail : FallBackDetail}
    (hdetail : ∀ q, FallBackDetail.request c detail = some q → ok q) :
    From c ok seen named { s with fallbacks := s.fallbacks.insert key detail } := by
  refine { h with fallbacks := fun k d hd => ?_ }
  rw [FinMap.lookup_insert_ite] at hd
  split at hd
  · cases hd
    exact hdetail
  · exact h.fallbacks k d hd

theorem From.registerServer (h : From c ok seen named s) {server : Server}
    (hok : ∀ json, c.toJson server = some json → ok ⟨server, some json⟩) :
    From c ok seen named (registerServer c s server) ∧ (registerServer c s server).notified = s.notified := by
  unfold ConsulRegistry.registerServer
  cases hjson : c.toJson server with
  | none => exact ⟨h, rfl⟩
  | some json =>
    simp only
    split
    · exact ⟨h.send (hok json hjson), rfl⟩
    · exact ⟨h, rfl⟩

theorem From.unregisterServer (h : From c ok seen named s) {server : Server} (hok : ok ⟨server, none⟩) :
    From c ok seen named (unregisterServer s server) ∧ (unregisterServer s server).notified = s.notified := by
  unfold ConsulRegistry.unregisterServer
  split
  · exact ⟨h.send hok, rfl⟩
  · exact ⟨h, rfl⟩

theorem From.tells (h : From c ok seen named s) {name : String} {servers : List Server}
    (hseen : ∀ t ∈ servers, seen name t) : Tells seen named s (notifyDiscover s name servers) := by
  unfold ConsulRegistry.notifyDiscover
  split
  · rename_i hsub
    refine ⟨[(name, servers)], rfl, fun n hn => ?_⟩
    rw [List.mem_singleton.mp hn]
    exact ⟨h.subscribers name hsub, hseen⟩
  · exact .refl rfl

theorem From.notifyDiscover (h : From c ok seen named s) (name : String) (servers : List Server) :
    From c ok seen named (notifyDiscover s name servers) := by
  unfold ConsulRegistry.notifyDiscover
  split
  · exact h.same rfl rfl rfl rfl rfl rfl rfl
  · exact h

theorem From.discover (h : From c ok seen named s) (name : String) :
    From c ok seen named (discover s name) ∧ Tells seen named s (discover s name) := by
  unfold ConsulRegistry.discover
  split
  · split
    · exact ⟨h.addTask (by rintro _ _ ⟨⟩), .refl rfl⟩
    · exact ⟨h, .refl rfl⟩
  · have hseen : ∀ t ∈ (s.staticNodes.lookup name).getD [], seen name t := by
      cases hlookup : s.staticNodes.lookup name with
      | none => nofun
      | some servers => exact h.staticNodes name servers hlookup
    simp only
    split
    · exact ⟨h.notifyDiscover _ _, h.tells hseen⟩
    · exact ⟨h, .refl rfl⟩

theorem From.getConfig (h : From c ok seen named s) (name : String) :
    From c ok seen named (getConfig s name) ∧ (getConfig s name).notified = s.notified := by
  unfold ConsulRegistry.getConfig
  split
  · exact ⟨h.addTask (by rintro _ _ ⟨⟩), rfl⟩
  · exact ⟨h, rfl⟩

/-! ## The callbacks -/

theorem From.answer (h : From c ok seen named s) {q : Request} (hq : q ∈ s.requests) (b : Bool) :
    From c ok seen named (answer s q b) := by
  refine ⟨fun q' hmem => h.requests q' (List.mem_of_mem_erase hmem), fun p hp => ?_, h.fallbacks, h.work, h.tasks,
    h.staticNodes, h.subscribers⟩
  rcases List.mem_cons.mp hp with rfl | hp
  · exact h.requests q hq
  · exact h.responses p hp

theorem From.deliver (hproper : ∀ q, ok q → FallBackDetail.request c ⟨q.server, q.type⟩ = some q)
    (h : From c ok seen named s) {q : Request} {b : Bool} (hq : (q, b) ∈ s.responses) :
    From c ok seen named (deliver s q b) := by
  have herase : From c ok seen named { s with responses := s.responses.erase (q, b) } :=
    { h with responses := fun p hp => h.responses p (List.mem_of_mem_erase hp) }
  unfold ConsulRegistry.deliver
  simp only
  split
  · exact herase
  · refine herase.queue fun q' hq' => ?_
    have hok := h.responses _ hq
    rw [hproper q hok, Option.some_inj] at hq'
    exact hq' ▸ hok

theorem From.processDiscover (h : From c ok seen named s) {name : String} {values : ConsulValues}
    (hseen : ∀ t ∈ readNodes c values.value, seen name t) : From c ok seen named (processDiscover c s name values) ∧
      (processDiscover c s name values).notified = s.notified := by
  unfold ConsulRegistry.processDiscover
  simp only
  split
  · exact ⟨h.same rfl rfl rfl rfl rfl rfl rfl, rfl⟩
  · refine ⟨?_, rfl⟩
    have hsame : From c ok seen named { s with
        lastIndexes := (checkUpdate s.lastIndexes (getNodesPath name) values.consulIndex).2
        delivered := (name, values) :: s.delivered } := h.same rfl rfl rfl rfl rfl rfl rfl
    refine hsame.addTask fun name' servers heq => ?_
    cases heq
    exact hseen

theorem From.deliverNodes (h : From c ok seen named s) {name : String} {res : Option ConsulValues}
    (hseen : ∀ values, res = some values → ∀ t ∈ readNodes c values.value, seen name t) :
    From c ok seen named (deliverNodes c s name res) ∧ (deliverNodes c s name res).notified = s.notified := by
  have herase := h.eraseTask (.nodes name)
  unfold ConsulRegistry.deliverNodes
  cases res with
  | none => exact ⟨herase.queue nofun, rfl⟩
  | some values => exact herase.processDiscover (hseen values rfl)

theorem From.readVersion (h : From c ok seen named s) (name : String) (res : Option String) :
    From c ok seen named (readVersion c s name res) ∧ (readVersion c s name res).notified = s.notified := by
  have herase : From c ok seen named { s with
      tasks := s.tasks.erase (.version name)
      configVersions := (checkConfigUpdate c s.configVersions name res).2.1 } :=
    (h.eraseTask (.version name)).same rfl rfl rfl rfl rfl rfl rfl
  unfold ConsulRegistry.readVersion
  simp only
  split
  · exact ⟨herase.addTask (by rintro _ _ ⟨⟩), rfl⟩
  · exact ⟨herase, rfl⟩

theorem From.queueConfig (h : From c ok seen named s) (name : String) : From c ok seen named (queueConfig s name) :=
  h.queue nofun

theorem From.deliverConfig (h : From c ok seen named s) (name : String) (version : Option String)
    (res : Option ConsulValues) : From c ok seen named (deliverConfig c s name version res) ∧
      (deliverConfig c s name version res).notified = s.notified := by
  have herase := h.eraseTask (.config name version)
  unfold ConsulRegistry.deliverConfig
  cases res with
  | none => exact ⟨herase.queueConfig name, rfl⟩
  | some values =>
    have hsame : From c ok seen named { s with
        tasks := s.tasks.erase (.config name version)
        lastIndexes := (checkUpdate s.lastIndexes (getConfigPath name) values.consulIndex).2 } :=
      herase.same rfl rfl rfl rfl rfl rfl rfl
    simp only [processConfig]
    split
    · exact ⟨hsame.addTask (by rintro _ _ ⟨⟩), rfl⟩
    · split
      · exact ⟨hsame, rfl⟩
      · exact ⟨hsame.addTask (by rintro _ _ ⟨⟩), rfl⟩

theorem From.notifyConfig (h : From c ok seen named s) (name : String) (config : ServiceConfig)
    (items : List (String × String)) : From c ok seen named (notifyConfig s name config items) ∧
      (notifyConfig s name config items).notified = s.notified := by
  unfold ConsulRegistry.notifyConfig
  simp only
  split
  · exact ⟨h.same rfl rfl rfl rfl rfl rfl rfl, rfl⟩
  · exact ⟨h.same rfl rfl rfl rfl rfl rfl rfl, rfl⟩

theorem From.fallback (h : From c ok seen named s) (hstep : fallback s = some t) :
    From c ok seen named t ∧ t.notified = s.notified := by
  obtain ⟨-, rfl⟩ := Lib.guard_some.mp hstep
  refine ⟨{ h with fallbacks := fun k d hd => ?_, work := h.fallbacks }, rfl⟩
  rw [Finmap.lookup_empty] at hd
  cases hd

theorem From.retry (h : From c ok seen named s) {key : String} (hstep : retry c s key = some t) :
    From c ok seen named t ∧ Tells seen named s t := by
  unfold ConsulRegistry.retry at hstep
  cases hlookup : s.work.lookup key with
  | none =>
    rw [hlookup] at hstep
    cases hstep
  | some detail =>
    have herase : From c ok seen named { s with work := s.work.erase key } := by
      refine { h with work := fun k d hd => ?_ }
      rw [FinMap.lookup_erase_ite] at hd
      split at hd
      · cases hd
      · exact h.work k d hd
    have hwork := h.work key detail hlookup
    obtain ⟨server, type⟩ := detail
    simp only [hlookup] at hstep
    cases type with
    | register =>
      cases hstep
      have hok : ∀ json, c.toJson server = some json → ok ⟨server, some json⟩ := by
        intro json hjson
        exact hwork _ (by simp [FallBackDetail.request, hjson])
      obtain ⟨hfrom, hsame⟩ := herase.registerServer hok
      exact ⟨hfrom, .refl hsame⟩
    | unregister =>
      cases hstep
      obtain ⟨hfrom, hsame⟩ := herase.unregisterServer (hwork _ rfl)
      exact ⟨hfrom, .refl hsame⟩
    | discover =>
      cases hstep
      exact herase.discover server.serviceName
    | getConfig =>
      cases hstep
      obtain ⟨hfrom, hsame⟩ := herase.getConfig server.serviceName
      exact ⟨hfrom, .refl hsame⟩

/-! ## A step -/

theorem From.step (hproper : ∀ q, ok q → FallBackDetail.request c ⟨q.server, q.type⟩ = some q)
    (h : From c ok seen named s) {e : Ev} (hcall : ∀ q, e.call c = some q → ok q)
    (hbrings : ∀ b ∈ e.brings c, seen b.1 b.2) (hname : ∀ name, e = .subscribe name → named name)
    (hstep : step c s e = some t) : From c ok seen named t ∧ Tells seen named s t := by
  cases e with
  | registerServer server =>
    cases hstep
    have hok : ∀ json, c.toJson server = some json → ok ⟨server, some json⟩ := by
      intro json hjson
      exact hcall _ (by simp [Ev.call, hjson])
    obtain ⟨hfrom, hsame⟩ := h.registerServer hok
    exact ⟨hfrom, .refl hsame⟩
  | unregisterServer server =>
    cases hstep
    obtain ⟨hfrom, hsame⟩ := h.unregisterServer (hcall _ rfl)
    exact ⟨hfrom, .refl hsame⟩
  | discover name =>
    cases hstep
    exact h.discover name
  | getConfig name =>
    cases hstep
    obtain ⟨hfrom, hsame⟩ := h.getConfig name
    exact ⟨hfrom, .refl hsame⟩
  | answer q b =>
    obtain ⟨hq, rfl⟩ := Lib.guard_some.mp hstep
    exact ⟨h.answer hq b, .refl rfl⟩
  | deliver q b =>
    obtain ⟨hq, rfl⟩ := Lib.guard_some.mp hstep
    refine ⟨h.deliver hproper hq, .refl ?_⟩
    unfold ConsulRegistry.deliver
    split <;> rfl
  | deliverNodes name res =>
    obtain ⟨-, rfl⟩ := Lib.guard_some.mp hstep
    have hseen : ∀ values, res = some values → ∀ t ∈ readNodes c values.value, seen name t := by
      rintro values rfl t ht
      exact hbrings (name, t) (List.mem_map.mpr ⟨t, ht, rfl⟩)
    obtain ⟨hfrom, hsame⟩ := h.deliverNodes hseen
    exact ⟨hfrom, .refl hsame⟩
  | runNotifyDiscover name servers =>
    obtain ⟨hmem, rfl⟩ := Lib.guard_some.mp hstep
    have herase := h.eraseTask (.notifyDiscover name servers)
    exact ⟨herase.notifyDiscover name servers, herase.tells (h.tasks name servers hmem)⟩
  | readVersion name res =>
    obtain ⟨-, rfl⟩ := Lib.guard_some.mp hstep
    obtain ⟨hfrom, hsame⟩ := h.readVersion name res
    exact ⟨hfrom, .refl hsame⟩
  | deliverConfig name version res =>
    obtain ⟨-, rfl⟩ := Lib.guard_some.mp hstep
    obtain ⟨hfrom, hsame⟩ := h.deliverConfig name version res
    exact ⟨hfrom, .refl hsame⟩
  | runQueueConfig name =>
    obtain ⟨-, rfl⟩ := Lib.guard_some.mp hstep
    exact ⟨(h.eraseTask _).queueConfig name, .refl rfl⟩
  | runNotifyConfig name config items =>
    obtain ⟨-, rfl⟩ := Lib.guard_some.mp hstep
    obtain ⟨hfrom, hsame⟩ := (h.eraseTask (.notifyConfig name config items)).notifyConfig name config items
    exact ⟨hfrom, .refl hsame⟩
  | fallback =>
    obtain ⟨hfrom, hsame⟩ := h.fallback hstep
    exact ⟨hfrom, .refl hsame⟩
  | retry key => exact h.retry hstep
  | pushStaticNodes name servers =>
    cases hstep
    refine ⟨{ h with staticNodes := fun n l hl => ?_ }, .refl rfl⟩
    rw [FinMap.lookup_insert_ite] at hl
    split at hl
    · rename_i hn
      cases hl
      rw [hn]
      exact fun t ht => hbrings (name, t) (List.mem_map.mpr ⟨t, ht, rfl⟩)
    · exact h.staticNodes n l hl
  | subscribe name =>
    cases hstep
    refine ⟨{ h with subscribers := fun n hn => ?_ }, .refl rfl⟩
    rcases Finset.mem_insert.mp hn with rfl | hn
    · exact hname n rfl
    · exact h.subscribers n hn
  | unsubscribe name =>
    cases hstep
    exact ⟨{ h with subscribers := fun n hn => h.subscribers n (Finset.mem_of_mem_erase hn) }, .refl rfl⟩
  | subscribeConfig _ | unsubscribeConfig _ | subscribeConfigItem _ _
  | unsubscribeConfigItem _ _ | enableStatic | disableStatic | poolGone =>
    cases hstep
    exact ⟨h.same rfl rfl rfl rfl rfl rfl rfl, .refl rfl⟩

end ConsulRegistry

end PredictorService.ServiceRouter
