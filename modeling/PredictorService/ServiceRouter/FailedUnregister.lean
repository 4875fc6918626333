/-
  PredictorService.ServiceRouter.FailedUnregister — deletes that wait to be sent again, and
  the servers that are registered.

  A refused delete goes to `fallbacks_` and is sent again, also one that
  `unregisterServerSync` sent: the router answers false and keeps the server, and the
  registry deletes its node at the next round (`refused_sync_is_sent_again`).
  `no_trace_iff` says exactly in which runs no registered server has a delete in
  `fallbacks_`.
-/

import PredictorService.ServiceRouter.RegistryNodes
import PredictorService.ServiceRouter.Router

namespace PredictorService.ServiceRouter.Router

open Std (ExtTreeMap)
open PredictorService.Lib
open ConsulRegistry (FallBackDetail)
open ConsulNode

/-! ## Deletes in `fallbacks_` -/

/-- The registry will send a delete again for a server of this key. -/
def Retries (registry : ConsulRegistry.St) (key : String) : Prop :=
  ∃ name d, registry.fallbacks.lookup name = some d ∧ d.type = .unregister ∧ getServerKey d.server = key

def Queued (s : St) (key : String) : Prop :=
  ∃ serviceName registry, s.registries.lookup serviceName = some registry ∧ Retries registry key

/-- No registered server has a delete in `fallbacks_`. -/
def NoTrace (s : St) : Prop := ∀ key, Queued s key → key ∉ s.servers

section Retries

variable {registry registry' : ConsulRegistry.St} {key : String}

theorem retries_of_same (h : registry'.fallbacks = registry.fallbacks) (hr : Retries registry' key) :
    Retries registry key := by
  unfold Retries at hr ⊢
  rwa [h] at hr

theorem not_retries_empty (h : registry.fallbacks = ∅) : ¬ Retries registry key := by
  intro hr
  obtain ⟨name, d, hd, -⟩ := hr
  rw [h] at hd
  simp at hd

theorem retries_insert {name : String} {d : FallBackDetail}
    (h : registry'.fallbacks = registry.fallbacks.insert name d) (hr : Retries registry' key) :
    Retries registry key ∨ (d.type = .unregister ∧ getServerKey d.server = key) := by
  obtain ⟨name', d', hd', ht, hk⟩ := hr
  rw [h, FinMap.lookup_insert_ite] at hd'
  split at hd'
  · cases hd'
    exact .inr ⟨ht, hk⟩
  · exact .inl ⟨name', d', hd', ht, hk⟩

variable {c : ConsulRegistry.Codec}

theorem registerServer_fallbacks (server : Server) :
    (ConsulRegistry.registerServer c registry server).fallbacks = registry.fallbacks := by
  unfold ConsulRegistry.registerServer
  cases c.toJson server with
  | none => rfl
  | some json => dsimp only; split <;> rfl

theorem unregisterServer_fallbacks (server : Server) :
    (ConsulRegistry.unregisterServer registry server).fallbacks = registry.fallbacks := by
  unfold ConsulRegistry.unregisterServer
  split <;> rfl

theorem retry_fallbacks {name : String} (h : ConsulRegistry.retry c registry name = some registry') :
    registry'.fallbacks = registry.fallbacks := by
  unfold ConsulRegistry.retry at h
  split at h
  · cases h
  · dsimp only at h
    split at h
    · cases h; rw [registerServer_fallbacks]
    · cases h; rw [unregisterServer_fallbacks]
    · cases h; rw [(ConsulRegistry.discover_sameNodes _ _).fallbacks]
    · cases h; rw [(ConsulRegistry.getConfig_sameNodes _ _).fallbacks]

theorem retries_deliver {r : ConsulRegistry.Request} {ok : Bool}
    (h : Retries (ConsulRegistry.deliver registry r ok) key) :
    Retries registry key ∨ (ok = false ∧ r.json = none ∧ getServerKey r.server = key) := by
  cases ok with
  | true => exact .inl (retries_of_same rfl h)
  | false =>
    rcases retries_insert rfl h with h | ⟨ht, hk⟩
    · exact .inl h
    · refine .inr ⟨rfl, ?_, hk⟩
      cases hj : r.json with
      | none => rfl
      | some json => simp [ConsulRegistry.Request.type, hj] at ht

/-- A refused delete waits to be sent again. -/
theorem deliver_retries {r : ConsulRegistry.Request} (h : r.json = none) :
    Retries (ConsulRegistry.deliver registry r false) (getServerKey r.server) :=
  ⟨getNodeName r.server, ⟨r.server, r.type⟩, Finmap.lookup_insert _, by simp [ConsulRegistry.Request.type, h], rfl⟩

/-- Only the delivery of a refused delete adds one. -/
theorem retries_step {e : ConsulRegistry.Ev} (h : ConsulRegistry.step c registry e = some registry')
    (hr : Retries registry' key) :
    Retries registry key ∨ ∃ r, e = .deliver r false ∧ r.json = none ∧ getServerKey r.server = key := by
  cases e with
  | registerServer server => cases h; exact .inl (retries_of_same (registerServer_fallbacks server) hr)
  | unregisterServer server => cases h; exact .inl (retries_of_same (unregisterServer_fallbacks server) hr)
  | discover serviceName => cases h; exact .inl (retries_of_same (ConsulRegistry.discover_sameNodes _ _).fallbacks hr)
  | getConfig serviceName => cases h; exact .inl (retries_of_same (ConsulRegistry.getConfig_sameNodes _ _).fallbacks hr)
  | answer r ok =>
    obtain ⟨-, rfl⟩ := guard_some.mp h
    exact .inl (retries_of_same rfl hr)
  | deliver r ok =>
    obtain ⟨-, rfl⟩ := guard_some.mp h
    rcases retries_deliver hr with hr | ⟨rfl, hj, hk⟩
    · exact .inl hr
    · exact .inr ⟨r, rfl, hj, hk⟩
  | deliverNodes serviceName res =>
    obtain ⟨-, rfl⟩ := guard_some.mp h
    cases res with
    | none =>
      rcases retries_insert rfl hr with hr | ⟨ht, -⟩
      · exact .inl hr
      · cases ht
    | some values =>
      refine .inl (retries_of_same ?_ hr)
      simp only [ConsulRegistry.deliverNodes, ConsulRegistry.processDiscover]
      split <;> rfl
  | runNotifyDiscover serviceName servers =>
    obtain ⟨-, rfl⟩ := guard_some.mp h
    refine .inl (retries_of_same ?_ hr)
    unfold ConsulRegistry.notifyDiscover
    split <;> rfl
  | readVersion serviceName res =>
    obtain ⟨-, rfl⟩ := guard_some.mp h
    refine .inl (retries_of_same ?_ hr)
    simp only [ConsulRegistry.readVersion]
    split <;> rfl
  | deliverConfig serviceName version res =>
    obtain ⟨-, rfl⟩ := guard_some.mp h
    cases res with
    | none =>
      rcases retries_insert rfl hr with hr | ⟨ht, -⟩
      · exact .inl hr
      · cases ht
    | some values =>
      refine .inl (retries_of_same ?_ hr)
      simp only [ConsulRegistry.deliverConfig, ConsulRegistry.processConfig]
      split
      · rfl
      · split <;> rfl
  | runQueueConfig serviceName =>
    obtain ⟨-, rfl⟩ := guard_some.mp h
    rcases retries_insert rfl hr with hr | ⟨ht, -⟩
    · exact .inl hr
    · cases ht
  | runNotifyConfig serviceName config items =>
    obtain ⟨-, rfl⟩ := guard_some.mp h
    refine .inl (retries_of_same ?_ hr)
    simp only [ConsulRegistry.notifyConfig]
    split <;> rfl
  | fallback =>
    obtain ⟨-, rfl⟩ := guard_some.mp h
    exact absurd hr (not_retries_empty rfl)
  | retry name => exact .inl (retries_of_same (retry_fallbacks h) hr)
  | subscribe _ | unsubscribe _ | subscribeConfig _ | unsubscribeConfig _ | subscribeConfigItem _ _
  | unsubscribeConfigItem _ _ | enableStatic | disableStatic | pushStaticNodes _ _ | poolGone =>
    cases h
    exact .inl (retries_of_same rfl hr)

end Retries

variable {c : ConsulRegistry.Codec} {s t : St}

theorem queued_getOrCreateRegistry {serviceName key : String} (h : Retries (getOrCreateRegistry s serviceName) key) :
    Queued s key := by
  unfold getOrCreateRegistry at h
  cases hl : s.registries.lookup serviceName with
  | none =>
    rw [hl] at h
    exact absurd h (not_retries_empty rfl)
  | some registry =>
    rw [hl] at h
    exact ⟨serviceName, registry, hl, h⟩

/-- One registry changes. -/
theorem queued_insert {serviceName key : String} {registry : ConsulRegistry.St}
    (ht : t.registries = s.registries.insert serviceName registry) (h : Retries registry key → Queued s key)
    (hq : Queued t key) : Queued s key := by
  obtain ⟨name, registry', hl, hr⟩ := hq
  rw [ht, FinMap.lookup_insert_ite] at hl
  split at hl
  · cases hl
    exact h hr
  · exact ⟨name, registry', hl, hr⟩

theorem queued_registerServer (server : Server) (key : String) :
    Queued (registerServer c s server) key ↔ Queued s key := by
  constructor
  · refine queued_insert rfl fun hr => ?_
    exact queued_getOrCreateRegistry (retries_of_same (registerServer_fallbacks server) hr)
  · intro hq
    obtain ⟨name, registry, hl, hr⟩ := hq
    by_cases hn : name = server.serviceName
    · subst hn
      refine ⟨server.serviceName, _, Finmap.lookup_insert _, ?_⟩
      rw [getOrCreateRegistry, hl]
      exact retries_of_same (registerServer_fallbacks server).symm hr
    · exact ⟨name, registry, by rw [registerServer, FinMap.lookup_insert_ite, if_neg hn, hl], hr⟩

theorem queued_of_registries (h : t.registries = s.registries) {key : String} : Queued t key ↔ Queued s key := by
  unfold Queued
  rw [h]

theorem registerServerSync_registries (server : Server) :
    (registerServerSync c s server).registries = (registerServer c s server).registries := by
  unfold registerServerSync
  cases c.toJson server with
  | none => rfl
  | some json => dsimp only; split <;> rfl

theorem queued_unregisterServer {server : Server} {key : String} (h : Queued (unregisterServer s server) key) :
    Queued s key := by
  unfold unregisterServer at h
  split at h
  · exact h
  · split at h
    · exact h
    · rename_i registry hl
      refine queued_insert rfl (fun hr => ?_) h
      exact ⟨_, registry, hl, retries_of_same (unregisterServer_fallbacks server) hr⟩

theorem queued_unregisterServerSync {server : Server} {key : String}
    (h : Queued (unregisterServerSync s server) key) : Queued s key := by
  unfold unregisterServerSync at h
  split at h
  · exact h
  · split at h
    · exact h
    · rename_i registry hl
      have hsent : Retries (ConsulRegistry.unregisterServer registry server) key → Queued s key := fun hr =>
        ⟨_, registry, hl, retries_of_same (unregisterServer_fallbacks server) hr⟩
      dsimp only at h
      split at h
      · exact queued_insert rfl hsent h
      · exact queued_insert rfl hsent h

theorem queued_unregisterEach {order : List String} {key : String} (h : Queued (unregisterEach s order) key) :
    Queued s key := by
  induction order generalizing s with
  | nil => exact h
  | cons k order ih =>
    unfold unregisterEach at h
    split at h
    · exact ih h
    · split at h
      · exact ih h
      · rename_i w _ _ registry hl
        refine queued_insert rfl (fun hr => ?_) (ih h)
        exact ⟨_, registry, hl, retries_of_same (unregisterServer_fallbacks w.server) hr⟩

/-! ## What every step keeps -/

/-- The lock keeps a server that a `...Sync` call unregisters. -/
structure Held (s : St) : Prop where
  keyed : Keyed s.servers
  sync : ∀ r, s.sync = some (.waiting r) → r.json = none → getServerKey r.server ∈ s.servers

theorem unregisterEach_sync (s : St) (order : List String) : (unregisterEach s order).sync = s.sync := by
  induction order generalizing s with
  | nil => rfl
  | cons k order ih =>
    unfold unregisterEach
    split
    · exact ih s
    · split
      · exact ih s
      · exact ih _

theorem sync_call {e : Ev} (hs : s.sync = none) (h : call c s e = some t) {r : ConsulRegistry.Request}
    (hr : t.sync = some (.waiting r)) (hj : r.json = none) : getServerKey r.server ∈ t.servers := by
  cases e with
  | registerServer server => cases h; simp [registerServer, hs] at hr
  | registerServerSync server =>
    cases h
    unfold registerServerSync at hr
    split at hr
    · simp [registerServer, hs] at hr
    · dsimp only at hr
      split at hr
      · cases hr
        cases hj
      · simp [registerServer, hs] at hr
  | unregisterServer server =>
    cases h
    unfold unregisterServer at hr
    split at hr
    · simp [hs] at hr
    · split at hr <;> simp [hs] at hr
  | unregisterServerSync server =>
    cases h
    rw [unregisterServerSync_servers]
    unfold unregisterServerSync at hr
    split at hr
    · simp [hs] at hr
    · rename_i hmem
      split at hr
      · simp [hs] at hr
      · dsimp only at hr
        split at hr
        · cases hr
          exact not_not.mp hmem
        · simp [hs] at hr
  | unregisterAll order =>
    obtain ⟨-, rfl⟩ := guard_some.mp h
    simp [unregisterAll, unregisterEach_sync, hs] at hr
  | changeServer server change => cases h; simp [changeServer, hs] at hr
  | setServiceStatus serviceName status => cases h; simp [setServiceStatus, hs] at hr
  | heartbeat key now =>
    obtain ⟨w, -, rfl⟩ := heartbeat_some h
    simp [registerServer, hs] at hr
  | createRegistry _ | registry _ _ | deliverSync _ | returnSync => cases h

theorem Held.step {e : Ev} (hs : Held s) (h : Router.step c s e = some t) : Held t := by
  refine ⟨hs.keyed.writes (writes_step h), ?_⟩
  intro r hr hj
  rcases step_cases h with ⟨hfree, hcall⟩ | ⟨name, rfl, rfl⟩ | ⟨name, e, rfl, hreg⟩ | ⟨ok, rfl, hdel⟩ | ⟨rfl, hret⟩
  · exact sync_call hfree hcall hr hj
  · exact hs.sync r hr hj
  · obtain ⟨_, _, -, -, rfl⟩ := registryStep_some hreg
    exact hs.sync r hr hj
  · obtain ⟨_, _, -, -, rfl⟩ := deliverSync_some hdel
    cases hr
  · rw [(returnSync_some hret).2.1] at hr
    cases hr

theorem mem_addServer {servers : Servers} {server : Server} {key : String} :
    key ∈ addServer servers server ↔ getServerKey server = key ∨ key ∈ servers := by
  simp [addServer]

/-- Only a registration adds a key. -/
theorem mem_of_writes {e : Ev} {servers : Servers} (hs : Keyed s.servers) (h : Writes s e servers) {key : String}
    (hk : key ∈ servers) :
    key ∈ s.servers ∨
      ∃ server, (e = .registerServer server ∨ e = .registerServerSync server) ∧ getServerKey server = key := by
  simp only [ExtTreeMap.mem_iff_isSome_getElem?, Option.isSome_iff_exists] at hk ⊢
  obtain ⟨w, hw⟩ := hk
  cases h with
  | register server =>
    rw [getElem?_addServer] at hw
    split at hw
    · exact .inr ⟨server, .inl rfl, ‹_ ∧ _›.1⟩
    · exact .inl ⟨w, hw⟩
  | registerSync server =>
    rw [getElem?_addServer] at hw
    split at hw
    · exact .inr ⟨server, .inr rfl, ‹_ ∧ _›.1⟩
    · exact .inl ⟨w, hw⟩
  | change server change =>
    rw [getElem?_changeServer] at hw
    split at hw
    · obtain ⟨w₀, hw₀, -⟩ := Option.map_eq_some_iff.mp hw
      exact .inl ⟨w₀, hw₀⟩
    · exact .inl ⟨w, hw⟩
  | status serviceName status =>
    rw [getElem?_setServiceStatus] at hw
    obtain ⟨w₀, hw₀, -⟩ := Option.map_eq_some_iff.mp hw
    exact .inl ⟨w₀, hw₀⟩
  | beat now hw₀ =>
    rw [getElem?_beat hs hw₀] at hw
    split at hw
    · rename_i hk
      subst hk
      exact .inl ⟨_, hw₀⟩
    · exact .inl ⟨w, hw⟩
  | drop hdrop _ => exact .inl ⟨w, hdrop key w hw⟩

/-! ## Which steps leave a trace -/

/-- The delivery of a refused delete. -/
inductive Refuses (s : St) : Ev → ConsulRegistry.Request → Prop
  | async (serviceName : String) {r : ConsulRegistry.Request} : r.json = none →
      Refuses s (.registry serviceName (.deliver r false)) r
  | sync {r : ConsulRegistry.Request} : s.sync = some (.waiting r) → r.json = none → Refuses s (.deliverSync false) r

theorem queued_call {e : Ev} (h : call c s e = some t) {key : String} (hq : Queued t key) : Queued s key := by
  cases e with
  | registerServer server => cases h; exact (queued_registerServer server key).mp hq
  | registerServerSync server =>
    cases h
    exact (queued_registerServer server key).mp ((queued_of_registries (registerServerSync_registries server)).mp hq)
  | unregisterServer server => cases h; exact queued_unregisterServer hq
  | unregisterServerSync server => cases h; exact queued_unregisterServerSync hq
  | unregisterAll order =>
    obtain ⟨-, rfl⟩ := guard_some.mp h
    exact queued_unregisterEach hq
  | changeServer server change => cases h; exact hq
  | setServiceStatus serviceName status => cases h; exact hq
  | heartbeat key now =>
    obtain ⟨w, -, rfl⟩ := heartbeat_some h
    exact (queued_registerServer _ _).mp hq
  | createRegistry _ | registry _ _ | deliverSync _ | returnSync => cases h

/-- Only a refused delete is queued. -/
theorem queued_step {e : Ev} (h : step c s e = some t) {key : String} (hq : Queued t key) :
    Queued s key ∨ ∃ r, Refuses s e r ∧ getServerKey r.server = key := by
  rcases step_cases h with ⟨-, hcall⟩ | ⟨name, rfl, rfl⟩ | ⟨name, e, rfl, hreg⟩ | ⟨ok, rfl, hdel⟩ | ⟨rfl, hret⟩
  · exact .inl (queued_call hcall hq)
  · exact .inl (queued_insert rfl queued_getOrCreateRegistry hq)
  · obtain ⟨registry, registry', hl, hstep, rfl⟩ := registryStep_some hreg
    by_cases hr : Retries registry' key
    · rcases retries_step hstep hr with hr | ⟨r, rfl, hj, hk⟩
      · exact .inl ⟨name, registry, hl, hr⟩
      · exact .inr ⟨r, .async name hj, hk⟩
    · exact .inl (queued_insert rfl (fun h => absurd h hr) hq)
  · obtain ⟨r, registry, hsync, hl, rfl⟩ := deliverSync_some hdel
    by_cases hr : Retries (ConsulRegistry.deliver registry r ok) key
    · rcases retries_deliver hr with hr | ⟨rfl, hj, hk⟩
      · exact .inl ⟨_, registry, hl, hr⟩
      · exact .inr ⟨r, .sync hsync hj, hk⟩
    · exact .inl (queued_insert rfl (fun h => absurd h hr) hq)
  · exact .inl ((queued_of_registries (returnSync_some hret).1).mp hq)

/-- A refused delete is queued, and no server is dropped with it. -/
theorem queued_of_refuses {e : Ev} (h : step c s e = some t) {r : ConsulRegistry.Request} (hr : Refuses s e r) :
    Queued t (getServerKey r.server) ∧ t.servers = s.servers := by
  cases hr with
  | async serviceName hj =>
    have hreg : registryStep c s serviceName (.deliver r false) = some t := h
    obtain ⟨registry, registry', hl, hstep, rfl⟩ := registryStep_some hreg
    obtain ⟨-, rfl⟩ := guard_some.mp hstep
    exact ⟨⟨serviceName, _, Finmap.lookup_insert _, deliver_retries hj⟩, rfl⟩
  | sync hsync hj =>
    obtain ⟨r', registry, hsync', hl, rfl⟩ := deliverSync_some h
    rw [hsync] at hsync'
    cases hsync'
    exact ⟨⟨_, _, Finmap.lookup_insert _, deliver_retries hj⟩, rfl⟩

/-- The condition on each step: a server is added only while none of its deletes is queued,
    a refused delete is delivered only while its server is not registered, and consul does
    not refuse the delete of `unregisterServerSync`. -/
def Untraced (s : St) : Ev → Prop
  | .registerServer server => getServerKey server ∉ s.servers → ¬ Queued s (getServerKey server)
  | .registerServerSync server => getServerKey server ∉ s.servers → ¬ Queued s (getServerKey server)
  | .registry _ (.deliver r false) => r.json = none → getServerKey r.server ∉ s.servers
  | .deliverSync false => ∀ r, s.sync = some (.waiting r) → r.json ≠ none
  | _ => True

/-- A refused delete that keeps to the condition is not of a registered server. -/
theorem Untraced.refuses {e : Ev} (h : Untraced s e) {r : ConsulRegistry.Request} (hr : Refuses s e r) :
    getServerKey r.server ∉ s.servers := by
  cases hr with
  | async serviceName hj => exact h hj
  | sync hsync hj => exact absurd hj (h r hsync)

theorem noTrace_of_untraced {e : Ev} (hs : Held s) (hn : NoTrace s) (h : step c s e = some t) (hok : Untraced s e) :
    NoTrace t := by
  intro key hq hk
  have hkey := mem_of_writes hs.keyed (writes_step h) hk
  rcases queued_step h hq with hq | ⟨r, hr, rfl⟩
  · rcases hkey with hk | ⟨server, he, rfl⟩
    · exact hn key hq hk
    · by_cases hmem : getServerKey server ∈ s.servers
      · exact hn _ hq hmem
      · rcases he with rfl | rfl
        · exact hok hmem hq
        · exact hok hmem hq
  · rcases hkey with hk | ⟨server, rfl | rfl, -⟩
    · exact hok.refuses hr hk
    · cases hr
    · cases hr

/-- A registration of a new server puts it beside the deletes that are queued. -/
theorem untraced_register {server : Server} (hq : ∀ key, Queued s key → Queued t key)
    (hservers : t.servers = addServer s.servers server) (ht : NoTrace t) : ¬ Queued s (getServerKey server) := by
  intro hqs
  refine ht _ (hq _ hqs) ?_
  rw [hservers, mem_addServer]
  exact .inl rfl

theorem untraced_of_noTrace {e : Ev} (hs : Held s) (h : step c s e = some t) (ht : NoTrace t) : Untraced s e := by
  have hcalled : ∀ {e : Ev}, (if s.sync = none then call c s e else none) = some t → call c s e = some t :=
    fun h => (Option.ite_none_right_eq_some.mp h).2
  have hrefused : ∀ {r : ConsulRegistry.Request}, Refuses s e r → getServerKey r.server ∉ s.servers := by
    intro r hr
    obtain ⟨hq, hsame⟩ := queued_of_refuses h hr
    exact hsame ▸ ht _ hq
  unfold Untraced
  split
  · cases hcalled h
    exact fun _ => untraced_register (fun key => (queued_registerServer _ key).mpr) rfl ht
  · cases hcalled h
    refine fun _ => untraced_register (fun key hq => ?_) (registerServerSync_servers _) ht
    exact (queued_of_registries (registerServerSync_registries _)).mpr ((queued_registerServer _ key).mpr hq)
  · exact fun hj => hrefused (.async _ hj)
  · intro r hsync hj
    exact hrefused (.sync hsync hj) (hs.sync r hsync hj)
  · trivial

theorem not_queued_init (key : String) : ¬ Queued {} key := by
  intro hq
  obtain ⟨name, registry, hl, -⟩ := hq
  simp at hl

/-- In a run, no state has a registered server with a delete in `fallbacks_` iff all steps
    meet the condition. -/
theorem no_trace_iff (c : ConsulRegistry.Codec) {es : List Ev} {t : St} (hr : run (step c) {} es = some t) :
    (∀ es₁ es₂ u, es = es₁ ++ es₂ → run (step c) {} es₁ = some u → NoTrace u) ↔ Meets (step c) Untraced {} es := by
  have hheld : Held {} := ⟨fun key w hw => by simp at hw, fun r hsync => by cases hsync⟩
  have hnone : NoTrace {} := fun key hq => absurd hq (not_queued_init key)
  refine prefixes_iff_meets (step c) Untraced Held NoTrace (fun _ _ _ hs h => hs.step h) ?_ hheld hnone hr
  intro s t e hs hn h
  exact ⟨untraced_of_noTrace hs h, noTrace_of_untraced hs hn h⟩

/-- A server that is no longer registered, whose delete consul refuses. -/
def refusedDelete : List Ev :=
  [.registerServer ConsulRegistry.plainServer, .unregisterServer ConsulRegistry.plainServer,
   .registry "predictor" (.answer ⟨ConsulRegistry.plainServer, none⟩ false),
   .registry "predictor" (.deliver ⟨ConsulRegistry.plainServer, none⟩ false)]

/-- The delete is sent again, and consul takes it. -/
def sentAgain : List Ev :=
  [.registry "predictor" .fallback, .registry "predictor" (.retry (getNodeName ConsulRegistry.plainServer)),
   .registry "predictor" (.answer ⟨ConsulRegistry.plainServer, none⟩ true),
   .registry "predictor" (.deliver ⟨ConsulRegistry.plainServer, none⟩ true)]

theorem no_trace_iff_sent_again :
    ∃ t u, run (step ConsulRegistry.plainCodec) {} (refusedDelete ++ sentAgain) = some t ∧
      run (step ConsulRegistry.plainCodec) {} refusedDelete = some u ∧
      Queued u (getServerKey ConsulRegistry.plainServer) ∧
      ∀ es₁ es₂ u, refusedDelete ++ sentAgain = es₁ ++ es₂ →
        run (step ConsulRegistry.plainCodec) {} es₁ = some u → NoTrace u := by
  have hrun : (run (step ConsulRegistry.plainCodec) {} (refusedDelete ++ sentAgain)).isSome := by decide
  have hqueued : (run (step ConsulRegistry.plainCodec) {} refusedDelete).any fun u =>
      (u.registries.lookup "predictor").any fun registry =>
        registry.fallbacks.lookup (getNodeName ConsulRegistry.plainServer) =
          some ⟨ConsulRegistry.plainServer, .unregister⟩ := by decide
  have hgone : (run (step ConsulRegistry.plainCodec) {} (refusedDelete.take 3)).all fun u =>
      getServerKey ConsulRegistry.plainServer ∉ u.servers := by decide
  obtain ⟨t, ht⟩ := Option.isSome_iff_exists.mp hrun
  obtain ⟨u, hu, hq⟩ := (Option.any_eq_true _ _).mp hqueued
  simp only [decide_eq_true_eq, Option.any_eq_true] at hq
  obtain ⟨registry, hl, hd⟩ := hq
  refine ⟨t, u, ht, hu, ⟨"predictor", registry, hl, _, _, hd, rfl, rfl⟩,
    (no_trace_iff ConsulRegistry.plainCodec ht).mpr ?_⟩
  refine ⟨fun _ => not_queued_init _, fun u₁ h₁ => ⟨trivial, fun u₂ h₂ => ⟨trivial, fun u₃ h₃ => ⟨fun _ => ?_, ?_⟩⟩⟩⟩
  · have hthree : run (step ConsulRegistry.plainCodec) {} (refusedDelete.take 3) = some u₃ :=
      (run_cons_some _).mpr ⟨u₁, h₁, (run_cons_some _).mpr ⟨u₂, h₂, (run_cons_some _).mpr ⟨u₃, h₃, rfl⟩⟩⟩
    rw [hthree] at hgone
    exact of_decide_eq_true hgone
  · exact fun _ _ => ⟨trivial, fun _ _ => ⟨trivial, fun _ _ => ⟨trivial, fun _ _ => ⟨trivial, fun _ _ => trivial⟩⟩⟩⟩

/-- `unregisterServerSync` of a server that has just been registered; consul refuses the delete. -/
def syncUnregistered : List Ev :=
  [.registerServer ConsulRegistry.plainServer, .unregisterServerSync ConsulRegistry.plainServer,
   .registry "predictor" (.answer ⟨ConsulRegistry.plainServer, none⟩ false), .deliverSync false, .returnSync]

/-- The call has returned false and kept the server, and the registry will delete it. -/
theorem refused_sync_is_sent_again :
    ¬ ∀ (es : List Ev) (t : St), run (step ConsulRegistry.plainCodec) {} es = some t → NoTrace t := by
  intro h
  have hrun : (run (step ConsulRegistry.plainCodec) {} syncUnregistered).any fun t =>
      getServerKey ConsulRegistry.plainServer ∈ t.servers &&
        (t.registries.lookup "predictor").any fun registry =>
          registry.fallbacks.lookup (getNodeName ConsulRegistry.plainServer) =
            some ⟨ConsulRegistry.plainServer, .unregister⟩ := by
    decide
  obtain ⟨t, ht, hbad⟩ := (Option.any_eq_true _ _).mp hrun
  simp only [Bool.and_eq_true, decide_eq_true_eq, Option.any_eq_true] at hbad
  obtain ⟨hmem, registry, hl, hd⟩ := hbad
  exact h _ t ht _ ⟨"predictor", registry, hl, _, _, hd, rfl, rfl⟩ hmem

end PredictorService.ServiceRouter.Router
