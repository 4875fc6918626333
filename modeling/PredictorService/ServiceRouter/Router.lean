/-
  PredictorService.ServiceRouter.Router — the servers a process has registered
  (service_router/router.cc, class `Router`, and `ServerWithHeartbeat` of
  service_router/service_info_puller.{h,cc}).

  `servers_` keeps a copy of every registered server with a heartbeat timer, and each
  service has a registry (`PredictorService.ServiceRouter.Registry`). Every call holds the
  write lock of `servers_`. A `...Sync` call holds it until its response has been delivered
  (`sync`), and meanwhile only the registries move. A heartbeat is one event: the callback
  with its `registerServer`. The lock itself, and the threads that wait for it, are in
  `PredictorService.ServiceRouter.HeartbeatLock`.

  Timers, the config that gives a heartbeat its interval, and logs are left out.
-/

import Mathlib.Data.String.Basic
import Mathlib.Tactic.Linarith.Datatypes
import PredictorService.Lib.Runs
import PredictorService.ServiceRouter.Registry

namespace PredictorService.ServiceRouter.Router

open Std (ExtTreeMap)
open PredictorService.Lib (FinMap)

/-! ## A server with its heartbeat -/

structure ServerWithHeartbeat where
  server : Server
  isPause : Bool := false
  deriving DecidableEq

/-- A call of one of the setters of `Router`, which all set a member of the stored copy. -/
inductive Change where
  | setStatus (status : ServerStatus)
  | setWeight (weight : Int32)
  | setIdc (idc : String)
  | setDc (dc : String)
  | setShardList (shardList : List UInt32)
  | setAvailableShardList (shardList : List UInt32)
  | setFollowerShardList (shardList : List UInt32)
  | setFollowerAvailableShardList (shardList : List UInt32)
  | setOtherSettings (otherSettings : FinMap String String)
  | setOtherSetting (key value : String)
  | setIsEdgeNode (isEdgeNode : Bool)
  | setPartitionList (partitionList : List Int64)
  deriving DecidableEq

def Change.apply (server : Server) : Change → Server
  | .setStatus status => { server with status }
  | .setWeight weight => { server with weight }
  | .setIdc idc => { server with idc }
  | .setDc dc => { server with dc }
  | .setShardList shardList => { server with shardList }
  | .setAvailableShardList shardList => { server with availableShardList := shardList }
  | .setFollowerShardList shardList => { server with followerShardList := shardList }
  | .setFollowerAvailableShardList shardList => { server with followerAvailableShardList := shardList }
  | .setOtherSettings otherSettings => { server with otherSettings }
  | .setOtherSetting key value => { server with otherSettings := server.otherSettings.insert key value }
  | .setIsEdgeNode isEdgeNode => { server with isEdgeNode }
  | .setPartitionList partitionList => { server with partitionList }

/-- Only an available server gets a new update time. -/
def ServerWithHeartbeat.setStatus (w : ServerWithHeartbeat) (status : ServerStatus) : ServerWithHeartbeat where
  server := { w.server with status }
  isPause := status ≠ .available

def ServerWithHeartbeat.change (w : ServerWithHeartbeat) : Change → ServerWithHeartbeat
  | .setStatus status => w.setStatus status
  | c => { w with server := c.apply w.server }

@[simp] theorem change_server (w : ServerWithHeartbeat) (c : Change) : (w.change c).server = c.apply w.server := by
  cases c <;> rfl

/-- The callback of the timer, up to `registerServer`. -/
def ServerWithHeartbeat.beat (w : ServerWithHeartbeat) (now : UInt64) : ServerWithHeartbeat :=
  if w.isPause then w else { w with server := { w.server with updateTime := now } }

/-! ## The router -/

def getServerKey (server : Server) : String := server.serviceName ++ server.host ++ toString server.port.toNat

theorem getServerKey_change (w : ServerWithHeartbeat) (change : Change) :
    getServerKey (w.change change).server = getServerKey w.server := by
  rw [change_server]
  cases change <;> rfl

theorem getServerKey_beat (w : ServerWithHeartbeat) (now : UInt64) :
    getServerKey (w.beat now).server = getServerKey w.server := by
  unfold ServerWithHeartbeat.beat
  split <;> rfl

/-- What a `...Sync` call waits for under the lock, and the answer it got. -/
inductive Sync where
  | waiting (r : ConsulRegistry.Request)
  | answered (r : ConsulRegistry.Request) (ok : Bool)
  deriving DecidableEq

abbrev Servers := ExtTreeMap String ServerWithHeartbeat

structure St where
  servers : Servers := ∅
  registries : FinMap String ConsulRegistry.St := ∅
  sync : Option Sync := none
  /-- What heartbeats called the registry with, latest first. -/
  beats : List Server := []

variable (c : ConsulRegistry.Codec)

/-- A registry is created without requests. -/
def getOrCreateRegistry (s : St) (serviceName : String) : ConsulRegistry.St := (s.registries.lookup serviceName).getD {}

/-- A server that is there keeps its copy. -/
def addServer (servers : Servers) (server : Server) : Servers := servers.insertIfNew (getServerKey server) { server }

theorem getElem?_addServer (servers : Servers) (server : Server) (key : String) :
    (addServer servers server)[key]? =
      if getServerKey server = key ∧ key ∉ servers then some { server } else servers[key]? := by
  rw [addServer, ExtTreeMap.getElem?_insertIfNew]
  simp only [Std.compare_eq_iff_eq]
  by_cases hk : getServerKey server = key
  · subst hk
    rfl
  · simp [hk]

def registerServer (s : St) (server : Server) : St :=
  { s with
    servers := addServer s.servers server
    registries := s.registries.insert server.serviceName
      (ConsulRegistry.registerServer c (getOrCreateRegistry s server.serviceName) server) }

/-- The registry sends nothing for a server without JSON or service name, or when its pool
    is gone. -/
def registerServerSync (s : St) (server : Server) : St :=
  let t := registerServer c s server
  match c.toJson server with
  | none => t
  | some json =>
    if ConsulRegistry.checkServerValid server ∧ (getOrCreateRegistry s server.serviceName).pool then
      { t with sync := some (.waiting ⟨server, some json⟩) }
    else t

def unregisterServer (s : St) (server : Server) : St :=
  if getServerKey server ∉ s.servers then s
  else
    match s.registries.lookup server.serviceName with
    | none => s
    | some registry =>
      { s with
        registries := s.registries.insert server.serviceName (ConsulRegistry.unregisterServer registry server)
        servers := s.servers.erase (getServerKey server) }

def unregisterServerSync (s : St) (server : Server) : St :=
  if getServerKey server ∉ s.servers then s
  else
    match s.registries.lookup server.serviceName with
    | none => s
    | some registry =>
      let t := { s with
        registries := s.registries.insert server.serviceName (ConsulRegistry.unregisterServer registry server) }
      if ConsulRegistry.checkServerValid server ∧ registry.pool then
        { t with sync := some (.waiting ⟨server, none⟩) }
      else t

/-- The loop of `unregisterAll` over the keys of `servers_`, in some order. -/
def unregisterEach (s : St) : List String → St
  | [] => s
  | key :: keys =>
    match s.servers[key]? with
    | none => unregisterEach s keys
    | some w =>
      match s.registries.lookup w.server.serviceName with
      | none => unregisterEach s keys
      | some registry =>
        unregisterEach
          { s with
            registries := s.registries.insert w.server.serviceName
              (ConsulRegistry.unregisterServer registry w.server) }
          keys

def unregisterAll (s : St) (order : List String) : St := { unregisterEach s order with servers := ∅ }

def changeServer (s : St) (server : Server) (change : Change) : St :=
  { s with servers := s.servers.alter (getServerKey server) (Option.map fun w => w.change change) }

def setServiceStatus (s : St) (serviceName : String) (status : ServerStatus) : St :=
  { s with servers := s.servers.map fun _ w => if w.server.serviceName = serviceName then w.setStatus status else w }

def heartbeat (s : St) (key : String) (now : UInt64) : Option St :=
  match s.servers[key]? with
  | none => none
  | some w =>
    let w := w.beat now
    let s := { s with servers := s.servers.insert key w, beats := w.server :: s.beats }
    some (registerServer c s w.server)

/-! ## The machine -/

/-- Events of a registry that are not calls of the router. -/
def internal : ConsulRegistry.Ev → Bool
  | .registerServer _ => false
  | .unregisterServer _ => false
  | _ => true

inductive Ev where
  | registerServer (server : Server)
  | registerServerSync (server : Server)
  | unregisterServer (server : Server)
  | unregisterServerSync (server : Server)
  | unregisterAll (order : List String)
  | changeServer (server : Server) (change : Change)
  | setServiceStatus (serviceName : String) (status : ServerStatus)
  | heartbeat (key : String) (now : UInt64)
  | createRegistry (serviceName : String)
  | registry (serviceName : String) (e : ConsulRegistry.Ev)
  /-- The response of the `...Sync` call is delivered, and the call returns later. -/
  | deliverSync (ok : Bool)
  | returnSync
  deriving DecidableEq

/-- The request is sent and its response has not been delivered. -/
def inFlight (registry : ConsulRegistry.St) (r : ConsulRegistry.Request) : Bool :=
  registry.requests.contains r || registry.responses.contains (r, true) || registry.responses.contains (r, false)

/-- The response that the `...Sync` call waits for is left to `deliverSync`. -/
def registryStep (s : St) (serviceName : String) (e : ConsulRegistry.Ev) : Option St :=
  match s.registries.lookup serviceName with
  | none => none
  | some registry =>
    match ConsulRegistry.step c registry e with
    | none => none
    | some registry =>
      let t := { s with registries := s.registries.insert serviceName registry }
      match s.sync with
      | some (.waiting r) => if r.server.serviceName = serviceName ∧ !inFlight registry r then none else some t
      | _ => some t

def deliverSync (s : St) (ok : Bool) : Option St :=
  match s.sync with
  | some (.waiting r) =>
    match s.registries.lookup r.server.serviceName with
    | none => none
    | some registry =>
      if registry.responses.contains (r, ok) then
        some { s with
          registries := s.registries.insert r.server.serviceName (ConsulRegistry.deliver registry r ok)
          sync := some (.answered r ok) }
      else none
  | _ => none

/-- An unregistered server is erased when consul has answered true. -/
def returnSync (s : St) : Option St :=
  match s.sync with
  | some (.answered r ok) =>
    let servers := if r.json = none ∧ ok then s.servers.erase (getServerKey r.server) else s.servers
    some { s with servers, sync := none }
  | _ => none

/-- A call that takes the lock. -/
def call (s : St) : Ev → Option St
  | .registerServer server => some (registerServer c s server)
  | .registerServerSync server => some (registerServerSync c s server)
  | .unregisterServer server => some (unregisterServer s server)
  | .unregisterServerSync server => some (unregisterServerSync s server)
  | .unregisterAll order => if order.Perm s.servers.keys then some (unregisterAll s order) else none
  | .changeServer server change => some (changeServer s server change)
  | .setServiceStatus serviceName status => some (setServiceStatus s serviceName status)
  | .heartbeat key now => heartbeat c s key now
  | _ => none

def step (s : St) : Ev → Option St
  | .createRegistry serviceName =>
    some { s with registries := s.registries.insert serviceName (getOrCreateRegistry s serviceName) }
  | .registry serviceName e => if internal e then registryStep c s serviceName e else none
  | .deliverSync ok => deliverSync s ok
  | .returnSync => returnSync s
  | e => if s.sync = none then call c s e else none

/-! ## What a step does to the servers -/

/-- Events that write to a server or add one. -/
def Ev.isWrite : Ev → Bool
  | .registerServer _ => true
  | .registerServerSync _ => true
  | .changeServer _ _ => true
  | .setServiceStatus _ _ => true
  | .heartbeat _ _ => true
  | _ => false

/-- The servers after a step. -/
inductive Writes (s : St) : Ev → Servers → Prop
  | register (server : Server) : Writes s (.registerServer server) (addServer s.servers server)
  | registerSync (server : Server) : Writes s (.registerServerSync server) (addServer s.servers server)
  | change (server : Server) (change : Change) :
      Writes s (.changeServer server change) (changeServer s server change).servers
  | status (serviceName : String) (status : ServerStatus) :
      Writes s (.setServiceStatus serviceName status) (setServiceStatus s serviceName status).servers
  | beat {key : String} {w : ServerWithHeartbeat} (now : UInt64) : s.servers[key]? = some w →
      Writes s (.heartbeat key now) (addServer (s.servers.insert key (w.beat now)) (w.beat now).server)
  /-- Any other event only drops servers. -/
  | drop {e : Ev} {servers : Servers} :
      (∀ (key : String) (w : ServerWithHeartbeat), servers[key]? = some w → s.servers[key]? = some w) →
      e.isWrite = false →
      Writes s e servers

variable {c} {s t : St}

theorem registerServerSync_servers (server : Server) :
    (registerServerSync c s server).servers = addServer s.servers server := by
  unfold registerServerSync
  cases c.toJson server with
  | none => rfl
  | some json => dsimp only; split <;> rfl

theorem unregisterServer_servers {server : Server} {key : String} {w : ServerWithHeartbeat}
    (h : (unregisterServer s server).servers[key]? = some w) : s.servers[key]? = some w := by
  unfold unregisterServer at h
  split at h
  · exact h
  · split at h
    · exact h
    · rw [ExtTreeMap.getElem?_erase] at h
      split at h
      · cases h
      · exact h

theorem unregisterServerSync_servers (server : Server) : (unregisterServerSync s server).servers = s.servers := by
  unfold unregisterServerSync
  split
  · rfl
  · split
    · rfl
    · dsimp only; split <;> rfl

theorem heartbeat_some {key : String} {now : UInt64} (h : heartbeat c s key now = some t) :
    ∃ w, s.servers[key]? = some w ∧
      t = registerServer c
        { s with servers := s.servers.insert key (w.beat now), beats := (w.beat now).server :: s.beats }
        (w.beat now).server := by
  unfold heartbeat at h
  split at h
  · cases h
  · cases h
    exact ⟨_, ‹_›, rfl⟩

theorem registryStep_some {serviceName : String} {e : ConsulRegistry.Ev}
    (h : registryStep c s serviceName e = some t) :
    ∃ registry registry', s.registries.lookup serviceName = some registry ∧
      ConsulRegistry.step c registry e = some registry' ∧
      t = { s with registries := s.registries.insert serviceName registry' } := by
  unfold registryStep at h
  split at h
  · cases h
  · rename_i registry hl
    split at h
    · cases h
    · rename_i registry' hstep
      refine ⟨registry, registry', hl, hstep, ?_⟩
      dsimp only at h
      split at h
      · split at h
        · cases h
        · cases h; rfl
      · cases h; rfl

theorem deliverSync_some {ok : Bool} (h : deliverSync s ok = some t) :
    ∃ r registry, s.sync = some (.waiting r) ∧ s.registries.lookup r.server.serviceName = some registry ∧
      t = { s with
        registries := s.registries.insert r.server.serviceName (ConsulRegistry.deliver registry r ok)
        sync := some (.answered r ok) } := by
  unfold deliverSync at h
  split at h
  · rename_i r hr
    split at h
    · cases h
    · rename_i registry hl
      obtain ⟨-, rfl⟩ := Lib.guard_some.mp h
      exact ⟨r, registry, hr, hl, rfl⟩
  · cases h

theorem returnSync_some (h : returnSync s = some t) :
    t.registries = s.registries ∧ t.sync = none ∧
      ∀ (key : String) (w : ServerWithHeartbeat), t.servers[key]? = some w → s.servers[key]? = some w := by
  unfold returnSync at h
  split at h
  · cases h
    refine ⟨rfl, rfl, ?_⟩
    intro key w hw
    dsimp only at hw
    split at hw
    · rw [ExtTreeMap.getElem?_erase] at hw
      split at hw
      · cases hw
      · exact hw
    · exact hw
  · cases h

/-- A step is a call that takes the free lock, or it needs no lock. -/
theorem step_cases {e : Ev} (h : step c s e = some t) :
    (s.sync = none ∧ call c s e = some t) ∨
    (∃ serviceName, e = .createRegistry serviceName ∧
      t = { s with registries := s.registries.insert serviceName (getOrCreateRegistry s serviceName) }) ∨
    (∃ serviceName e', e = .registry serviceName e' ∧ registryStep c s serviceName e' = some t) ∨
    (∃ ok, e = .deliverSync ok ∧ deliverSync s ok = some t) ∨
    (e = .returnSync ∧ returnSync s = some t) := by
  cases e with
  | createRegistry serviceName =>
    cases h
    exact .inr (.inl ⟨serviceName, rfl, rfl⟩)
  | registry serviceName e =>
    obtain ⟨-, h⟩ := Option.ite_none_right_eq_some.mp h
    exact .inr (.inr (.inl ⟨serviceName, e, rfl, h⟩))
  | deliverSync ok => exact .inr (.inr (.inr (.inl ⟨ok, rfl, h⟩)))
  | returnSync => exact .inr (.inr (.inr (.inr ⟨rfl, h⟩)))
  | _ => exact .inl (Option.ite_none_right_eq_some.mp h)

theorem writes_call {e : Ev} (h : call c s e = some t) : Writes s e t.servers := by
  cases e with
  | registerServer server => cases h; exact .register server
  | registerServerSync server =>
    cases h
    rw [registerServerSync_servers]
    exact .registerSync server
  | unregisterServer server =>
    cases h
    exact .drop (fun _ _ hw => unregisterServer_servers hw) rfl
  | unregisterServerSync server =>
    cases h
    exact .drop (fun _ _ hw => unregisterServerSync_servers server ▸ hw) rfl
  | unregisterAll order =>
    obtain ⟨-, rfl⟩ := Lib.guard_some.mp h
    exact .drop (fun _ _ hw => by simp [unregisterAll] at hw) rfl
  | changeServer server change => cases h; exact .change server change
  | setServiceStatus serviceName status => cases h; exact .status serviceName status
  | heartbeat key now =>
    obtain ⟨w, hw, rfl⟩ := heartbeat_some h
    exact .beat now hw
  | createRegistry _ | registry _ _ | deliverSync _ | returnSync => cases h

theorem writes_step {e : Ev} (h : step c s e = some t) : Writes s e t.servers := by
  rcases step_cases h with ⟨-, hcall⟩ | ⟨name, rfl, rfl⟩ | ⟨name, e, rfl, hreg⟩ | ⟨ok, rfl, hdel⟩ | ⟨rfl, hret⟩
  · exact writes_call hcall
  · exact .drop (fun _ _ hw => hw) rfl
  · obtain ⟨_, _, -, -, rfl⟩ := registryStep_some hreg
    exact .drop (fun _ _ hw => hw) rfl
  · obtain ⟨_, _, -, -, rfl⟩ := deliverSync_some hdel
    exact .drop (fun _ _ hw => hw) rfl
  · exact .drop (returnSync_some hret).2.2 rfl

/-! ## Keys -/

/-- Every copy is under its own key. -/
def Keyed (servers : Servers) : Prop :=
  ∀ (key : String) (w : ServerWithHeartbeat), servers[key]? = some w → getServerKey w.server = key

theorem getElem?_changeServer (server : Server) (change : Change) (key : String) :
    (changeServer s server change).servers[key]? =
      if getServerKey server = key then s.servers[key]?.map (·.change change) else s.servers[key]? := by
  simp only [changeServer, ExtTreeMap.getElem?_alter, Std.compare_eq_iff_eq]
  by_cases hk : getServerKey server = key
  · subst hk
    rfl
  · simp [hk]

theorem getElem?_setServiceStatus (serviceName : String) (status : ServerStatus) (key : String) :
    (setServiceStatus s serviceName status).servers[key]? =
      s.servers[key]?.map fun w => if w.server.serviceName = serviceName then w.setStatus status else w := by
  simp only [setServiceStatus, ExtTreeMap.getElem?_map]

/-- The copy is there, so the `registerServer` of its heartbeat adds none. -/
theorem getElem?_beat (hs : Keyed s.servers) {key : String} {w : ServerWithHeartbeat}
    (hw : s.servers[key]? = some w) (now : UInt64) (k : String) :
    (addServer (s.servers.insert key (w.beat now)) (w.beat now).server)[k]? =
      if key = k then some (w.beat now) else s.servers[k]? := by
  have hno : ¬ (key = k ∧ k ∉ s.servers.insert key (w.beat now)) := by
    intro hc
    obtain ⟨rfl, hk⟩ := hc
    simp at hk
  rw [getElem?_addServer, getServerKey_beat, hs key w hw, if_neg hno, ExtTreeMap.getElem?_insert]
  simp only [Std.compare_eq_iff_eq]

theorem Keyed.writes {e : Ev} {servers : Servers} (hs : Keyed s.servers) (h : Writes s e servers) : Keyed servers := by
  have hadd : ∀ server, Keyed (addServer s.servers server) := by
    intro server key w hw
    rw [getElem?_addServer] at hw
    split at hw
    · rename_i hk
      cases hw
      exact hk.1
    · exact hs key w hw
  intro key w hw
  cases h with
  | register server => exact hadd server key w hw
  | registerSync server => exact hadd server key w hw
  | change server change =>
    rw [getElem?_changeServer] at hw
    split at hw
    · obtain ⟨w₀, hw₀, rfl⟩ := Option.map_eq_some_iff.mp hw
      rw [getServerKey_change]
      exact hs key w₀ hw₀
    · exact hs key w hw
  | status serviceName status =>
    rw [getElem?_setServiceStatus] at hw
    obtain ⟨w₀, hw₀, rfl⟩ := Option.map_eq_some_iff.mp hw
    split
    · exact hs key w₀ hw₀
    · exact hs key w₀ hw₀
  | beat now hw₀ =>
    rw [getElem?_beat hs hw₀] at hw
    split at hw
    · rename_i hk
      subst hk
      cases hw
      rw [getServerKey_beat]
      exact hs _ _ hw₀
    · exact hs key w hw
  | drop hdrop _ => exact hs key w (hdrop key w hw)

end PredictorService.ServiceRouter.Router
