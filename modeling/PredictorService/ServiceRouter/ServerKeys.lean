/-
  PredictorService.ServiceRouter.ServerKeys — which records of `servers_` an operation can
  reach (service_router/router.cc, `Router::getServerKey` and its callers;
  predictor/util/predictor_util.cc, `setServerStaticWeight`).

  Every operation for one server finds its record by a text: the service name, the host
  and the port, without separators and without the protocol.
  - `getElem?_call`: an operation changes at most what is under the key of its server.
  - `separate_iff`: two servers that differ in service name, host, port or protocol are
    kept apart by every operation in every state iff those texts differ
    (`one_key_for_two_servers`).
-/

import PredictorService.ServiceRouter.Router

namespace PredictorService.ServiceRouter.Router

open Std (ExtTreeMap)

/-- The same service name, host, port and protocol. -/
structure Same (a b : Server) : Prop where
  serviceName : a.serviceName = b.serviceName
  host : a.host = b.host
  port : a.port = b.port
  protocol : a.protocol = b.protocol

instance (a b : Server) : Decidable (Same a b) :=
  decidable_of_iff (a.serviceName = b.serviceName ∧ a.host = b.host ∧ a.port = b.port ∧ a.protocol = b.protocol)
    ⟨fun h => ⟨h.1, h.2.1, h.2.2.1, h.2.2.2⟩, fun h => ⟨h.1, h.2, h.3, h.4⟩⟩

theorem Same.getServerKey {a b : Server} (h : Same a b) : getServerKey a = getServerKey b := by
  rw [Router.getServerKey, Router.getServerKey, h.serviceName, h.host, h.port]

/-- The record of a server. -/
def recordOf (s : St) (server : Server) : Option ServerWithHeartbeat :=
  s.servers[getServerKey server]?.filter fun w => Same w.server server

theorem recordOf_eq {s : St} {server : Server} {w : ServerWithHeartbeat} (h : s.servers[getServerKey server]? = some w)
    (hsame : Same w.server server) : recordOf s server = some w := by
  rw [recordOf, h]
  simp [hsame]

/-- `setServerStaticWeight`: the server it asks the router for has the default protocol. -/
def setServerStaticWeight (s : St) (serviceName host : String) (port weight : Int32) : Bool × St :=
  if weight < 0 then (false, s)
  else (true, changeServer s { serviceName, host, port := port.toUInt32.toUInt16 } (.setWeight weight))

/-- The event is a call of a per-server operation for the server, or the end of one. -/
def Calls (server : Server) (s : St) : Ev → Prop
  | .registerServer a => Same a server
  | .registerServerSync a => Same a server
  | .unregisterServer a => Same a server
  | .unregisterServerSync a => Same a server
  | .changeServer a _ => Same a server
  | .returnSync => ∃ r ok, s.sync = some (.answered r ok) ∧ Same r.server server
  | _ => False

variable {c : ConsulRegistry.Codec} {s t : St}

theorem getElem?_unregisterServer {server : Server} {key : String} (hk : getServerKey server ≠ key) :
    (unregisterServer s server).servers[key]? = s.servers[key]? := by
  unfold unregisterServer
  split
  · rfl
  · split
    · rfl
    · show (s.servers.erase (getServerKey server))[key]? = _
      rw [ExtTreeMap.getElem?_erase]
      simp [hk]

theorem getElem?_returnSync {r : ConsulRegistry.Request} {ok : Bool} (hs : s.sync = some (.answered r ok)) {key : String}
    (hk : getServerKey r.server ≠ key) (h : returnSync s = some t) : t.servers[key]? = s.servers[key]? := by
  unfold returnSync at h
  rw [hs] at h
  obtain rfl := (Option.some.inj h).symm
  show (if r.json = none ∧ ok then s.servers.erase (getServerKey r.server) else s.servers)[key]? = _
  split
  · rw [ExtTreeMap.getElem?_erase]
    simp [hk]
  · rfl

/-- An operation leaves every key but that of its server. -/
theorem getElem?_call {server : Server} {e : Ev} (he : Calls server s e) {key : String} (hk : getServerKey server ≠ key)
    (h : step c s e = some t) : t.servers[key]? = s.servers[key]? := by
  have hadd : ∀ a, Same a server → (addServer s.servers a)[key]? = s.servers[key]? := by
    intro a ha
    rw [getElem?_addServer, if_neg]
    intro hkey
    exact hk (ha.getServerKey ▸ hkey.1)
  rcases step_cases h with ⟨-, hcall⟩ | ⟨name, rfl, rfl⟩ | ⟨name, e, rfl, -⟩ | ⟨ok, rfl, -⟩ | ⟨rfl, hret⟩
  · cases e with
    | registerServer a =>
      cases hcall
      exact hadd a he
    | registerServerSync a =>
      cases hcall
      rw [registerServerSync_servers]
      exact hadd a he
    | unregisterServer a =>
      cases hcall
      exact getElem?_unregisterServer (he.getServerKey ▸ hk)
    | unregisterServerSync a =>
      cases hcall
      rw [unregisterServerSync_servers]
    | changeServer a change =>
      cases hcall
      rw [getElem?_changeServer, if_neg (he.getServerKey ▸ hk)]
    | returnSync => cases hcall
    | _ => exact he.elim
  · exact he.elim
  · exact he.elim
  · exact he.elim
  · obtain ⟨r, ok, hs, hr⟩ := he
    exact getElem?_returnSync hs (hr.getServerKey ▸ hk) hret

/-! ## Two servers -/

/-- Operations for `a` leave the record of `b`. -/
structure Frames (c : ConsulRegistry.Codec) (a b : Server) : Prop where
  call : ∀ s t e, Calls a s e → step c s e = some t → recordOf t b = recordOf s b
  staticWeight : ∀ s port weight, port.toUInt32.toUInt16 = a.port →
    recordOf (setServerStaticWeight s a.serviceName a.host port weight).2 b = recordOf s b

/-- Operations for one leave the record of the other, and registering both where neither
    key is taken adds two records. -/
structure Separate (c : ConsulRegistry.Codec) (a b : Server) : Prop where
  left : Frames c a b
  right : Frames c b a
  both : ∀ s, getServerKey a ∉ s.servers → getServerKey b ∉ s.servers →
    (registerServer c (registerServer c s a) b).servers.size = s.servers.size + 2 ∧
    recordOf (registerServer c (registerServer c s a) b) a = some { server := a } ∧
    recordOf (registerServer c (registerServer c s a) b) b = some { server := b }

theorem frames_of_ne {a b : Server} (h : getServerKey a ≠ getServerKey b) : Frames c a b := by
  refine ⟨fun s t e he hstep => ?_, fun s port weight hport => ?_⟩
  · rw [recordOf, recordOf, getElem?_call he h hstep]
  · unfold setServerStaticWeight recordOf
    split
    · rfl
    · have hkey : getServerKey { serviceName := a.serviceName, host := a.host, port := port.toUInt32.toUInt16 } ≠
          getServerKey b := by
        rw [hport]
        exact h
      rw [getElem?_changeServer, if_neg hkey]

theorem separate_of_ne {a b : Server} (h : getServerKey a ≠ getServerKey b) : Separate c a b := by
  refine ⟨frames_of_ne h, frames_of_ne (Ne.symm h), fun s ha hb => ?_⟩
  have hservers : (registerServer c (registerServer c s a) b).servers = addServer (addServer s.servers a) b := rfl
  have hb' : getServerKey b ∉ addServer s.servers a := by
    rw [addServer, ExtTreeMap.mem_insertIfNew]
    simp [h, hb]
  refine ⟨?_, recordOf_eq ?_ ⟨rfl, rfl, rfl, rfl⟩, recordOf_eq ?_ ⟨rfl, rfl, rfl, rfl⟩⟩
  · rw [hservers, addServer, ExtTreeMap.size_insertIfNew, if_neg hb', addServer, ExtTreeMap.size_insertIfNew, if_neg ha]
  · rw [hservers, getElem?_addServer, if_neg (fun hc => h hc.1.symm), getElem?_addServer, if_pos ⟨rfl, ha⟩]
  · rw [hservers, getElem?_addServer, if_pos ⟨rfl, hb'⟩]

/-- With one key, a change of the weight of `a` is one of the record of `b`. -/
theorem not_frames_of_eq {a b : Server} (h : getServerKey a = getServerKey b) : ¬ Frames c a b := by
  intro hf
  have hreg : (addServer ∅ b)[getServerKey b]? = some { server := b } := by
    rw [getElem?_addServer, if_pos ⟨rfl, by simp⟩]
  have hset : (changeServer { servers := addServer ∅ b } a (.setWeight (b.weight + 1))).servers[getServerKey b]? =
      some { server := { b with weight := b.weight + 1 } } := by
    rw [getElem?_changeServer, if_pos h]
    show (addServer ∅ b)[getServerKey b]?.map _ = _
    rw [hreg]
    rfl
  have hcall := hf.call { servers := addServer ∅ b } _ (.changeServer a (.setWeight (b.weight + 1)))
    ⟨rfl, rfl, rfl, rfl⟩ rfl
  have hold : recordOf { servers := addServer ∅ b } b = some { server := b } := recordOf_eq hreg ⟨rfl, rfl, rfl, rfl⟩
  have hnew := recordOf_eq hset ⟨rfl, rfl, rfl, rfl⟩
  rw [hnew, hold] at hcall
  have hweight : b.weight + 1 = b.weight :=
    congrArg (fun w : ServerWithHeartbeat => w.server.weight) (Option.some.inj hcall)
  simp at hweight

/-- Two servers are kept apart iff the texts of service name, host and port differ. -/
theorem separate_iff (c : ConsulRegistry.Codec) (a b : Server) :
    Separate c a b ↔
      a.serviceName ++ a.host ++ toString a.port.toNat ≠ b.serviceName ++ b.host ++ toString b.port.toNat := by
  constructor
  · intro h heq
    exact not_frames_of_eq heq h.left
  · intro h
    exact separate_of_ne h

def predictorAt (host : String) (port : UInt16) (protocol : ServerProtocol) : Server :=
  { host := host, port := port, serviceName := "predictor", protocol := protocol, status := .available }

/-- `10.0.0.1` and port 19000 against `10.0.0.11` and port 9000: a weight set for the first is
    set for the registered second, and registering both gives one record. -/
theorem one_key_for_two_servers :
    ¬ Same (predictorAt "10.0.0.1" 19000 .thrift) (predictorAt "10.0.0.11" 9000 .thrift) ∧
    (∃ s t, Lib.run (step ConsulRegistry.plainCodec) {} [.registerServer (predictorAt "10.0.0.11" 9000 .thrift)] = some s ∧
      step ConsulRegistry.plainCodec s (.changeServer (predictorAt "10.0.0.1" 19000 .thrift) (.setWeight 5)) = some t ∧
      recordOf s (predictorAt "10.0.0.11" 9000 .thrift) = some { server := predictorAt "10.0.0.11" 9000 .thrift } ∧
      recordOf t (predictorAt "10.0.0.11" 9000 .thrift) =
        some { server := { predictorAt "10.0.0.11" 9000 .thrift with weight := 5 } }) ∧
    ¬ Separate ConsulRegistry.plainCodec (predictorAt "10.0.0.1" 19000 .thrift) (predictorAt "10.0.0.11" 9000 .thrift) ∧
    ¬ Separate ConsulRegistry.plainCodec (predictorAt "10.0.0.1" 9000 .thrift) (predictorAt "10.0.0.1" 9000 .http) := by
  have hkey : getServerKey (predictorAt "10.0.0.1" 19000 .thrift) = getServerKey (predictorAt "10.0.0.11" 9000 .thrift) := by
    decide
  have hprotocol : getServerKey (predictorAt "10.0.0.1" 9000 .thrift) = getServerKey (predictorAt "10.0.0.1" 9000 .http) :=
    rfl
  have hreg : (registerServer ConsulRegistry.plainCodec {} (predictorAt "10.0.0.11" 9000 .thrift)).servers[
      getServerKey (predictorAt "10.0.0.11" 9000 .thrift)]? = some { server := predictorAt "10.0.0.11" 9000 .thrift } := by
    show (addServer ∅ _)[_]? = _
    rw [getElem?_addServer, if_pos ⟨rfl, by simp⟩]
  refine ⟨by decide, ⟨_, _, rfl, rfl, recordOf_eq hreg ⟨rfl, rfl, rfl, rfl⟩, recordOf_eq ?_ ⟨rfl, rfl, rfl, rfl⟩⟩,
    fun h => not_frames_of_eq hkey h.left, fun h => not_frames_of_eq hprotocol h.left⟩
  rw [getElem?_changeServer, if_pos hkey, hreg]
  rfl

end PredictorService.ServiceRouter.Router
