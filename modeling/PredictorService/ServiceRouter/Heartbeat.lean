/-
  PredictorService.ServiceRouter.Heartbeat — what heartbeats send to the registry.

  A heartbeat registers the copy in `servers_` again. The setters write to that copy, and
  a registration makes one only when there is none. So a registration with another value
  than the copy reaches consul and is undone by the next heartbeat
  (`heartbeat_undoes_registration`). When registrations do not change a server that is
  there, every heartbeat sends the latest registration with the later changes
  (`heartbeat_sends_latest`).
-/

import PredictorService.ServiceRouter.Router

namespace PredictorService.ServiceRouter.Router

open Std (ExtTreeMap)
open PredictorService.Lib

/-- Everything but the update time. -/
def timeless (server : Server) : Server := { server with updateTime := 0 }

/-! ## The latest registration -/

def latestStep (key : String) (latest : Option Server) : Ev → Option Server
  | .registerServer server => if getServerKey server = key then some server else latest
  | .registerServerSync server => if getServerKey server = key then some server else latest
  | .changeServer server change => if getServerKey server = key then latest.map change.apply else latest
  | .setServiceStatus serviceName status =>
    latest.map fun server => if server.serviceName = serviceName then { server with status } else server
  | _ => latest

/-- The value of the most recent registration of a key by a user, with the later changes. -/
def latest (hist : List Ev) (key : String) : Option Server := hist.foldl (latestStep key) none

theorem latest_append (hist : List Ev) (e : Ev) (key : String) :
    latest (hist ++ [e]) key = latestStep key (latest hist key) e := by
  simp [latest]

theorem latest_of_not_isWrite {e : Ev} (he : e.isWrite = false) (hist : List Ev) (key : String) :
    latest (hist ++ [e]) key = latest hist key := by
  rw [latest_append]
  cases e <;> first | rfl | cases he

/-! ## The invariant -/

/-- Every copy is the latest registration of its key but for the update time. -/
def Fresh (hist : List Ev) (servers : Servers) : Prop :=
  ∀ (key : String) (w : ServerWithHeartbeat), servers[key]? = some w →
    (latest hist key).map timeless = some (timeless w.server)

/-- A registration of a server that is there does not change it. -/
def Republishes (s : St) : Ev → Prop
  | .registerServer server => ∀ w ∈ s.servers[getServerKey server]?, timeless server = timeless w.server
  | .registerServerSync server => ∀ w ∈ s.servers[getServerKey server]?, timeless server = timeless w.server
  | _ => True

instance (s : St) (e : Ev) : Decidable (Republishes s e) := by cases e <;> unfold Republishes <;> infer_instance

theorem serviceName_of_timeless {a b : Server} (h : timeless a = timeless b) : a.serviceName = b.serviceName := by
  have hname : (timeless a).serviceName = (timeless b).serviceName := congrArg Server.serviceName h
  exact hname

theorem timeless_apply (change : Change) (server : Server) :
    timeless (change.apply server) = change.apply (timeless server) := by
  cases change <;> rfl

theorem timeless_beat (w : ServerWithHeartbeat) (now : UInt64) : timeless (w.beat now).server = timeless w.server := by
  unfold ServerWithHeartbeat.beat
  split <;> rfl

theorem Fresh.register {hist : List Ev} {servers : Servers} {server : Server} {e : Ev} (h : Fresh hist servers)
    (he : ∀ key latest, latestStep key latest e = if getServerKey server = key then some server else latest)
    (hok : ∀ w ∈ servers[getServerKey server]?, timeless server = timeless w.server) :
    Fresh (hist ++ [e]) (addServer servers server) := by
  intro key w hw
  rw [latest_append, he]
  rw [getElem?_addServer] at hw
  by_cases hk : getServerKey server = key
  · subst hk
    split at hw
    · cases hw
      simp
    · simp [hok w hw]
  · rw [if_neg fun hc => hk hc.1] at hw
    rw [if_neg hk]
    exact h key w hw

theorem Fresh.change {hist : List Ev} {s : St} (h : Fresh hist s.servers) (server : Server) (change : Change) :
    Fresh (hist ++ [.changeServer server change]) (changeServer s server change).servers := by
  intro key w hw
  rw [latest_append, latestStep]
  rw [getElem?_changeServer] at hw
  split at hw
  · rename_i hk
    obtain ⟨w₀, hw₀, rfl⟩ := Option.map_eq_some_iff.mp hw
    obtain ⟨v, hv, hvw⟩ := Option.map_eq_some_iff.mp (h _ w₀ hw₀)
    simp [hk, hv, timeless_apply, hvw]
  · rename_i hk
    rw [if_neg hk]
    exact h key w hw

theorem Fresh.status {hist : List Ev} {s : St} (h : Fresh hist s.servers) (serviceName : String)
    (status : ServerStatus) :
    Fresh (hist ++ [.setServiceStatus serviceName status]) (setServiceStatus s serviceName status).servers := by
  intro key w hw
  rw [latest_append, latestStep]
  rw [getElem?_setServiceStatus] at hw
  obtain ⟨w₀, hw₀, rfl⟩ := Option.map_eq_some_iff.mp hw
  obtain ⟨v, hv, hvw⟩ := Option.map_eq_some_iff.mp (h key w₀ hw₀)
  -- both have the service name, or none
  have hname : v.serviceName = w₀.server.serviceName := serviceName_of_timeless hvw
  by_cases hn : w₀.server.serviceName = serviceName
  · have hset : timeless { v with status } = timeless { w₀.server with status } :=
      congrArg (fun server : Server => { server with status }) hvw
    rw [if_pos hn, hv, Option.map_some, if_pos (hname.trans hn)]
    exact congrArg some hset
  · rw [if_neg hn, hv, Option.map_some, if_neg fun hc => hn (hname.symm.trans hc)]
    exact congrArg some hvw

theorem Fresh.beat {hist : List Ev} {s : St} (h : Fresh hist s.servers) (hs : Keyed s.servers) {key : String}
    {w : ServerWithHeartbeat} (hw : s.servers[key]? = some w) (now : UInt64) :
    Fresh (hist ++ [.heartbeat key now]) (addServer (s.servers.insert key (w.beat now)) (w.beat now).server) := by
  intro k w' hw'
  rw [latest_append]
  show (latest hist k).map timeless = _
  rw [getElem?_beat hs hw] at hw'
  split at hw'
  · rename_i hk
    subst hk
    cases hw'
    rw [timeless_beat]
    exact h _ w hw
  · exact h k w' hw'

variable {c : ConsulRegistry.Codec}

theorem Fresh.step {hist : List Ev} {s t : St} {e : Ev} (h : Fresh hist s.servers) (hs : Keyed s.servers)
    (hok : Republishes s e) (ht : Router.step c s e = some t) : Fresh (hist ++ [e]) t.servers := by
  have hw := writes_step ht
  generalize t.servers = servers at hw
  cases hw with
  | register server => exact h.register (fun _ _ => rfl) hok
  | registerSync server => exact h.register (fun _ _ => rfl) hok
  | change server change => exact h.change server change
  | status serviceName status => exact h.status serviceName status
  | beat now hw => exact h.beat hs hw now
  | drop hdrop he =>
    intro key w hw
    rw [latest_of_not_isWrite he]
    exact h key w (hdrop key w hw)

theorem fresh_run {es : List Ev} {t : St} (hm : Meets (step c) Republishes {} es) (hr : run (step c) {} es = some t) :
    Keyed t.servers ∧ Fresh es t.servers := by
  have h0 : Keyed ({} : St).servers ∧ Fresh [] ({} : St).servers :=
    ⟨fun key w hw => by simp at hw, fun key w hw => by simp at hw⟩
  refine run_history (step c) Republishes (fun hist s => Keyed s.servers ∧ Fresh hist s.servers) ?_ [] h0 hm hr
  intro hist s t e hs hok ht
  exact ⟨hs.1.writes (writes_step ht), hs.2.step hs.1 hok ht⟩

/-! ## Every heartbeat -/

/-- In every run whose registrations do not change a server that is there, what a heartbeat
    sends is the latest registration of its key with the later changes, but for the update
    time. -/
theorem heartbeat_sends_latest (c : ConsulRegistry.Codec) {es : List Ev} {s t : St} {key : String} {now : UInt64}
    (hm : Meets (step c) Republishes {} es) (hr : run (step c) {} es = some s)
    (ht : step c s (.heartbeat key now) = some t) :
    ∃ sent v, t.beats = sent :: s.beats ∧ latest es key = some v ∧ timeless sent = timeless v := by
  obtain ⟨w, hw, rfl⟩ := heartbeat_some (Option.ite_none_right_eq_some.mp ht).2
  obtain ⟨v, hv, hvw⟩ := Option.map_eq_some_iff.mp ((fresh_run hm hr).2 key w hw)
  exact ⟨_, v, rfl, hv, by rw [timeless_beat, hvw]⟩

/-- Registered twice with one value, and changed in between. -/
def changedThenRepublished : List Ev :=
  [.registerServer ConsulRegistry.plainServer, .changeServer ConsulRegistry.plainServer (.setWeight 7),
   .heartbeat "predictor10.0.0.19000" 5,
   .registerServer { ConsulRegistry.plainServer with weight := 7, updateTime := 4 }]

theorem heartbeat_sends_latest_weight :
    ∃ s t sent v, run (step ConsulRegistry.plainCodec) {} changedThenRepublished = some s ∧
      step ConsulRegistry.plainCodec s (.heartbeat "predictor10.0.0.19000" 9) = some t ∧
      t.beats = sent :: s.beats ∧ latest changedThenRepublished "predictor10.0.0.19000" = some v ∧ v.weight = 7 ∧
      timeless sent = timeless v := by
  have hrun : (run (step ConsulRegistry.plainCodec) {} changedThenRepublished).any fun s =>
      (step ConsulRegistry.plainCodec s (.heartbeat "predictor10.0.0.19000" 9)).isSome := by
    decide
  obtain ⟨s, hs, ht⟩ := (Option.any_eq_true _ _).mp hrun
  obtain ⟨t, ht⟩ := Option.isSome_iff_exists.mp ht
  obtain ⟨sent, v, hsent, hv, hsame⟩ := heartbeat_sends_latest ConsulRegistry.plainCodec (by decide) hs ht
  refine ⟨s, t, sent, v, hs, ht, hsent, hv, ?_, hsame⟩
  have hlatest : (latest changedThenRepublished "predictor10.0.0.19000").all fun v => v.weight = 7 := by decide
  simpa [hv] using hlatest

/-- Registered again with another weight. -/
def reweighted : List Ev :=
  [.registerServer ConsulRegistry.plainServer, .registerServer { ConsulRegistry.plainServer with weight := 7 }]

theorem heartbeat_undoes_registration :
    ¬ ∀ (es : List Ev) (s t : St) (key : String) (now : UInt64), run (step ConsulRegistry.plainCodec) {} es = some s →
      step ConsulRegistry.plainCodec s (.heartbeat key now) = some t →
        ∃ sent v, t.beats = sent :: s.beats ∧ latest es key = some v ∧ timeless sent = timeless v := by
  intro h
  have hrun : (run (step ConsulRegistry.plainCodec) {} reweighted).any fun s =>
      (step ConsulRegistry.plainCodec s (.heartbeat "predictor10.0.0.19000" 9)).any fun t =>
        t.beats.head?.any fun sent => sent.weight = 1 := by
    decide
  obtain ⟨s, hs, hbad⟩ := (Option.any_eq_true _ _).mp hrun
  obtain ⟨t, ht, hbad⟩ := (Option.any_eq_true _ _).mp hbad
  obtain ⟨sent, v, hsent, hv, hsame⟩ := h reweighted s t _ 9 hs ht
  have hlatest : (latest reweighted "predictor10.0.0.19000").all fun v => v.weight = 7 := by decide
  have hv7 : v.weight = 7 := by simpa [hv] using hlatest
  have hs1 : sent.weight = 1 := by simpa [hsent] using hbad
  have hw : (timeless sent).weight = (timeless v).weight := congrArg Server.weight hsame
  have h17 : (1 : Int32) = 7 := hs1.symm.trans (hw.trans hv7)
  exact absurd h17 (by decide)

end PredictorService.ServiceRouter.Router
