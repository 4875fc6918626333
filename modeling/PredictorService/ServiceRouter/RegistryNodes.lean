/-
  PredictorService.ServiceRouter.RegistryNodes — what consul holds for a node after
  `registerServer` and `unregisterServer` calls (see
  `PredictorService.ServiceRouter.Registry`).

  The registry is an outbox (`PredictorService.Lib.Outbox`): requests wait, a refused one is
  kept in an undelivered response, in `fallbacks_` or in the running round, under the name
  of its node, and is sent again. `step_sim` says that every step of the registry is an act
  of the outbox or none.

  - `last_intent_wins`: in every run whose calls and answers are `Orderly`, every quiescent
    state has, under each path, what the last call for it asked for.
  - `late_failure_undoes_unregister`: without that a failed register whose response comes
    late is sent again after the unregister that was meant to end it.
-/

import PredictorService.Lib.Outbox
import PredictorService.Lib.Runs
import PredictorService.ServiceRouter.Registry

namespace PredictorService.ServiceRouter

open PredictorService.Lib (FinMap)
open PredictorService.Lib.Outbox (Box Act act Disciplined)
open ConsulNode

namespace ConsulRegistry

variable (c : Codec)

/-! ## The registry as an outbox -/

/-- The request that a retry of the entry sends. -/
def FallBackDetail.request (d : FallBackDetail) : Option Request :=
  match d.type with
  | .register => (c.toJson d.server).map fun json => ⟨d.server, some json⟩
  | .unregister => some ⟨d.server, none⟩
  | .discover => none
  | .getConfig => none

/-- The refused requests of a node name: undelivered, queued, or in the running round. -/
def failedAt (s : St) (name : String) : List Request :=
  (s.responses.filter fun p => p.2 = false ∧ getNodeName p.1.server = name).map (·.1) ++
    ((s.fallbacks.lookup name).bind (FallBackDetail.request c)).toList ++
    ((s.work.lookup name).bind (FallBackDetail.request c)).toList

/-- The request of a user's call. -/
def Ev.call : Ev → Option Request
  | .registerServer server => (c.toJson server).map fun json => ⟨server, some json⟩
  | .unregisterServer server => some ⟨server, none⟩
  | _ => none

/-- The last call for a path. -/
def lastCall (es : List Ev) (path : String) : Option Request :=
  ((es.filterMap (Ev.call c)).filter fun r => getNodePath r.server = path).getLast?

def box (hist : List Ev) (s : St) : Box Request String String String :=
  ⟨s.requests, failedAt c s, s.consul.lookup, lastCall c hist⟩

abbrev BoxInv (hist : List Ev) (s : St) : Prop :=
  Lib.Outbox.Inv (fun r : Request => getNodePath r.server) (fun r => getNodeName r.server) Request.json (box c hist s)

/-- No request of the server's node name or path is refused and not yet sent again. -/
def NothingFailed (s : St) (server : Server) : Prop :=
  failedAt c s (getNodeName server) = [] ∧
    ∀ name, ∀ f ∈ failedAt c s name, getNodePath f.server ≠ getNodePath server

/-- The condition on each step: a call has a service name and a JSON and is made when
    nothing of its node has failed and waits to be sent again; consul answers the requests
    of one path in the order they were sent, and refuses one only when no later one of its
    node waits; the callback pool stays. -/
def Orderly (s : St) : Ev → Prop
  | .registerServer server => checkServerValid server ∧ (c.toJson server).isSome ∧ NothingFailed c s server
  | .unregisterServer server => checkServerValid server ∧ NothingFailed c s server
  | .answer r ok =>
    (s.requests.filter fun r' => getNodePath r'.server = getNodePath r.server).head? = some r ∧
    (ok = false → ∀ r' ∈ s.requests.erase r,
      getNodeName r'.server ≠ getNodeName r.server ∧ getNodePath r'.server ≠ getNodePath r.server)
  | .poolGone => False
  | _ => True

/-- No request is in flight and nothing is queued. -/
structure Quiescent (s : St) : Prop where
  requests : s.requests = []
  responses : s.responses = []
  tasks : s.tasks = []
  fallbacks : s.fallbacks = ∅
  work : s.work = ∅

/-- Under every path, what the last call for it asked for: the JSON of its server, or
    nothing. -/
def LastIntent (es : List Ev) (s : St) : Prop :=
  ∀ path r, lastCall c es path = some r → s.consul.lookup path = r.json

/-! ## Well-formed states -/

theorem head?_append {s t : String} {x : Char} (h : s.toList.head? = some x) : (s ++ t).toList.head? = some x := by
  rw [String.toList_append, List.head?_append, h, Option.some_or]

/-- A node name starts with a protocol, a path with "ads-core". -/
theorem path_ne_getNodeName {p : String} (hp : p.toList.head? = some 'a') (server : Server) : p ≠ getNodeName server := by
  intro h
  have hhead : ∃ x, (toStringServerProtocol server.protocol).toList.head? = some x ∧ x ≠ 'a' := by
    cases server.protocol <;> exact ⟨_, rfl, by decide⟩
  obtain ⟨x, hx, hne⟩ := hhead
  rw [h, getNodeName, head?_append (head?_append (head?_append (head?_append hx)))] at hp
  exact hne (Option.some.inj hp)

theorem services_head : "ads-core/services/".toList.head? = some 'a' := by decide

theorem getNodesPath_ne (name : String) (server : Server) : getNodesPath name ≠ getNodeName server :=
  path_ne_getNodeName (head?_append (head?_append services_head)) server

theorem getConfigPath_ne (name : String) (server : Server) : getConfigPath name ≠ getNodeName server :=
  path_ne_getNodeName (head?_append (head?_append services_head)) server

/-- A request that a call can have sent. -/
structure Proper (r : Request) : Prop where
  valid : checkServerValid r.server
  json : r.json = none ∨ r.json = c.toJson r.server

/-- An entry of `fallbacks_`: a node's under its name, the others under paths. -/
def Stored (k : String) (d : FallBackDetail) : Prop :=
  match d.type with
  | .register => k = getNodeName d.server ∧ checkServerValid d.server ∧ (c.toJson d.server).isSome
  | .unregister => k = getNodeName d.server ∧ checkServerValid d.server
  | .discover => ∀ server, k ≠ getNodeName server
  | .getConfig => ∀ server, k ≠ getNodeName server

structure Wf (s : St) : Prop where
  pool : s.pool = true
  requests : ∀ r ∈ s.requests, Proper c r
  responses : ∀ p ∈ s.responses, Proper c p.1
  fallbacks : ∀ k d, s.fallbacks.lookup k = some d → Stored c k d
  work : ∀ k d, s.work.lookup k = some d → Stored c k d

variable {c}

theorem Proper.request {r : Request} (h : Proper c r) : FallBackDetail.request c ⟨r.server, r.type⟩ = some r := by
  obtain ⟨server, json⟩ := r
  cases json with
  | none => rfl
  | some json =>
    have hj : some json = c.toJson server := h.json.resolve_left (by simp)
    simp [FallBackDetail.request, Request.type, ← hj]

theorem Proper.stored {r : Request} (h : Proper c r) : Stored c (getNodeName r.server) ⟨r.server, r.type⟩ := by
  obtain ⟨server, json⟩ := r
  cases json with
  | none => exact ⟨rfl, h.valid⟩
  | some json =>
    have hj : some json = c.toJson server := h.json.resolve_left (by simp)
    refine ⟨rfl, h.valid, ?_⟩
    rw [← hj]
    rfl

/-- Under a node's name only entries of that node. -/
theorem Stored.request {k : String} {d : FallBackDetail} (h : Stored c k d) {r : Request}
    (hr : FallBackDetail.request c d = some r) : r.server = d.server ∧ k = getNodeName d.server ∧ Proper c r := by
  obtain ⟨server, type⟩ := d
  cases type with
  | register =>
    obtain ⟨json, hj, rfl⟩ := Option.map_eq_some_iff.mp hr
    exact ⟨rfl, h.1, h.2.1, Or.inr hj.symm⟩
  | unregister =>
    cases hr
    exact ⟨rfl, h.1, h.2, Or.inl rfl⟩
  | discover => cases hr
  | getConfig => cases hr

/-! ## The refused requests -/

theorem mem_failedAt {s : St} {name : String} {r : Request} :
    r ∈ failedAt c s name ↔ ((r, false) ∈ s.responses ∧ getNodeName r.server = name) ∨
      (∃ d, s.fallbacks.lookup name = some d ∧ FallBackDetail.request c d = some r) ∨
      ∃ d, s.work.lookup name = some d ∧ FallBackDetail.request c d = some r := by
  simp only [failedAt, List.mem_append, List.mem_map, List.mem_filter, decide_eq_true_eq, Option.mem_toList,
    Option.bind_eq_some_iff, or_assoc]
  constructor
  · intro h
    rcases h with ⟨p, ⟨hp, hok, hname⟩, rfl⟩ | h
    · refine Or.inl ⟨?_, hname⟩
      rw [← hok]
      exact hp
    · exact Or.inr h
  · intro h
    rcases h with ⟨hp, hname⟩ | h
    · exact Or.inl ⟨(r, false), ⟨hp, rfl, hname⟩, rfl⟩
    · exact Or.inr h

/-- Only these fields matter for the nodes. -/
structure SameNodes (s t : St) : Prop where
  pool : t.pool = s.pool
  requests : t.requests = s.requests
  responses : t.responses = s.responses
  fallbacks : t.fallbacks = s.fallbacks
  work : t.work = s.work
  consul : t.consul = s.consul

theorem SameNodes.wf {s t : St} (h : SameNodes s t) (hw : Wf c s) : Wf c t := by
  refine ⟨?_, ?_, ?_, ?_, ?_⟩
  · rw [h.pool]
    exact hw.pool
  · rw [h.requests]
    exact hw.requests
  · rw [h.responses]
    exact hw.responses
  · rw [h.fallbacks]
    exact hw.fallbacks
  · rw [h.work]
    exact hw.work

theorem SameNodes.failedAt {s t : St} (h : SameNodes s t) : failedAt c t = failedAt c s := by
  funext name
  simp only [ConsulRegistry.failedAt, h.responses, h.fallbacks, h.work]

theorem lastCall_append_none {hist : List Ev} {e : Ev} (he : Ev.call c e = none) :
    lastCall c (hist ++ [e]) = lastCall c hist := by
  funext path
  simp only [lastCall, List.filterMap_append, List.filterMap_cons, he, List.filterMap_nil, List.append_nil]

theorem SameNodes.box {s t : St} (h : SameNodes s t) {hist : List Ev} {e : Ev} (he : Ev.call c e = none) :
    box c (hist ++ [e]) t = box c hist s := by
  simp only [ConsulRegistry.box, h.failedAt, h.requests, h.consul, lastCall_append_none he]

theorem lastCall_append {hist : List Ev} {e : Ev} {r : Request} (he : Ev.call c e = some r) :
    lastCall c (hist ++ [e]) = Function.update (lastCall c hist) (getNodePath r.server) (some r) := by
  funext path
  simp only [lastCall, List.filterMap_append, List.filterMap_cons, he, List.filterMap_nil, List.filter_append]
  by_cases hp : getNodePath r.server = path
  · subst hp
    rw [Function.update_self, List.filter_cons_of_pos (by simp), List.filter_nil, List.getLast?_concat]
  · rw [Function.update_of_ne (Ne.symm hp), List.filter_cons_of_neg (by simpa using hp), List.filter_nil, List.append_nil]
    rfl

/-- A step that leaves the nodes as they are is no act. -/
def Sim (c : Codec) (hist : List Ev) (s : St) (e : Ev) (t : St) : Prop :=
  Wf c t ∧ (box c (hist ++ [e]) t = box c hist s ∨
    ∃ a, Disciplined (fun r : Request => getNodePath r.server) (fun r => getNodeName r.server) (box c hist s) a ∧
      box c (hist ++ [e]) t =
        act (fun r : Request => getNodePath r.server) (fun r => getNodeName r.server) Request.json (box c hist s) a)

theorem SameNodes.sim {s t : St} (h : SameNodes s t) {hist : List Ev} {e : Ev} (he : Ev.call c e = none)
    (hw : Wf c s) : Sim c hist s e t := ⟨h.wf hw, Or.inl (h.box he)⟩

/-- A state with other fallbacks, when no node's entry differs. -/
theorem sim_fallbacks {s t : St} {hist : List Ev} {e : Ev} (he : Ev.call c e = none) (hw : Wf c s)
    (hpool : t.pool = s.pool) (hreq : t.requests = s.requests) (hresp : t.responses = s.responses)
    (hcons : t.consul = s.consul) (hfall : ∀ k d, t.fallbacks.lookup k = some d → Stored c k d)
    (hwork : ∀ k d, t.work.lookup k = some d → Stored c k d)
    (hsame : ∀ name, ((t.fallbacks.lookup name).bind (FallBackDetail.request c)).toList ++
        ((t.work.lookup name).bind (FallBackDetail.request c)).toList =
      ((s.fallbacks.lookup name).bind (FallBackDetail.request c)).toList ++
        ((s.work.lookup name).bind (FallBackDetail.request c)).toList) : Sim c hist s e t := by
  refine ⟨⟨hpool.trans hw.pool, ?_, ?_, hfall, hwork⟩, Or.inl ?_⟩
  · rw [hreq]
    exact hw.requests
  · rw [hresp]
    exact hw.responses
  · have hfailed : failedAt c t = failedAt c s := by
      funext name
      simp only [failedAt, List.append_assoc, hresp, hsame]
    simp only [box, hfailed, hreq, hcons, lastCall_append_none he]

/-- An entry under a path is no node's. -/
theorem sim_insert_path {s t : St} {hist : List Ev} {e : Ev} (he : Ev.call c e = none) (hw : Wf c s)
    {path : String} {d : FallBackDetail} (hpath : ∀ server, path ≠ getNodeName server) (hd : Stored c path d)
    (hreqd : FallBackDetail.request c d = none) (hpool : t.pool = s.pool) (hreq : t.requests = s.requests)
    (hresp : t.responses = s.responses) (hcons : t.consul = s.consul) (hwork : t.work = s.work)
    (hfall : t.fallbacks = s.fallbacks.insert path d) : Sim c hist s e t := by
  refine sim_fallbacks he hw hpool hreq hresp hcons (fun k d' hk => ?_) (hwork ▸ hw.work) (fun name => ?_)
  · rw [hfall, FinMap.lookup_insert_ite] at hk
    split at hk
    · rename_i hkp
      rw [hkp, ← Option.some.inj hk]
      exact hd
    · exact hw.fallbacks k d' hk
  · rw [hwork, hfall, FinMap.lookup_insert_ite]
    split
    · rename_i hn
      have hnone : (s.fallbacks.lookup path).bind (FallBackDetail.request c) = none := by
        cases hl : s.fallbacks.lookup path with
        | none => rfl
        | some d' =>
          rw [Option.bind_some]
          cases hr : FallBackDetail.request c d' with
          | none => rfl
          | some r => exact absurd ((hw.fallbacks path d' hl).request hr).2.1 (hpath _)
      rw [hn, hnone, Option.bind_some, hreqd]
    · rfl

/-! ## The steps -/

theorem sim_send {s t : St} {hist : List Ev} {e : Ev} {r : Request} (he : Ev.call c e = some r) (hw : Wf c s)
    (hr : Proper c r) (hno : NothingFailed c s r.server) (ht : t = { s with requests := s.requests ++ [r] }) :
    Sim c hist s e t := by
  subst ht
  refine ⟨⟨hw.pool, fun r' hr' => ?_, hw.responses, hw.fallbacks, hw.work⟩, Or.inr ⟨.send r, hno, ?_⟩⟩
  · rcases List.mem_append.mp hr' with hr' | hr'
    · exact hw.requests r' hr'
    · rw [List.mem_singleton.mp hr']
      exact hr
  · simp only [box, act, lastCall_append he]
    rfl

theorem registerServer_eq {s : St} {server : Server} {json : String} (hj : c.toJson server = some json)
    (hv : checkServerValid server) (hp : s.pool = true) :
    registerServer c s server = { s with requests := s.requests ++ [⟨server, some json⟩] } := by
  simp only [registerServer, hj, hv, hp, and_self, if_true]

theorem unregisterServer_eq {s : St} {server : Server} (hv : checkServerValid server) (hp : s.pool = true) :
    unregisterServer s server = { s with requests := s.requests ++ [⟨server, none⟩] } := by
  simp only [unregisterServer, hv, hp, and_self, if_true]

theorem lookup_applyRequest (consul : FinMap String String) (r : Request) :
    (applyRequest consul r).lookup = Function.update consul.lookup (getNodePath r.server) r.json := by
  funext path
  unfold applyRequest
  cases hj : r.json with
  | some json =>
    rw [FinMap.lookup_insert_ite, Function.update_apply]
  | none =>
    rw [FinMap.lookup_erase_ite, Function.update_apply]

theorem sim_answer {s : St} {hist : List Ev} {r : Request} {ok : Bool} (hw : Wf c s) (hmem : r ∈ s.requests)
    (hok : Orderly c s (.answer r ok)) : Sim c hist s (.answer r ok) (answer s r ok) := by
  have hlast : lastCall c (hist ++ [.answer r ok]) = lastCall c hist := lastCall_append_none rfl
  refine ⟨⟨hw.pool, fun r' hr' => hw.requests r' (List.mem_of_mem_erase hr'), fun p hp => ?_, hw.fallbacks, hw.work⟩,
    Or.inr ?_⟩
  · rcases List.mem_cons.mp hp with rfl | hp
    · exact hw.requests _ hmem
    · exact hw.responses p hp
  · cases ok with
    | true =>
      refine ⟨.apply r, hok.1, ?_⟩
      have hfailed : failedAt c (answer s r true) = failedAt c s := by
        funext name
        simp [failedAt, answer]
      simp only [box, hfailed, hlast, act]
      simp only [answer, if_true, lookup_applyRequest]
    | false =>
      refine ⟨.fail r, ⟨hmem, hok.2 rfl⟩, ?_⟩
      have hfailed : failedAt c (answer s r false) =
          Function.update (failedAt c s) (getNodeName r.server) (r :: failedAt c s (getNodeName r.server)) := by
        funext name
        by_cases hn : getNodeName r.server = name
        · subst hn
          simp [failedAt, answer]
        · simp [failedAt, answer, hn, Function.update_of_ne (Ne.symm hn)]
      simp only [box, hfailed, hlast, act]
      rfl

/-- With one refused request of a name at most, the one delivered is it. -/
theorem sim_deliver {s : St} {hist : List Ev} {r : Request} {ok : Bool} (hw : Wf c s) (hb : BoxInv c hist s)
    (hmem : (r, ok) ∈ s.responses) : Sim c hist s (.deliver r ok) (deliver s r ok) := by
  have hlast : lastCall c (hist ++ [.deliver r ok]) = lastCall c hist := lastCall_append_none rfl
  have hr : Proper c r := hw.responses _ hmem
  cases ok with
  | true =>
    refine ⟨⟨hw.pool, hw.requests, fun p hp => hw.responses p (List.mem_of_mem_erase hp), hw.fallbacks, hw.work⟩,
      Or.inl ?_⟩
    have hfailed : failedAt c (deliver s r true) = failedAt c s := by
      funext name
      have hnot : (r, true) ∉ s.responses.filter fun p => p.2 = false ∧ getNodeName p.1.server = name := by
        simp
      simp only [failedAt, deliver, if_true, ← List.erase_filter, List.erase_of_not_mem hnot]
    simp only [box, hfailed, hlast]
    rfl
  | false =>
    have hone : (failedAt c s (getNodeName r.server)).length ≤ 1 := hb.one _
    have hin : (r, false) ∈ s.responses.filter fun p => p.2 = false ∧ getNodeName p.1.server = getNodeName r.server := by
      simpa using hmem
    -- the response is the one place where the node has something refused
    have hpos := List.length_pos_of_mem hin
    simp only [failedAt, List.length_append, List.length_map] at hone
    have hfall : ((s.fallbacks.lookup (getNodeName r.server)).bind (FallBackDetail.request c)).toList = [] :=
      List.eq_nil_of_length_eq_zero (by omega)
    have hwork : ((s.work.lookup (getNodeName r.server)).bind (FallBackDetail.request c)).toList = [] :=
      List.eq_nil_of_length_eq_zero (by omega)
    have hsingle := Lib.Outbox.eq_singleton_of_mem hin (by omega)
    have hfailed : failedAt c (deliver s r false) = failedAt c s := by
      funext name
      simp only [failedAt, deliver, Bool.false_eq_true, if_false, ← List.erase_filter, FinMap.lookup_insert_ite]
      by_cases hn : name = getNodeName r.server
      · subst hn
        rw [hsingle, hfall, hwork, if_pos rfl, Option.bind_some, hr.request]
        simp
      · have hnot : (r, false) ∉ s.responses.filter fun p => p.2 = false ∧ getNodeName p.1.server = name := by
          simp [Ne.symm hn]
        rw [if_neg hn, List.erase_of_not_mem hnot]
    refine ⟨⟨hw.pool, hw.requests, fun p hp => hw.responses p (List.mem_of_mem_erase hp), fun k d hk => ?_, hw.work⟩,
      Or.inl ?_⟩
    · rw [show (deliver s r false).fallbacks = s.fallbacks.insert (getNodeName r.server) ⟨r.server, r.type⟩ from rfl,
        FinMap.lookup_insert_ite] at hk
      split at hk
      · rename_i hkn
        rw [hkn, ← Option.some.inj hk]
        exact hr.stored
      · exact hw.fallbacks k d hk
    · simp only [box, hfailed, hlast]
      rfl

theorem sim_fallback {s t : St} {hist : List Ev} (hw : Wf c s) (h : fallback s = some t) : Sim c hist s .fallback t := by
  unfold fallback at h
  split at h
  · rename_i hwork
    cases h
    refine sim_fallbacks rfl hw rfl rfl rfl rfl (fun k d hk => ?_) hw.fallbacks (fun name => ?_)
    · simp at hk
    · simp [hwork]
  · cases h

/-- A retried request of a node leaves its slot and waits again. -/
theorem sim_resend {s t : St} {hist : List Ev} {key : String} {d : FallBackDetail} {r : Request} (hw : Wf c s)
    (hb : BoxInv c hist s) (hkey : s.work.lookup key = some d) (hr : FallBackDetail.request c d = some r)
    (ht : t = { s with work := s.work.erase key, requests := s.requests ++ [r] }) : Sim c hist s (.retry key) t := by
  obtain ⟨hserver, hname, hproper⟩ := (hw.work key d hkey).request hr
  rw [← hserver] at hname
  subst hname
  have hin : r ∈ failedAt c s (getNodeName r.server) := mem_failedAt.mpr (Or.inr (Or.inr ⟨d, hkey, hr⟩))
  have hone : (failedAt c s (getNodeName r.server)).length ≤ 1 := hb.one _
  have hsplit : failedAt c s (getNodeName r.server) = failedAt c t (getNodeName r.server) ++ [r] := by
    subst ht
    simp [failedAt, hkey, hr]
  have hnil : failedAt c t (getNodeName r.server) = [] := by
    rw [hsplit, List.length_append, List.length_singleton] at hone
    exact List.eq_nil_of_length_eq_zero (by omega)
  have hfailed : failedAt c t =
      Function.update (failedAt c s) (getNodeName r.server) ((failedAt c s (getNodeName r.server)).erase r) := by
    funext name
    by_cases hn : name = getNodeName r.server
    · subst hn
      rw [Function.update_self, hsplit, hnil, List.nil_append, List.erase_cons_head]
    · rw [Function.update_of_ne hn]
      subst ht
      simp only [failedAt, FinMap.lookup_erase_ite, if_neg hn]
  subst ht
  refine ⟨⟨hw.pool, fun r' hr' => ?_, hw.responses, hw.fallbacks, fun k d' hk => ?_⟩, Or.inr ⟨.resend r, hin, ?_⟩⟩
  · rcases List.mem_append.mp hr' with hr' | hr'
    · exact hw.requests r' hr'
    · rw [List.mem_singleton.mp hr']
      exact hproper
  · rw [FinMap.lookup_erase_ite] at hk
    split at hk
    · cases hk
    · exact hw.work k d' hk
  · rw [box, hfailed, lastCall_append_none rfl]
    rfl

/-- A retry of a read has no part in the nodes. -/
theorem sim_retry_read {s t : St} {hist : List Ev} {key : String} {d : FallBackDetail} (hw : Wf c s)
    (hkey : s.work.lookup key = some d) (hr : FallBackDetail.request c d = none)
    (ht : SameNodes { s with work := s.work.erase key } t) : Sim c hist s (.retry key) t := by
  refine sim_fallbacks rfl hw ht.pool ht.requests ht.responses ht.consul (ht.fallbacks ▸ hw.fallbacks)
    (fun k d' hk => ?_) (fun name => ?_)
  · rw [ht.work, FinMap.lookup_erase_ite] at hk
    split at hk
    · cases hk
    · exact hw.work k d' hk
  · rw [ht.fallbacks, ht.work, FinMap.lookup_erase_ite]
    split
    · rename_i hn
      rw [hn, hkey, Option.bind_some, hr]
      rfl
    · rfl

theorem discover_sameNodes (s : St) (name : String) : SameNodes s (discover s name) := by
  unfold discover notifyDiscover
  split
  · split <;> exact ⟨rfl, rfl, rfl, rfl, rfl, rfl⟩
  · dsimp only
    split
    · split <;> exact ⟨rfl, rfl, rfl, rfl, rfl, rfl⟩
    · exact ⟨rfl, rfl, rfl, rfl, rfl, rfl⟩

theorem getConfig_sameNodes (s : St) (name : String) : SameNodes s (getConfig s name) := by
  unfold getConfig
  split <;> exact ⟨rfl, rfl, rfl, rfl, rfl, rfl⟩

theorem sim_retry {s t : St} {hist : List Ev} {key : String} (hw : Wf c s) (hb : BoxInv c hist s)
    (h : retry c s key = some t) : Sim c hist s (.retry key) t := by
  unfold retry at h
  cases hkey : s.work.lookup key with
  | none => simp [hkey] at h
  | some d =>
    simp only [hkey] at h
    have hst := hw.work key d hkey
    obtain ⟨server, type⟩ := d
    cases type with
    | register =>
      obtain ⟨-, hv, hj⟩ := hst
      obtain ⟨json, hj⟩ := Option.isSome_iff_exists.mp hj
      refine sim_resend hw hb hkey (r := ⟨server, some json⟩) ?_ ?_
      · simp only [FallBackDetail.request, Option.map_eq_some_iff]
        exact ⟨json, hj, rfl⟩
      · exact (Option.some.inj h).symm.trans (registerServer_eq hj hv hw.pool)
    | unregister =>
      exact sim_resend hw hb hkey rfl ((Option.some.inj h).symm.trans (unregisterServer_eq hst.2 hw.pool))
    | discover =>
      cases h
      exact sim_retry_read hw hkey rfl (discover_sameNodes _ _)
    | getConfig =>
      cases h
      exact sim_retry_read hw hkey rfl (getConfig_sameNodes _ _)

theorem sim_deliverNodes {s : St} {hist : List Ev} {name : String} {res : Option ConsulValues} (hw : Wf c s) :
    Sim c hist s (.deliverNodes name res) (deliverNodes c s name res) := by
  cases res with
  | none =>
    exact sim_insert_path (d := ⟨serviceServer name, .discover⟩) rfl hw (getNodesPath_ne name) (getNodesPath_ne name)
      rfl rfl rfl rfl rfl rfl rfl
  | some values =>
    have hsame : SameNodes s (deliverNodes c s name (some values)) := by
      simp only [deliverNodes, processDiscover]
      split <;> exact ⟨rfl, rfl, rfl, rfl, rfl, rfl⟩
    exact hsame.sim rfl hw

theorem sim_queueConfig {s t : St} {hist : List Ev} {e : Ev} {name : String} {tasks : List Task} (hw : Wf c s)
    (he : Ev.call c e = none) (ht : t = queueConfig { s with tasks := tasks } name) : Sim c hist s e t := by
  subst ht
  exact sim_insert_path (d := ⟨serviceServer name, .getConfig⟩) he hw (getConfigPath_ne name) (getConfigPath_ne name)
    rfl rfl rfl rfl rfl rfl rfl

theorem sim_deliverConfig {s : St} {hist : List Ev} {name : String} {version : Option String}
    {res : Option ConsulValues} (hw : Wf c s) :
    Sim c hist s (.deliverConfig name version res) (deliverConfig c s name version res) := by
  cases res with
  | none => exact sim_queueConfig hw rfl rfl
  | some values =>
    have hsame : SameNodes s (deliverConfig c s name version (some values)) := by
      simp only [deliverConfig, processConfig]
      split
      · exact ⟨rfl, rfl, rfl, rfl, rfl, rfl⟩
      · split <;> exact ⟨rfl, rfl, rfl, rfl, rfl, rfl⟩
    exact hsame.sim rfl hw

/-- Every orderly step of the registry is a disciplined act of the outbox, or none. -/
theorem step_sim {s t : St} {hist : List Ev} {e : Ev} (hw : Wf c s) (hb : BoxInv c hist s) (ho : Orderly c s e)
    (h : step c s e = some t) : Sim c hist s e t := by
  cases e with
  | registerServer server =>
    obtain ⟨hv, hj, hno⟩ := ho
    obtain ⟨json, hj⟩ := Option.isSome_iff_exists.mp hj
    refine sim_send (r := ⟨server, some json⟩) ?_ hw ⟨hv, Or.inr hj.symm⟩ hno ?_
    · simp [Ev.call, hj]
    · exact (Option.some.inj h).symm.trans (registerServer_eq hj hv hw.pool)
  | unregisterServer server =>
    obtain ⟨hv, hno⟩ := ho
    refine sim_send (r := ⟨server, none⟩) rfl hw ⟨hv, Or.inl rfl⟩ hno ?_
    exact (Option.some.inj h).symm.trans (unregisterServer_eq hv hw.pool)
  | discover name =>
    cases h
    exact (discover_sameNodes s name).sim rfl hw
  | getConfig name =>
    cases h
    exact (getConfig_sameNodes s name).sim rfl hw
  | answer r ok =>
    obtain ⟨hmem, rfl⟩ := Lib.guard_some.mp h
    exact sim_answer hw hmem ho
  | deliver r ok =>
    obtain ⟨hmem, rfl⟩ := Lib.guard_some.mp h
    exact sim_deliver hw hb hmem
  | deliverNodes name res =>
    obtain ⟨-, rfl⟩ := Lib.guard_some.mp h
    exact sim_deliverNodes hw
  | readVersion name res =>
    obtain ⟨-, rfl⟩ := Lib.guard_some.mp h
    have hsame : SameNodes s (readVersion c s name res) := by
      simp only [readVersion]
      split <;> exact ⟨rfl, rfl, rfl, rfl, rfl, rfl⟩
    exact hsame.sim rfl hw
  | deliverConfig name version res =>
    obtain ⟨-, rfl⟩ := Lib.guard_some.mp h
    exact sim_deliverConfig hw
  | runNotifyDiscover name servers =>
    obtain ⟨-, rfl⟩ := Lib.guard_some.mp h
    have hsame : SameNodes s (notifyDiscover { s with tasks := s.tasks.erase (.notifyDiscover name servers) }
        name servers) := by
      unfold notifyDiscover
      split <;> exact ⟨rfl, rfl, rfl, rfl, rfl, rfl⟩
    exact hsame.sim rfl hw
  | runQueueConfig name =>
    obtain ⟨-, rfl⟩ := Lib.guard_some.mp h
    exact sim_queueConfig hw rfl rfl
  | runNotifyConfig name config items =>
    obtain ⟨-, rfl⟩ := Lib.guard_some.mp h
    have hsame : SameNodes s (notifyConfig { s with tasks := s.tasks.erase (.notifyConfig name config items) }
        name config items) := by
      simp only [notifyConfig]
      split <;> exact ⟨rfl, rfl, rfl, rfl, rfl, rfl⟩
    exact hsame.sim rfl hw
  | fallback => exact sim_fallback hw h
  | retry key => exact sim_retry hw hb h
  | poolGone => exact absurd ho id
  | subscribe _ | unsubscribe _ | subscribeConfig _ | unsubscribeConfig _ | subscribeConfigItem _ _
  | unsubscribeConfigItem _ _ | enableStatic | disableStatic | pushStaticNodes _ _ =>
    cases h
    refine SameNodes.sim ?_ rfl hw
    exact ⟨rfl, rfl, rfl, rfl, rfl, rfl⟩

/-! ## Last intent wins -/

variable (c)

theorem inv_init (kv : FinMap String String) : Wf c { consul := kv } ∧ BoxInv c [] { consul := kv } := by
  have hnil : ∀ name, failedAt c { consul := kv } name = [] := fun name => by simp [failedAt]
  have hno : ∀ m, ∀ f, f ∉ (box c [] { consul := kv }).failed m := by
    intro m f hf
    rw [show (box c [] { consul := kv }).failed m = [] from hnil m] at hf
    cases hf
  have hlast : ∀ k r, (box c [] { consul := kv }).last k ≠ some r := by
    intro k r hl
    cases hl
  refine ⟨⟨rfl, fun r hr => ?_, fun p hp => ?_, fun k d hk => ?_, fun k d hk => ?_⟩,
    ⟨fun m => ?_, fun m f hf => absurd hf (hno m f), fun m f hf => absurd hf (hno m f), fun k r hl => absurd hl (hlast k r),
      fun k r hl => absurd hl (hlast k r), fun k r hl => absurd hl (hlast k r)⟩⟩
  · cases hr
  · cases hp
  · simp at hk
  · simp at hk
  · rw [show (box c [] { consul := kv }).failed m = [] from hnil m]
    exact Nat.zero_le 1

theorem inv_run (kv : FinMap String String) {es : List Ev} {s : St}
    (hm : Lib.Meets (step c) (Orderly c) { consul := kv } es) (hr : Lib.run (step c) { consul := kv } es = some s) :
    Wf c s ∧ BoxInv c es s := by
  refine Lib.run_history (step c) (Orderly c) (fun hist s => Wf c s ∧ BoxInv c hist s) ?_ [] (inv_init c kv) hm hr
  intro hist s t e hs ho h
  obtain ⟨hw, hsame | ⟨a, hd, hact⟩⟩ := step_sim hs.1 hs.2 ho h
  · refine ⟨hw, ?_⟩
    rw [BoxInv, hsame]
    exact hs.2
  · refine ⟨hw, ?_⟩
    rw [BoxInv, hact]
    exact Lib.Outbox.inv_act hs.2 hd

/-- In every orderly run from any contents of consul, a quiescent state holds under each
    path what the last call for it asked for. -/
theorem last_intent_wins (kv : FinMap String String) {es : List Ev} {s : St}
    (hm : Lib.Meets (step c) (Orderly c) { consul := kv } es) (hr : Lib.run (step c) { consul := kv } es = some s)
    (hq : Quiescent s) : LastIntent c es s := by
  intro path r hlast
  refine (inv_run c kv hm hr).2.settled _ _ _ hq.requests (fun name => ?_) hlast
  simp [box, failedAt, hq.responses, hq.fallbacks, hq.work]

/-! ## A node that comes back -/

def setPlain : Request := ⟨plainServer, some (plainJson plainServer)⟩

def deletePlain : Request := ⟨plainServer, none⟩

theorem nothingFailed_init (server : Server) : NothingFailed c {} server := by
  have hnil : ∀ name, failedAt c {} name = [] := fun name => by simp [failedAt]
  refine ⟨hnil _, fun name f hf => ?_⟩
  rw [hnil] at hf
  cases hf

/-- A register that is refused once, queued and sent again. -/
def retried : List Ev :=
  [.registerServer plainServer, .answer setPlain false, .deliver setPlain false, .fallback,
    .retry (getNodeName plainServer), .answer setPlain true, .deliver setPlain true]

theorem retried_orderly : Lib.Meets (step plainCodec) (Orderly plainCodec) {} retried := by
  refine ⟨⟨by decide, rfl, nothingFailed_init _ _⟩, fun s1 h1 => ⟨?_, fun s2 h2 => ⟨trivial, fun s3 h3 =>
    ⟨trivial, fun s4 h4 => ⟨trivial, fun s5 h5 => ⟨?_, fun s6 h6 => ⟨trivial, fun s7 h7 => trivial⟩⟩⟩⟩⟩⟩⟩
  · have hreq : (Lib.run (step plainCodec) {} [.registerServer plainServer]).map St.requests = some [setPlain] := by
      decide +kernel
    rw [(Lib.run_cons_some _).mpr ⟨s1, h1, rfl⟩] at hreq
    have hreq : s1.requests = [setPlain] := Option.some.inj hreq
    rw [Orderly, hreq]
    exact ⟨by simp, fun _ r' hr' => by simp at hr'⟩
  · have hreq : (Lib.run (step plainCodec) {} (retried.take 5)).map St.requests = some [setPlain] := by
      decide +kernel
    have hrun : Lib.run (step plainCodec) {} (retried.take 5) = some s5 :=
      (Lib.run_cons_some _).mpr ⟨s1, h1, (Lib.run_cons_some _).mpr ⟨s2, h2, (Lib.run_cons_some _).mpr ⟨s3, h3,
        (Lib.run_cons_some _).mpr ⟨s4, h4, (Lib.run_cons_some _).mpr ⟨s5, h5, rfl⟩⟩⟩⟩⟩
    rw [hrun] at hreq
    have hreq : s5.requests = [setPlain] := Option.some.inj hreq
    rw [Orderly, hreq]
    exact ⟨by simp, fun _ r' hr' => by simp at hr'⟩

/-- What the run over `es` ends in: quiescent, and the value under a path. -/
def endsWith (es : List Ev) (path : String) : Option (Bool × Option String) :=
  (Lib.run (step plainCodec) {} es).map fun s =>
    (decide (s.requests = [] ∧ s.responses = [] ∧ s.tasks = [] ∧ s.fallbacks = ∅ ∧ s.work = ∅), s.consul.lookup path)

theorem quiescent_of_endsWith (es : List Ev) (path : String) (v : Option String)
    (h : endsWith es path = some (true, v)) :
    ∃ s, Lib.run (step plainCodec) {} es = some s ∧ Quiescent s ∧ s.consul.lookup path = v := by
  obtain ⟨s, hs, hv⟩ := Option.map_eq_some_iff.mp h
  obtain ⟨hq, hv⟩ := Prod.mk.inj hv
  obtain ⟨h1, h2, h3, h4, h5⟩ := of_decide_eq_true hq
  exact ⟨s, hs, ⟨h1, h2, h3, h4, h5⟩, hv⟩

theorem last_intent_wins_retried :
    ∃ s, Lib.run (step plainCodec) {} retried = some s ∧ Quiescent s ∧ LastIntent plainCodec retried s := by
  obtain ⟨s, hs, hq, -⟩ := quiescent_of_endsWith retried (getNodePath plainServer)
    (some (plainJson plainServer)) (by decide +kernel)
  exact ⟨s, hs, hq, last_intent_wins plainCodec ∅ retried_orderly hs hq⟩

/-- A register is refused, but its response comes after the unregister has succeeded. -/
def lateFailure : List Ev :=
  [.registerServer plainServer, .unregisterServer plainServer, .answer setPlain false, .answer deletePlain true,
    .deliver deletePlain true, .deliver setPlain false, .fallback, .retry (getNodeName plainServer),
    .answer setPlain true, .deliver setPlain true]

/-- It is sent again, and the node is back although the last call was the unregister. -/
theorem late_failure_undoes_unregister :
    ∃ s, Lib.run (step plainCodec) {} lateFailure = some s ∧ Quiescent s ∧
      lastCall plainCodec lateFailure (getNodePath plainServer) = some deletePlain ∧
      s.consul.lookup (getNodePath plainServer) = some (plainJson plainServer) ∧
      ¬ LastIntent plainCodec lateFailure s := by
  obtain ⟨s, hs, hq, hv⟩ := quiescent_of_endsWith lateFailure (getNodePath plainServer)
    (some (plainJson plainServer)) (by decide +kernel)
  have hlast : lastCall plainCodec lateFailure (getNodePath plainServer) = some deletePlain := by decide +kernel
  refine ⟨s, hs, hq, hlast, hv, fun h => ?_⟩
  have := h _ _ hlast
  rw [hv] at this
  cases this

end ConsulRegistry

end PredictorService.ServiceRouter
