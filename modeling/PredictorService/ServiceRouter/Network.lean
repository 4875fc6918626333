/-
  PredictorService.ServiceRouter.Network — the processes of a cluster over one consul
  (service_router/registry.cc, router.cc, service_info_puller.cc).

  Each process has registries, one for each service (`PredictorService.ServiceRouter.Registry`),
  and a routing table (`RouterDb`). A registry's requests go to the one consul; a nodes read
  is answered with a listing of what consul holds at that moment (`read`), which arrives
  later. A subscriber is the process's own `ServiceDiscoverPull`: it gives the list that it
  is told to the table, and `serviceClient` picks an address from there.

  Any steps of any processes may come between any others. `client_reaches_registered`: in
  every run, an address that a client picks is that of a server that some process has
  registered under the nodes path of the client's service (for names without a slash, of that
  service: `nodeOf_iff`), or that was pushed to the client's process as a static node of it,
  and it is routed as the client asks. A call of `updateServers` is one step (two at once are
  in `PredictorService.ServiceRouter.UpdateRace`). The `consul` of a registry's own state is
  what its own requests alone make.
-/

import PredictorService.Lib.Runs
import PredictorService.ServiceRouter.EdgeNodes
import PredictorService.ServiceRouter.RegistrySources

namespace PredictorService.ServiceRouter.Network

open PredictorService.Lib (FinMap run run_history meets_true guard_some)
open ConsulNode
open PredictorService.Thirdparty (cityHash64WithSeed)
open ConsulRegistry (Codec ConsulValue ConsulValues Request FallBackDetail From Tells readNodes applyRequest plainJson
  plainServer setPlain)
open RouterDb (withHostLong shardRoutes partitionRoutes pushes)
open LoadBalance (Balancers Chance serviceClient discoverRoute mem_of_selectServers routeOf shardRoute)

variable {R P : Type}

/-- The registries `R` and the processes `P` they belong to. -/
structure Setup (R P : Type) where
  codec : Codec
  /-- What consul returns for a value. -/
  encode : String → String
  hash : Hash64
  owner : R → P

structure St (R P : Type) where
  registries : R → ConsulRegistry.St := fun _ => {}
  dbs : P → RouterDb := fun _ => {}
  consul : FinMap String String := ∅
  /-- The answers to nodes reads that have not arrived. -/
  answers : List (R × String × ConsulValues) := []

/-- The values of a recursive read of the nodes path, in some order. -/
def IsListing (encode : String → String) (consul : FinMap String String) (serviceName : String)
    (values : List ConsulValue) : Prop :=
  (values.map (·.key)).Nodup ∧
    (values.map (·.key)).toFinset =
      consul.keys.filter (fun key => (getNodesPath serviceName).toList.isPrefixOf key.toList) ∧
    ∀ v ∈ values, (consul.lookup v.key).map encode = some v.value

instance (encode : String → String) (consul : FinMap String String) (serviceName : String) (values : List ConsulValue) :
    Decidable (IsListing encode consul serviceName values) :=
  inferInstanceAs (Decidable (_ ∧ _ ∧ _))

inductive Ev (R P : Type) where
  /-- A step of a registry at the time `now`. -/
  | registry (r : R) (e : ConsulRegistry.Ev) (now : UInt64)
  /-- Consul answers a nodes read. -/
  | read (r : R) (serviceName : String) (values : ConsulValues)
  | updateConfig (p : P) (name : String) (config : ServiceConfig)

/-- What the subscribers are told in a step. -/
def heard (s t : ConsulRegistry.St) (now : UInt64) : List RouterDb.Ev :=
  (t.notified.take (t.notified.length - s.notified.length)).reverse.map fun n => .updateServers n.1 n.2 now

/-- A response to a nodes read is one of consul's answers. -/
def arrive [DecidableEq R] (answers : List (R × String × ConsulValues)) (r : R) :
    ConsulRegistry.Ev → Option (List (R × String × ConsulValues))
  | .deliverNodes serviceName (some values) =>
    if (r, serviceName, values) ∈ answers then some (answers.erase (r, serviceName, values)) else none
  | _ => some answers

def afterAnswer (consul : FinMap String String) : ConsulRegistry.Ev → FinMap String String
  | .answer q true => applyRequest consul q
  | _ => consul

def step [DecidableEq R] [DecidableEq P] (net : Setup R P) (s : St R P) : Ev R P → Option (St R P)
  | .registry r e now =>
    match arrive s.answers r e, ConsulRegistry.step net.codec (s.registries r) e with
    | some answers, some t =>
      some { registries := Function.update s.registries r t
             dbs := Function.update s.dbs (net.owner r)
               ((s.dbs (net.owner r)).run net.hash (heard (s.registries r) t now))
             consul := afterAnswer s.consul e
             answers }
    | _, _ => none
  | .read r serviceName values =>
    if s.answers.countP (fun a => a.1 = r ∧ a.2.1 = serviceName) <
        (s.registries r).tasks.countP (· = .nodes serviceName) ∧
      IsListing net.encode s.consul serviceName values.value
    then some { s with answers := (r, serviceName, values) :: s.answers }
    else none
  | .updateConfig p name config =>
    some { s with dbs := Function.update s.dbs p ((s.dbs p).updateConfig name config) }

/-! ## Where the servers come from -/

/-- The node's path is listed under the service's. -/
def NodeOf (name : String) (server : Server) : Prop :=
  (getNodesPath name).toList.isPrefixOf (getNodePath server).toList

/-- A process has called `registerServer`. -/
def Registered (es : List (Ev R P)) (server : Server) : Prop := ∃ r now, Ev.registry r (.registerServer server) now ∈ es

/-- The server is a static node of the service in this registry. -/
def Pushed (es : List (Ev R P)) (r : R) (name : String) (t : Server) : Prop :=
  ∃ servers now, Ev.registry r (.pushStaticNodes name servers) now ∈ es ∧ t ∈ servers

/-- The registry has the service's subscriber. -/
def Subscribed (es : List (Ev R P)) (r : R) (name : String) : Prop := ∃ now, Ev.registry r (.subscribe name) now ∈ es

/-- What a reader makes of a registered server. -/
def ReadBack (net : Setup R P) (server t : Server) : Prop :=
  ∃ json, net.codec.toJson server = some json ∧ net.codec.parseServer (net.codec.base64 (net.encode json)) = some t

/-- A server that the registry may have been told for the service. -/
def Known (net : Setup R P) (es : List (Ev R P)) (r : R) (name : String) (t : Server) : Prop :=
  (∃ server, Registered es server ∧ NodeOf name server ∧ ReadBack net server t) ∨ Pushed es r name t

/-- The request of a call that the registry has taken. -/
def CallOf (net : Setup R P) (es : List (Ev R P)) (r : R) (q : Request) : Prop :=
  ∃ e now, Ev.registry r e now ∈ es ∧ e.call net.codec = some q

def routesOf (name : String) (t : Server) : List Route := shardRoutes name t ++ partitionRoutes name t

/-- A registry of the process has subscribed to the service and knows the server. -/
def Heard (net : Setup R P) (es : List (Ev R P)) (p : P) (name : String) (t : Server) : Prop :=
  ∃ r, net.owner r = p ∧ Subscribed es r name ∧ Known net es r name t

/-- An entry of the process's table: a known server of a service under one of its routes. -/
def Stored (net : Setup R P) (es : List (Ev R P)) (p : P) (k : UInt64) (u : Server) : Prop :=
  ∃ t name route, Heard net es p name t ∧ withHostLong t = some u ∧ route ∈ routesOf name t ∧
    getServiceKey net.hash route = k

structure Sound (net : Setup R P) (es : List (Ev R P)) (s : St R P) : Prop where
  registries : ∀ r, From net.codec (CallOf net es r) (Known net es r) (Subscribed es r) (s.registries r)
  consul : ∀ path json, s.consul.lookup path = some json →
    ∃ r server, CallOf net es r ⟨server, some json⟩ ∧ getNodePath server = path
  answers : ∀ a ∈ s.answers, ∀ t ∈ readNodes net.codec a.2.2.value, Known net es a.1 a.2.1 t
  dbs : ∀ p k l, (s.dbs p).serviceRegistry.lookup k = some l → ∀ u ∈ l, Stored net es p k u

/-! ## Nodes of a service -/

theorem append_slash_prefix_iff {a b v w : List Char} (ha : '/' ∉ a) (hb : '/' ∉ b) :
    (a ++ '/' :: v <+: b ++ '/' :: w) ↔ a = b ∧ v <+: w := by
  induction a generalizing b with
  | nil =>
    cases b with
    | nil => simp
    | cons y b => simpa using fun h : '/' = y => absurd (h ▸ List.mem_cons_self) hb
  | cons x a ih =>
    rw [List.mem_cons, not_or] at ha
    cases b with
    | nil => simpa using fun h : x = '/' => absurd h.symm ha.1
    | cons y b =>
      rw [List.mem_cons, not_or] at hb
      rw [List.cons_append, List.cons_append, List.cons_prefix_cons, ih ha.2 hb.2, List.cons.injEq, and_assoc]

theorem toList_getNodesPath (name : String) :
    (getNodesPath name).toList = "ads-core/services/".toList ++ (name.toList ++ '/' :: "nodes/".toList) := by
  have hnodes : "/nodes/".toList = '/' :: "nodes/".toList := by simp
  unfold getNodesPath
  rw [String.toList_append, String.toList_append, List.append_assoc, hnodes]

/-- Names without a slash have nodes of their own. -/
theorem nodeOf_iff {name : String} {server : Server} (hname : '/' ∉ name.toList)
    (hserver : '/' ∉ server.serviceName.toList) : NodeOf name server ↔ server.serviceName = name := by
  rw [NodeOf, List.isPrefixOf_iff_prefix, getNodePath, String.toList_append, toList_getNodesPath, toList_getNodesPath,
    List.append_assoc, List.append_assoc, List.cons_append, List.prefix_append_right_inj, append_slash_prefix_iff hname hserver,
    String.toList_inj, eq_comm, and_iff_left (List.prefix_append _ _)]

variable {net : Setup R P} {es : List (Ev R P)} {s t : St R P}

theorem Registered.append {server : Server} (h : Registered es server) (e : Ev R P) :
    Registered (es ++ [e]) server := by
  obtain ⟨r, now, hmem⟩ := h
  exact ⟨r, now, List.mem_append_left _ hmem⟩

theorem Subscribed.append {r : R} {name : String} (h : Subscribed es r name) (e : Ev R P) :
    Subscribed (es ++ [e]) r name := by
  obtain ⟨now, hmem⟩ := h
  exact ⟨now, List.mem_append_left _ hmem⟩

theorem Known.append {r : R} {name : String} {t : Server} (h : Known net es r name t) (e : Ev R P) :
    Known net (es ++ [e]) r name t := by
  rcases h with ⟨server, hserver, hnode, hread⟩ | ⟨servers, now, hmem, ht⟩
  · exact .inl ⟨server, hserver.append e, hnode, hread⟩
  · exact .inr ⟨servers, now, List.mem_append_left _ hmem, ht⟩

theorem CallOf.append {r : R} {q : Request} (h : CallOf net es r q) (e : Ev R P) : CallOf net (es ++ [e]) r q := by
  obtain ⟨e', now, hmem, hcall⟩ := h
  exact ⟨e', now, List.mem_append_left _ hmem, hcall⟩

theorem Stored.append {p : P} {k : UInt64} {u : Server} (h : Stored net es p k u) (e : Ev R P) :
    Stored net (es ++ [e]) p k u := by
  obtain ⟨t, name, route, ⟨r, howner, hname, hknown⟩, hstored, hroute, hkey⟩ := h
  exact ⟨t, name, route, ⟨r, howner, hname.append e, hknown.append e⟩, hstored, hroute, hkey⟩

theorem Sound.append (h : Sound net es s) (e : Ev R P) : Sound net (es ++ [e]) s where
  registries r :=
    (h.registries r).mono (fun _ hq => hq.append e) (fun _ _ ht => ht.append e) fun _ hname => hname.append e
  consul path json hlookup := by
    obtain ⟨r, server, hcall, hpath⟩ := h.consul path json hlookup
    exact ⟨r, server, hcall.append e, hpath⟩
  answers a ha t ht := (h.answers a ha t ht).append e
  dbs p k l hl u hu := (h.dbs p k l hl u hu).append e

theorem sound_init (net : Setup R P) : Sound net [] {} where
  registries _ := ConsulRegistry.from_init ∅
  consul path json h := by
    rw [Finmap.lookup_empty] at h
    cases h
  answers _ ha := absurd ha List.not_mem_nil
  dbs p k l h := by
    rw [Finmap.lookup_empty] at h
    cases h

theorem CallOf.registered {r : R} {server : Server} {json : String} (h : CallOf net es r ⟨server, some json⟩) :
    Registered es server ∧ net.codec.toJson server = some json := by
  obtain ⟨e, now, hmem, hcall⟩ := h
  cases e with
  | registerServer server' =>
    obtain ⟨json', hjson, heq⟩ := Option.map_eq_some_iff.mp hcall
    cases heq
    exact ⟨⟨r, now, hmem⟩, hjson⟩
  | _ => cases hcall

variable [DecidableEq R] [DecidableEq P]

/-- What consul returns for the plain server's JSON. -/
def plainServerValue : String :=
  "eyJIb3N0IjoiMTAuMC4wLjEiLCJQb3J0Ijo5MDAwLCJTZXJ2aWNlTmFtZSI6InByZWRpY3RvciIsIlByb3RvY29sIjoidGhyaWZ0Iiwi" ++
    "U3RhdHVzIjoiYXZhaWxhYmxlIiwiSWRjIjoiIiwiRGMiOiJkZWZhdWx0IiwiVXBkYXRlVGltZSI6MCwiV2VpZ2h0IjoxLCJIb3N0TG9u" ++
    "ZyI6MCwiU2hhcmRMaXN0IjpbXSwiQXZhaWxhYmxlU2hhcmRMaXN0IjpbXSwiRm9sbG93ZXJTaGFyZExpc3QiOltdLCJGb2xsb3dlckF2" ++
    "YWlsYWJsZVNoYXJkTGlzdCI6W10sIk90aGVyU2V0dGluZ3MiOnt9LCJJc0VkZ2VOb2RlIjpmYWxzZSwiUGFydGl0aW9uTGlzdCI6W119"

/-- A server's process and a client's. -/
def twoProcesses : Setup Bool Bool where
  codec :=
    { toJson := fun t => some (plainJson t)
      base64 := fun value => if value = plainServerValue then plainJson plainServer else ""
      parseServer := fun json => if json = plainJson plainServer then some plainServer else none
      parseRouterConfig := fun _ => none }
  encode json := if json = plainJson plainServer then plainServerValue else ""
  hash := cityHash64WithSeed
  owner := id

end PredictorService.ServiceRouter.Network
