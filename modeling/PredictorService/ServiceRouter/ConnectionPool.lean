/-
  PredictorService.ServiceRouter.ConnectionPool — the thrift connection pool
  (service_router/connection_pool.h). The pool keeps one map of connections per event
  base. A request is spread over several connections of a server by a random index that is
  added to the port in the seed of the cache key.

  Connections turn bad at any time (`turnBad`); a bad one is replaced when its key is asked
  for again. The draws of `folly::Random::secureRand32` and the hash are parameters.

  - `entry_getConnection` / `getConnection_cases`: what a call does to every cache entry and
    where the connection it returns comes from.
  - `returned_run`: in every run, the connection returned for a request was created for a
    request with the same key.
  - `never_crosses_iff`: for any sequence of requests, every connection returned is one for
    the requested address and port, whenever connections turn bad, iff no two of the
    requests have one address and one sum of port and index but two ports. Two servers on
    one host with neighbouring ports are enough (`neighbour_port_crosses`).
-/

import PredictorService.Lib.FinMap
import PredictorService.Lib.Runs
import PredictorService.ServiceRouter.RouterDb
import PredictorService.Thirdparty.City

namespace PredictorService.ServiceRouter

open PredictorService.Lib (FinMap)
open PredictorService.Thirdparty (cityHash64WithSeed)

namespace ConnectionPool

/-- A transport and the endpoint it was created for. -/
structure Connection where
  id : Nat
  addr : String
  port : UInt16
  deriving DecidableEq, Repr

abbrev EventBase := Nat

/-- `evb_list_`, which the constructor fills with at least one event base. -/
structure EvbList where
  list : List EventBase
  nonempty : list ≠ []

abbrev Connections := FinMap UInt64 Connection

/-- The arguments of `getConnection` and the index it draws. -/
structure Request where
  addr : String
  port : UInt16
  maxConnPerServer : Int32
  draw : UInt32
  deriving DecidableEq, Repr

structure St where
  threads : FinMap EventBase Connections := ∅
  /-- The connections that are no longer `good()`. -/
  bad : Finset Nat := ∅
  nextId : Nat := 0
  /-- What the calls returned, latest first. -/
  returned : List (Request × Connection) := []

inductive Ev where
  | getConnection (q : Request)
  | turnBad (id : Nat)
  deriving DecidableEq, Repr

variable (H : Hash64) (evbs : EvbList)

/-- A `max_conn_per_server` of 0 stands for the number of event bases. -/
def maxConn (q : Request) : Int32 :=
  if q.maxConnPerServer = 0 then Int32.ofNat evbs.list.length else q.maxConnPerServer

/-- `secureRand32(0, max)` gives a number below `max`, and 0 when `max` is 0. -/
def InRange (q : Request) : Prop :=
  if (maxConn evbs q).toUInt32 = 0 then q.draw = 0 else q.draw < (maxConn evbs q).toUInt32

instance (q : Request) : Decidable (InRange evbs q) :=
  inferInstanceAs (Decidable (if (maxConn evbs q).toUInt32 = 0 then q.draw = 0 else q.draw < (maxConn evbs q).toUInt32))

/-- `port + expand_index`, an `int` that becomes the `uint64` seed. -/
def Request.seed (q : Request) : UInt64 := (q.port.toUInt32.toInt32 + q.draw.toInt32).toInt64.toUInt64

def Request.hashKey (q : Request) : UInt64 := H q.addr q.seed

/-- The event base of a key. -/
def evbOf (hashKey : UInt64) : EventBase :=
  evbs.list.get ⟨hashKey.toNat % evbs.list.length, Nat.mod_lt _ (List.length_pos_iff.mpr evbs.nonempty)⟩

/-- `ConnectionThreadBase::getConnection`: a good cached connection, or a new one in its
    place. -/
def threadGetConnection (connections : Connections) (bad : Finset Nat) (nextId : Nat) (addr : String) (port : UInt16)
    (hashKey : UInt64) : Connections × Connection :=
  let conn : Connection := ⟨nextId, addr, port⟩
  match connections.lookup hashKey with
  | some cached => if cached.id ∉ bad then (connections, cached) else (connections.insert hashKey conn, conn)
  | none => (connections.insert hashKey conn, conn)

/-- `ConnectionPool::getConnection`. -/
def getConnection (s : St) (q : Request) : St × Connection :=
  let evb := evbOf evbs (q.hashKey H)
  let connections := (s.threads.lookup evb).getD ∅
  let (connections, conn) := threadGetConnection connections s.bad s.nextId q.addr q.port (q.hashKey H)
  ({ s with threads := s.threads.insert evb connections, nextId := s.nextId + 1,
            returned := (q, conn) :: s.returned }, conn)

def step (s : St) : Ev → Option St
  | .getConnection q => if InRange evbs q then some (getConnection H evbs s q).1 else none
  | .turnBad id => some { s with bad := insert id s.bad }

/-- The requests of a run, in order. -/
def requests (es : List Ev) : List Request :=
  es.filterMap fun e => match e with
    | .getConnection q => some q
    | .turnBad _ => none

/-- Every connection returned so far was created for the requested address and port. -/
def NoCross (s : St) : Prop := ∀ p ∈ s.returned, p.2.addr = p.1.addr ∧ p.2.port = p.1.port

/-! ## One call -/

/-- The connection cached under a key, in the thread of its event base. -/
def entry (s : St) (k : UInt64) : Option Connection := (s.threads.lookup (evbOf evbs k)).bind (·.lookup k)

theorem getConnection_returned (s : St) (q : Request) :
    (getConnection H evbs s q).1.returned = (q, (getConnection H evbs s q).2) :: s.returned := rfl

@[simp] theorem getConnection_bad (s : St) (q : Request) : (getConnection H evbs s q).1.bad = s.bad := rfl

theorem lookup_threadGetConnection (connections : Connections) (bad : Finset Nat) (nextId : Nat) (addr : String)
    (port : UInt16) (hashKey k : UInt64) :
    (threadGetConnection connections bad nextId addr port hashKey).1.lookup k =
      if k = hashKey then some (threadGetConnection connections bad nextId addr port hashKey).2
      else connections.lookup k := by
  unfold threadGetConnection
  split
  · rename_i cached hc
    split
    · by_cases hk : k = hashKey
      · rw [if_pos hk, hk, hc]
      · rw [if_neg hk]
    · rw [FinMap.lookup_insert_ite]
  · rw [FinMap.lookup_insert_ite]

/-- A call leaves the returned connection under its key and every other entry as it was. -/
theorem entry_getConnection (s : St) (q : Request) (k : UInt64) :
    entry evbs (getConnection H evbs s q).1 k =
      if k = q.hashKey H then some (getConnection H evbs s q).2 else entry evbs s k := by
  simp only [entry, getConnection, FinMap.lookup_insert_ite]
  by_cases hevb : evbOf evbs k = evbOf evbs (q.hashKey H)
  · rw [if_pos hevb, Option.bind_some, lookup_threadGetConnection, hevb]
    by_cases hk : k = q.hashKey H
    · rw [if_pos hk, if_pos hk]
    · rw [if_neg hk, if_neg hk]
      cases s.threads.lookup (evbOf evbs (q.hashKey H)) <;> rfl
  · have hk : k ≠ q.hashKey H := fun h => hevb (h ▸ rfl)
    rw [if_neg hevb, if_neg hk]

/-- What is returned was cached and good, or is new for this request because nothing good
    was cached. -/
theorem getConnection_cases (s : St) (q : Request) :
    entry evbs s (q.hashKey H) = some (getConnection H evbs s q).2 ∨
    ((getConnection H evbs s q).2.addr = q.addr ∧ (getConnection H evbs s q).2.port = q.port ∧
      ∀ c, entry evbs s (q.hashKey H) = some c → c.id ∈ s.bad) := by
  have hentry : entry evbs s (q.hashKey H) =
      ((s.threads.lookup (evbOf evbs (q.hashKey H))).getD ∅).lookup (q.hashKey H) := by
    unfold entry
    cases s.threads.lookup (evbOf evbs (q.hashKey H)) <;> rfl
  rw [hentry]
  show _ ∨ (threadGetConnection _ _ _ _ _ _).2.addr = _ ∧ (threadGetConnection _ _ _ _ _ _).2.port = _ ∧ _
  simp only [getConnection, threadGetConnection]
  split
  · rename_i cached hc
    by_cases hbad : cached.id ∈ s.bad
    · rw [if_neg (not_not.mpr hbad)]
      refine Or.inr ⟨rfl, rfl, fun c hcc => ?_⟩
      rw [hc] at hcc
      exact Option.some.inj hcc ▸ hbad
    · rw [if_pos hbad]
      exact Or.inl hc
  · rename_i hc
    refine Or.inr ⟨rfl, rfl, fun c hcc => ?_⟩
    rw [hc] at hcc
    cases hcc

/-! ## Runs -/

theorem requests_append (es fs : List Ev) : requests (es ++ fs) = requests es ++ requests fs := List.filterMap_append

theorem step_getConnection {s t : St} {q : Request} (h : step H evbs s (.getConnection q) = some t) :
    InRange evbs q ∧ t = (getConnection H evbs s q).1 := by
  simp only [step] at h
  split at h
  · exact ⟨‹_›, (Option.some.inj h).symm⟩
  · cases h

/-- The connection was created for one of the requests with that key. -/
def Made (reqs : List Request) (k : UInt64) (c : Connection) : Prop :=
  ∃ q ∈ reqs, q.hashKey H = k ∧ c.addr = q.addr ∧ c.port = q.port

theorem Made.mono {reqs reqs' : List Request} (h : ∀ q ∈ reqs, q ∈ reqs') {k : UInt64} {c : Connection}
    (hm : Made H reqs k c) : Made H reqs' k c := by
  obtain ⟨q, hq, hk⟩ := hm
  exact ⟨q, h q hq, hk⟩

structure AllMade (es : List Ev) (s : St) : Prop where
  cached : ∀ k c, entry evbs s k = some c → Made H (requests es) k c
  returned : ∀ p ∈ s.returned, p.1 ∈ requests es ∧ Made H (requests es) (p.1.hashKey H) p.2

theorem allMade_step (hist : List Ev) (s t : St) (e : Ev) (hs : AllMade H evbs hist s)
    (h : step H evbs s e = some t) : AllMade H evbs (hist ++ [e]) t := by
  have hmono : ∀ q ∈ requests hist, q ∈ requests (hist ++ [e]) := by
    intro q hq
    rw [requests_append]
    exact List.mem_append_left _ hq
  cases e with
  | turnBad id =>
    cases h
    refine ⟨fun k c hk => (hs.cached k c hk).mono H hmono, fun p hp => ?_⟩
    exact ⟨hmono _ (hs.returned p hp).1, (hs.returned p hp).2.mono H hmono⟩
  | getConnection q =>
    obtain ⟨-, rfl⟩ := step_getConnection H evbs h
    have hq : q ∈ requests (hist ++ [.getConnection q]) := by
      rw [requests_append]
      exact List.mem_append_right _ List.mem_cons_self
    have hconn : Made H (requests (hist ++ [.getConnection q])) (q.hashKey H) (getConnection H evbs s q).2 := by
      rcases getConnection_cases H evbs s q with hc | ⟨ha, hp, -⟩
      · exact (hs.cached _ _ hc).mono H hmono
      · exact ⟨q, hq, rfl, ha, hp⟩
    refine ⟨fun k c hk => ?_, fun p hp => ?_⟩
    · rw [entry_getConnection] at hk
      split at hk
      · rename_i hkey
        rw [hkey, ← Option.some.inj hk]
        exact hconn
      · exact (hs.cached k c hk).mono H hmono
    · rw [getConnection_returned] at hp
      rcases List.mem_cons.mp hp with rfl | hp
      · exact ⟨hq, hconn⟩
      · exact ⟨hmono _ (hs.returned p hp).1, (hs.returned p hp).2.mono H hmono⟩

/-- Whenever connections turn bad, what is returned was created for a request with the same
    key. -/
theorem returned_run {es : List Ev} {s : St} (hr : Lib.run (step H evbs) {} es = some s) : AllMade H evbs es s := by
  have h0 : AllMade H evbs [] {} := ⟨fun k c hk => by simp [entry] at hk, fun p hp => by cases hp⟩
  exact Lib.run_history (step H evbs) (fun _ _ => True) (AllMade H evbs)
    (fun hist s t e hs _ h => allMade_step H evbs hist s t e hs h) [] h0 (Lib.meets_true _ _ es) hr

/-- While no connection turns bad, an entry stays what it is. -/
structure Stable (reqs : List Request) (s : St) : Prop where
  bad : s.bad = ∅
  returned : ∀ p ∈ s.returned, entry evbs s (p.1.hashKey H) = some p.2
  all : ∀ q ∈ reqs, ∃ c, (q, c) ∈ s.returned

theorem stable_getConnection {reqs : List Request} {s : St} (hs : Stable H evbs reqs s) (q : Request) :
    Stable H evbs (reqs ++ [q]) (getConnection H evbs s q).1 := by
  refine ⟨hs.bad, fun p hp => ?_, fun q' hq' => ?_⟩
  · rw [entry_getConnection]
    rw [getConnection_returned] at hp
    rcases List.mem_cons.mp hp with rfl | hp
    · rw [if_pos rfl]
    · split
      · rename_i hkey
        -- the cached connection is still good, so it is the one returned
        have hcached := hs.returned p hp
        rcases getConnection_cases H evbs s q with hc | ⟨-, -, hc⟩
        · rw [← hc, ← hkey, hcached]
        · rw [hkey] at hcached
          have := hc _ hcached
          rw [hs.bad] at this
          simp at this
      · exact hs.returned p hp
  · rw [getConnection_returned]
    rcases List.mem_append.mp hq' with hq' | hq'
    · obtain ⟨c, hc⟩ := hs.all q' hq'
      exact ⟨c, List.mem_cons_of_mem _ hc⟩
    · rw [List.mem_singleton.mp hq']
      exact ⟨_, List.mem_cons_self⟩

/-- The run of the requests alone, in which no connection turns bad. -/
theorem stable_run (reqs : List Request) (hrange : ∀ q ∈ reqs, InRange evbs q) :
    ∃ s, Lib.run (step H evbs) {} (reqs.map .getConnection) = some s ∧ Stable H evbs reqs s := by
  induction reqs using List.reverseRecOn with
  | nil =>
    refine ⟨{}, rfl, rfl, fun p hp => ?_, fun q hq => ?_⟩
    · cases hp
    · cases hq
  | append_singleton reqs q ih =>
    obtain ⟨s, hs, hst⟩ := ih fun q' hq' => hrange q' (List.mem_append_left _ hq')
    have hq : InRange evbs q := hrange q (by simp)
    refine ⟨(getConnection H evbs s q).1, ?_, stable_getConnection H evbs hst q⟩
    rw [List.map_append]
    exact (Lib.run_append_some _).mpr ⟨s, hs, (Lib.run_cons_some _).mpr ⟨_, if_pos hq, rfl⟩⟩

/-- No request gets a connection of another address or port, whenever connections turn bad,
    iff requests with one address and one sum of port and index have one port. -/
theorem never_crosses_iff (reqs : List Request) (hrange : ∀ q ∈ reqs, InRange evbs q)
    (hinj : Set.InjOn (fun a : String × UInt64 => H a.1 a.2) {a | ∃ q ∈ reqs, a = (q.addr, q.seed)}) :
    (∀ es s, requests es = reqs → Lib.run (step H evbs) {} es = some s → NoCross s) ↔
      ∀ q ∈ reqs, ∀ q' ∈ reqs, q.addr = q'.addr → q.seed = q'.seed → q.port = q'.port := by
  constructor
  · intro h q hq q' hq' haddr hseed
    obtain ⟨s, hs, hst⟩ := stable_run H evbs reqs hrange
    have hreqs : requests (reqs.map .getConnection) = reqs := by
      simp only [requests, List.filterMap_map, Function.comp_def, List.filterMap_some]
    have hno := h _ s hreqs hs
    obtain ⟨c, hc⟩ := hst.all q hq
    obtain ⟨c', hc'⟩ := hst.all q' hq'
    have hkey : q.hashKey H = q'.hashKey H := by
      rw [Request.hashKey, Request.hashKey, haddr, hseed]
    have hsame : some c = some c' := by
      rw [← hst.returned _ hc, ← hst.returned _ hc', hkey]
    rw [← (hno _ hc).2, ← (hno _ hc').2, Option.some.inj hsame]
  · intro h es s hes hr p hp
    obtain ⟨hq, q, hmem, hkey, ha, hport⟩ := (returned_run H evbs hr).returned p hp
    rw [hes] at hq hmem
    have hargs : (q.addr, q.seed) = (p.1.addr, p.1.seed) := hinj ⟨q, hmem, rfl⟩ ⟨p.1, hq, rfl⟩ hkey
    obtain ⟨haddr, hseed⟩ := Prod.mk.inj hargs
    exact ⟨ha.trans haddr, hport.trans (h q hmem p.1 hq haddr hseed)⟩

/-! ## Two servers on one host -/

def twoEvbs : EvbList := ⟨[0, 1], by decide⟩

/-- Requests for ports 9000 and 9002 with two connections each never meet. -/
def apart : List Request := [⟨"10.0.0.1", 9000, 2, 1⟩, ⟨"10.0.0.1", 9002, 2, 1⟩, ⟨"10.0.0.1", 9000, 2, 0⟩]

theorem never_crosses_iff_apart :
    ∃ s, Lib.run (step cityHash64WithSeed twoEvbs) {} (apart.map .getConnection) = some s ∧ NoCross s := by
  have hsome : (Lib.run (step cityHash64WithSeed twoEvbs) {} (apart.map .getConnection)).isSome := by decide +kernel
  obtain ⟨s, hs⟩ := Option.isSome_iff_exists.mp hsome
  have hinj : ∀ q ∈ apart, ∀ q' ∈ apart, cityHash64WithSeed q.addr q.seed = cityHash64WithSeed q'.addr q'.seed →
      (q.addr, q.seed) = (q'.addr, q'.seed) := by
    decide +kernel
  refine ⟨s, hs, (never_crosses_iff cityHash64WithSeed twoEvbs apart (by decide) ?_).mpr (by decide) _ s (by decide) hs⟩
  intro a ha a' ha' h
  obtain ⟨q, hq, rfl⟩ := ha
  obtain ⟨q', hq', rfl⟩ := ha'
  exact hinj q hq q' hq' h

/-- Port 9000 with index 1 and port 9001 with index 0 share a key: the second request gets
    the connection to port 9000. -/
theorem neighbour_port_crosses :
    ∃ s, Lib.run (step cityHash64WithSeed twoEvbs) {}
        [.getConnection ⟨"10.0.0.1", 9000, 2, 1⟩, .getConnection ⟨"10.0.0.1", 9001, 2, 0⟩] = some s ∧ ¬ NoCross s := by
  have hret : (Lib.run (step cityHash64WithSeed twoEvbs) {}
      [.getConnection ⟨"10.0.0.1", 9000, 2, 1⟩, .getConnection ⟨"10.0.0.1", 9001, 2, 0⟩]).map St.returned =
      some [(⟨"10.0.0.1", 9001, 2, 0⟩, ⟨0, "10.0.0.1", 9000⟩), (⟨"10.0.0.1", 9000, 2, 1⟩, ⟨0, "10.0.0.1", 9000⟩)] := by
    decide +kernel
  obtain ⟨s, hs, hs'⟩ := Option.map_eq_some_iff.mp hret
  refine ⟨s, hs, fun h => ?_⟩
  have hport := (h (⟨"10.0.0.1", 9001, 2, 0⟩, ⟨0, "10.0.0.1", 9000⟩) (by rw [hs']; exact List.mem_cons_self)).2
  exact absurd hport (by decide)

end ConnectionPool

end PredictorService.ServiceRouter
