/-
  PredictorService.ServiceRouter.RoundRobin — how fair `LoadBalanceRoundrobin` is to a route.

  The routes of a service and protocol share one balancer, so one counter. A call of a route
  gets the server at the number of earlier calls of all of them, modulo the length of its
  own list (`answers_eq`). The route is served in turn iff these numbers differ modulo that
  length in any round of calls (`fair_iff`); two routes with two servers each that are
  called in turn get one server each (`alternating_routes_are_pinned`).
-/

import PredictorService.Lib.Windows
import PredictorService.ServiceRouter.LoadBalance
import PredictorService.Thirdparty.City

namespace PredictorService.ServiceRouter.LoadBalance

open PredictorService.Lib
open PredictorService.Thirdparty (cityHash64WithSeed)

/-- A call of `discover`. -/
structure Request where
  option : ClientOption
  tid : Nat := 0
  x : Chance := {}
  deriving DecidableEq

section

variable (H : Hash64) (db : RouterDb) (o : ClientOption)

/-- The answers to the calls of the route of `o`. -/
def answers : Balancers → List Request → List (Option (Option Server))
  | _, [] => []
  | balancers, r :: rs =>
    let res := discover H db balancers r.option r.tid r.x
    (if shardRoute r.option = shardRoute o then [res.1] else []) ++ answers res.2 rs

/-- The call adds to the counter of `o`: it has the balancer of `o`, and servers. -/
def counts (option : ClientOption) : Bool :=
  balanceId H option = balanceId H o && (db.selectServers H (shardRoute option)).any fun list => list ≠ []

/-- For each call of the route of `o`, the number of earlier calls that counted. -/
def ticks : Nat → List Request → List Nat
  | _, [] => []
  | n, r :: rs =>
    (if shardRoute r.option = shardRoute o then [n] else []) ++ ticks (if counts H db o r.option then n + 1 else n) rs

end

/-- What round robin answers for a list at a number of the counter. -/
def turn (list : ServerList) (n : Nat) : Option (Option Server) :=
  if list = [] then some none else if size list = 0 then none else some list[n % size list]?

/-! ## The counter -/

variable {H : Hash64} {db : RouterDb} {o : ClientOption}

theorem balanceId_of_route {r : ClientOption} (hr : r.loadBalance = .roundrobin) (ho : o.loadBalance = .roundrobin)
    (h : shardRoute r = shardRoute o) : balanceId H r = balanceId H o := by
  have hservice : r.serviceName = o.serviceName := congrArg Route.serviceName h
  have hprotocol : r.protocol = o.protocol := congrArg Route.protocol h
  simp [balanceId, hr, ho, hservice, hprotocol]

/-- The counter of `o` stands at `n`. -/
def At (H : Hash64) (o : ClientOption) (balancers : Balancers) (n : Nat) : Prop :=
  getOrCreateBalance H balancers o = some (.roundrobin (UInt64.ofNat n))

theorem At.of_id {balancers : Balancers} {n : Nat} (h : At H o balancers n) {r : ClientOption}
    (hr : r.loadBalance = .roundrobin) (ho : o.loadBalance = .roundrobin) (hid : balanceId H r = balanceId H o) :
    At H r balancers n := by
  have hnew : newBalancer r = newBalancer o := by simp [newBalancer, hr, ho]
  unfold At getOrCreateBalance at h ⊢
  rw [hid, hnew, h]

theorem at_insert_self {balancers : Balancers} {r : ClientOption} (hid : balanceId H r = balanceId H o) (n : Nat) :
    At H o (balancers.insert (balanceId H r) (.roundrobin (UInt64.ofNat n))) n := by
  unfold At getOrCreateBalance
  rw [hid, Finmap.lookup_insert]
  rfl

theorem At.insert_ne {balancers : Balancers} {n : Nat} (h : At H o balancers n) {r : ClientOption}
    (hid : balanceId H r ≠ balanceId H o) (b : Balancer) : At H o (balancers.insert (balanceId H r) b) n := by
  unfold At getOrCreateBalance at h ⊢
  rw [Finmap.lookup_insert_of_ne _ (Ne.symm hid), h]

/-- Nothing is selected from an empty list. -/
theorem selectServers_nil {balancers : Balancers} {r : ClientOption} {b : Balancer}
    (h : getOrCreateBalance H balancers r = some b) (tid : Nat) (x : Chance) :
    selectServers H balancers r [] tid x = (some none, balancers.insert (balanceId H r) b) := by
  simp [selectServers, h, select]

variable (db) in
/-- A call moves the counter iff it counts. -/
theorem At.discover {balancers : Balancers} {n : Nat} (h : At H o balancers n) {r : ClientOption}
    (hr : r.loadBalance = .roundrobin) (ho : o.loadBalance = .roundrobin) (tid : Nat) (x : Chance) :
    At H o (discover H db balancers r tid x).2 (if counts H db o r then n + 1 else n) := by
  unfold counts
  cases hl : db.selectServers H (shardRoute r) with
  | none =>
    rw [discover_none hl]
    simpa using h
  | some list =>
    rw [discover_some hl]
    by_cases hid : balanceId H r = balanceId H o
    · have hat := h.of_id hr ho hid
      by_cases hne : list = []
      · subst hne
        rw [selectServers_nil hat]
        simpa using at_insert_self hid n
      · rw [selectServers_roundrobin H hat hne]
        simpa [hid, hne] using at_insert_self hid (n + 1)
    · simp only [hid, decide_false, Bool.false_and]
      unfold selectServers
      cases getOrCreateBalance H balancers r with
      | none => exact h
      | some b => exact h.insert_ne hid _

theorem At.answer {balancers : Balancers} {n : Nat} (h : At H o balancers n) (hn : n < 2 ^ 64) {list : ServerList}
    (hl : db.selectServers H (shardRoute o) = some list) {r : ClientOption} (hr : r.loadBalance = .roundrobin)
    (ho : o.loadBalance = .roundrobin) (hroute : shardRoute r = shardRoute o) (tid : Nat) (x : Chance) :
    (LoadBalance.discover H db balancers r tid x).1 = turn list n := by
  have hat := h.of_id hr ho (balanceId_of_route hr ho hroute)
  have hnat : (UInt64.ofNat n).toNat = n := by
    rw [UInt64.toNat_ofNat']
    exact Nat.mod_eq_of_lt hn
  rw [discover_some (hroute ▸ hl)]
  by_cases hne : list = []
  · subst hne
    rw [selectServers_nil hat]
    rfl
  · rw [selectServers_roundrobin H hat hne]
    simp only [selectRoundrobin, turn, if_neg hne, hnat]

/-- Every answer is the server whose turn it is by the shared counter. -/
theorem answers_eq {list : ServerList} (hl : db.selectServers H (shardRoute o) = some list)
    (ho : o.loadBalance = .roundrobin) {rs : List Request} (hrs : ∀ r ∈ rs, r.option.loadBalance = .roundrobin)
    {balancers : Balancers} {n : Nat} (h : At H o balancers n) (hn : n + rs.length ≤ 2 ^ 64) :
    answers H db o balancers rs = (ticks H db o n rs).map (turn list) := by
  induction rs generalizing balancers n with
  | nil => rfl
  | cons r rs ih =>
    have hr := hrs r List.mem_cons_self
    rw [List.length_cons] at hn
    have hle : (if counts H db o r.option then n + 1 else n) + rs.length ≤ 2 ^ 64 := by split <;> omega
    rw [answers, ticks, List.map_append, ih (fun r' hr' => hrs r' (List.mem_cons_of_mem _ hr'))
      (h.discover db hr ho r.tid r.x) hle]
    congr 1
    split
    · rename_i hroute
      rw [h.answer (by omega) hl hr ho hroute]
      rfl
    · rfl

theorem at_init (ho : o.loadBalance = .roundrobin) : At H o ∅ 0 := by
  simp [At, getOrCreateBalance, newBalancer, ho]

/-! ## Fairness -/

theorem size_le (list : ServerList) : size list ≤ list.length := Nat.mod_le _ _

theorem turn_of_size_ne {list : ServerList} (h : size list ≠ 0) (n : Nat) :
    turn list n = some list[n % size list]? := by
  have hne : list ≠ [] := by
    intro heq
    subst heq
    exact h rfl
  simp only [turn, if_neg hne, if_neg h]

/-- The servers of the list, as answers. -/
def targets (list : ServerList) : List (Option (Option Server)) := list.map fun t => some (some t)

theorem mem_targets {list : ServerList} {t : Server} : some (some t) ∈ targets list ↔ t ∈ list := by
  simp [targets]

theorem nodup_targets {list : ServerList} : (targets list).Nodup ↔ list.Nodup :=
  List.nodup_map_iff fun a b h => by simpa using h

/-- An answer is among the first `size` servers. -/
theorem turn_mem {list : ServerList} (h : size list ≠ 0) (n : Nat) : turn list n ∈ targets (list.take (size list)) := by
  have hlt : n % size list < size list := Nat.mod_lt _ (Nat.pos_of_ne_zero h)
  have hlen := size_le list
  rw [turn_of_size_ne h, List.getElem?_eq_getElem (by omega), mem_targets]
  exact List.mem_take_iff_getElem.mpr ⟨n % size list, by omega, rfl⟩

theorem map_turn_eq {list : ServerList} (h : size list = list.length) (hne : list ≠ []) (ns : List Nat) :
    ns.map (turn list) = (ns.map (· % list.length)).map fun j => some list[j]? := by
  rw [List.map_map]
  refine List.map_congr_left fun n _ => ?_
  rw [turn_of_size_ne (by rw [h]; simpa using hne), h]
  rfl

/-- One round of as many calls as the list has servers. -/
theorem round_iff {list : ServerList} {ns : List Nat} (hlen : ns.length = list.length) :
    (∀ t ∈ list, (ns.map (turn list)).count (some (some t)) = 1) ↔
      list.length < 2 ^ 32 ∧ list.Nodup ∧ (ns.map (· % list.length)).Nodup := by
  by_cases hne : list = []
  · subst hne
    obtain rfl := List.eq_nil_of_length_eq_zero hlen
    simp
  by_cases hsize : size list = 0
  · -- the call crashes, and the list is as long as a `uint32_t` cannot say
    obtain ⟨t, ht⟩ := List.exists_mem_of_ne_nil list hne
    refine ⟨fun h => ?_, fun h => ?_⟩
    · have hone := h t ht
      have hno : some (some t) ∉ ns.map (turn list) := by
        intro hmem
        obtain ⟨n, -, hn⟩ := List.mem_map.mp hmem
        simp only [turn, if_neg hne, if_pos hsize] at hn
        cases hn
      rw [List.count_eq_zero_of_not_mem hno] at hone
      cases hone
    · have hpos : 0 < list.length := List.length_pos_of_mem ht
      rw [size, Nat.mod_eq_of_lt h.1] at hsize
      omega
  have hsub : ns.map (turn list) ⊆ targets (list.take (size list)) := by
    intro a ha
    obtain ⟨n, -, rfl⟩ := List.mem_map.mp ha
    exact turn_mem hsize n
  have hsub' : ns.map (turn list) ⊆ targets list := by
    intro a ha
    obtain ⟨t, ht, rfl⟩ := List.mem_map.mp (hsub ha)
    exact mem_targets.mpr (List.mem_of_mem_take ht)
  have hcount : (∀ t ∈ list, (ns.map (turn list)).count (some (some t)) = 1) ↔
      list.Nodup ∧ (ns.map (turn list)).Nodup := by
    rw [← nodup_targets, ← forall_count_eq_one_iff (by simpa [targets] using hlen) hsub']
    simp [targets]
  rw [hcount]
  constructor
  · intro h
    have hle : list.length ≤ size list := by
      have := (h.2.subperm hsub).length_le
      simp only [List.length_map, targets, List.length_take, hlen] at this
      omega
    have hlt : size list < 2 ^ 32 := Nat.mod_lt _ (by decide)
    have heq : size list = list.length := Nat.le_antisymm (size_le list) hle
    refine ⟨by omega, h.1, ?_⟩
    rw [map_turn_eq heq hne] at h
    exact h.2.of_map
  · intro h
    have heq : size list = list.length := Nat.mod_eq_of_lt h.1
    refine ⟨h.2.1, ?_⟩
    rw [map_turn_eq heq hne]
    refine List.Nodup.map_on ?_ h.2.2
    intro j hj j' _ hjj
    obtain ⟨n, -, rfl⟩ := List.mem_map.mp hj
    have hpos : 0 < list.length := List.length_pos_iff.mpr hne
    exact (List.getElem?_inj (Nat.mod_lt _ hpos) h.2.1).mp (Option.some.inj hjj)

/-- A route is served fairly: in any `k * n` of its consecutive calls, each of the `n` servers
    of its list is the answer `k` times. -/
def Fair (list : ServerList) (answers : List (Option (Option Server))) : Prop :=
  ∀ k i, i + k * list.length ≤ answers.length → ∀ t ∈ list,
    (window answers i (k * list.length)).count (some (some t)) = k

/-- In any round of `n` consecutive calls of a route, the numbers of earlier calls differ
    modulo `n`; and once there is a round, the list has no server twice and fits a
    `uint32_t`. -/
def TakesTurns (list : ServerList) (ticks : List Nat) : Prop :=
  (list.length ≤ ticks.length → list.length < 2 ^ 32 ∧ list.Nodup) ∧
    ∀ i, i + list.length ≤ ticks.length → ((window ticks i list.length).map (· % list.length)).Nodup

theorem fair_map_iff (list : ServerList) (ns : List Nat) : Fair list (ns.map (turn list)) ↔ TakesTurns list ns := by
  have hround : ∀ i, i + list.length ≤ ns.length →
      ((∀ t ∈ list, (window (ns.map (turn list)) i list.length).count (some (some t)) = 1) ↔
        list.length < 2 ^ 32 ∧ list.Nodup ∧ ((window ns i list.length).map (· % list.length)).Nodup) := by
    intro i hi
    rw [window_map]
    exact round_iff (length_window hi)
  constructor
  · intro h
    have hone : ∀ i, i + list.length ≤ ns.length → list.length < 2 ^ 32 ∧ list.Nodup ∧
        ((window ns i list.length).map (· % list.length)).Nodup := by
      intro i hi
      refine (hround i hi).mp fun t ht => ?_
      have := h 1 i (by simpa using hi) t ht
      rwa [Nat.one_mul] at this
    refine ⟨fun hle => ?_, fun i hi => (hone i hi).2.2⟩
    have h0 := hone 0 (by omega)
    exact ⟨h0.1, h0.2.1⟩
  · intro h k i hi t ht
    refine count_window_mul (fun j hj => ?_) k hi
    rw [List.length_map] at hj
    obtain ⟨hlt, hnodup⟩ := h.1 (by omega)
    exact (hround j hj).mpr ⟨hlt, hnodup, h.2 j hj⟩ t ht

/-- A route of round-robin calls is served fairly iff its calls take turns on the counter
    that the routes of its service and protocol share. -/
theorem fair_iff (H : Hash64) (db : RouterDb) {o : ClientOption} (ho : o.loadBalance = .roundrobin) {list : ServerList}
    (hl : db.selectServers H (shardRoute o) = some list) {rs : List Request}
    (hrs : ∀ r ∈ rs, r.option.loadBalance = .roundrobin) (hwrap : rs.length ≤ 2 ^ 64) :
    Fair list (answers H db o ∅ rs) ↔ TakesTurns list (ticks H db o 0 rs) := by
  rw [answers_eq hl ho hrs (at_init ho) (by simpa using hwrap)]
  exact fair_map_iff list _

/-- Another route of the service. -/
def onShard1 : ClientOption := { inTurn with shardId := 1 }

/-- Two routes with two servers each. -/
def twoRoutes : RouterDb := tableOf cityHash64WithSeed [inTurn, onShard1] [firstServer, secondServer]

theorem counts_twoRoutes {o : ClientOption} (ho : o ∈ [inTurn, onShard1]) :
    counts cityHash64WithSeed twoRoutes inTurn o := by
  have hid : balanceId cityHash64WithSeed o = balanceId cityHash64WithSeed inTurn := by
    simp only [List.mem_cons, List.not_mem_nil, or_false] at ho
    rcases ho with rfl | rfl
    · rfl
    · rfl
  have hl : twoRoutes.selectServers cityHash64WithSeed (shardRoute o) = some [firstServer, secondServer] :=
    selectServers_tableOf ho
  simp [counts, hid, hl]

/-- The other route is called twice between two rounds. -/
def evenTraffic : List Request :=
  [⟨inTurn, 0, {}⟩, ⟨inTurn, 1, {}⟩, ⟨onShard1, 0, {}⟩, ⟨onShard1, 0, {}⟩, ⟨inTurn, 0, {}⟩]

theorem ticks_evenTraffic : ticks cityHash64WithSeed twoRoutes inTurn 0 evenTraffic = [0, 1, 4] := by
  have hturn := counts_twoRoutes (o := inTurn) (by decide)
  have hshard := counts_twoRoutes (o := onShard1) (by decide)
  have hroute : shardRoute onShard1 ≠ shardRoute inTurn := by decide
  simp [evenTraffic, ticks, hturn, hshard, hroute]

theorem fair_iff_even_traffic :
    Fair [firstServer, secondServer] (answers cityHash64WithSeed twoRoutes inTurn ∅ evenTraffic) := by
  refine (fair_iff cityHash64WithSeed twoRoutes (o := inTurn) rfl (selectServers_tableOf List.mem_cons_self)
    (by decide) (by decide)).mpr ?_
  rw [ticks_evenTraffic]
  refine ⟨fun _ => by decide, fun i hi => ?_⟩
  have hcases : i = 0 ∨ i = 1 := by
    simp only [List.length_cons, List.length_nil] at hi
    omega
  rcases hcases with rfl | rfl
  · decide
  · decide

/-- The two routes are called in turn. -/
def alternating : List Request := [⟨inTurn, 0, {}⟩, ⟨onShard1, 0, {}⟩, ⟨inTurn, 0, {}⟩, ⟨onShard1, 0, {}⟩]

theorem ticks_alternating : ticks cityHash64WithSeed twoRoutes inTurn 0 alternating = [0, 2] := by
  have hturn := counts_twoRoutes (o := inTurn) (by decide)
  have hshard := counts_twoRoutes (o := onShard1) (by decide)
  have hroute : shardRoute onShard1 ≠ shardRoute inTurn := by decide
  simp [alternating, ticks, hturn, hshard, hroute]

/-- Both calls of the first route get its first server. -/
theorem alternating_routes_are_pinned :
    ¬ ∀ (db : RouterDb) (o : ClientOption) (list : ServerList) (rs : List Request),
      db.selectServers cityHash64WithSeed (shardRoute o) = some list → list.Nodup → o.loadBalance = .roundrobin →
      (∀ r ∈ rs, r.option.loadBalance = .roundrobin ∧ r.option.serviceName = o.serviceName) → rs.length ≤ 2 ^ 64 →
        Fair list (answers cityHash64WithSeed db o ∅ rs) := by
  intro h
  have hl : twoRoutes.selectServers cityHash64WithSeed (shardRoute inTurn) = some [firstServer, secondServer] :=
    selectServers_tableOf List.mem_cons_self
  have hfair := h twoRoutes inTurn _ alternating hl (by decide) rfl (by decide) (by decide)
  have hinit : At cityHash64WithSeed inTurn ∅ 0 := at_init rfl
  rw [answers_eq hl rfl (by decide) hinit (by decide), ticks_alternating] at hfair
  have hone := hfair 1 0 (by decide) firstServer (by decide)
  exact absurd hone (by decide)

end PredictorService.ServiceRouter.LoadBalance
