/-
  PredictorService.ServiceRouter.LoadBalance — the choice of a server
  (service_router/load_balance.{h,cc}, and `Router::getOrCreateBalance`, `discover`,
  `edgeDiscover` and `batchDiscover` of service_router/router.cc).

  A balancer is created by the first call that hashes to its id and kept in `balancers_`.
  The id is made of the method, the service name and the protocol. `CityHash64WithSeed` is
  the parameter `H`, and the routing table `db` is fixed.

  What a random generator answers is in `Chance`: `secureRand32(0, size)` may be any number
  below `size`, and `rand_r` any below 2^31 (its seed is shared by all balancers of a
  thread). `LoadBalanceConfigurableWeight` keeps a state for each thread and loops;
  `rounds` is how far the loop is followed. A call that throws, crashes or loops on has no
  result (`none`).
-/

import PredictorService.ServiceRouter.RouterDb

namespace PredictorService.ServiceRouter.LoadBalance

open PredictorService.Lib (FinMap)
open PredictorService.Common (ipToInt)

structure Chance where
  draw : Nat := 0
  rounds : Nat := 0
  deriving DecidableEq, Repr

/-! ## Balancers -/

structure CurrentState where
  currentIndex : Int32 := -1
  currentWeight : Int32 := 0
  deriving DecidableEq, Repr

inductive Balancer where
  | random
  | roundrobin (requests : UInt64)
  | localFirst (localIp : UInt32) (diffRange : Int32)
  /-- The state of each thread. -/
  | configurableWeight (currentState : FinMap Nat CurrentState)
  | ipRangeFirst (localIp : UInt32) (diffRange : Int32)
  | staticWeight
  | idcFirst (idc : String)
  deriving DecidableEq

/-- `uint32_t size = list.size()`. -/
def size (list : ServerList) : Nat := list.length % 2 ^ 32

/-- `folly::Random::secureRand32(0, size)`. -/
def secureRand32 (size : Nat) (x : Chance) : Nat := if size = 0 then 0 else x.draw % size

/-- One of the list at random. -/
def pickAny (list : ServerList) (x : Chance) : Option Server := list[secureRand32 (size list) x]?

/-- One of the candidates at random, or of the list when there is none. -/
def pickOf (candidates list : ServerList) (x : Chance) : Option Server :=
  if candidates = [] then pickAny list x else pickAny candidates x

/-- The server is known, and its address is near (in 32 bit arithmetic). -/
def isNear (localIp : UInt32) (diffRange : Int32) (t : Server) : Bool :=
  t.hostLong ≠ 0 && (t.hostLong - localIp).toInt32.abs ≤ diffRange

def selectIdcFirst (idc : String) (list : ServerList) (x : Chance) : Option Server :=
  pickOf (if idc ≠ "" then list.filter (·.idc = idc) else []) list x

/-- The loop ends at the first server with the local address. -/
def selectLocalFirst (localIp : UInt32) (diffRange : Int32) (list : ServerList) (x : Chance) : Option Server :=
  match list.find? fun t => t.hostLong ≠ 0 && t.hostLong = localIp with
  | some t => some t
  | none => pickOf (list.filter (isNear localIp diffRange)) list x

def selectIpRangeFirst (localIp : UInt32) (diffRange : Int32) (list : ServerList) (x : Chance) : Option Server :=
  pickOf (list.filter (isNear localIp diffRange)) list x

/-- The last loop of `LoadBalanceStaticWeight::select`. -/
def walkWeights (index : Int32) : ServerList → Option Server
  | [] => none
  | t :: list => if index < t.weight then some t else walkWeights (index - t.weight) list

def selectStaticWeight (list : ServerList) (x : Chance) : Option Server :=
  let weightSum := list.foldl (fun sum t => sum + t.weight) 0
  if weightSum = 0 then pickAny list x else walkWeights ((Int32.ofNat (x.draw % 2 ^ 31)) % weightSum) list

/-- `requests % size` is a division by zero when the size wraps to zero. -/
def selectRoundrobin (requests : UInt64) (list : ServerList) : Option (Option Server) :=
  if size list = 0 then none else some list[requests.toNat % size list]?

/-- `LoadBalanceConfigurableWeight::gcd`; `none` when it divides by zero. -/
def gcd (a b : UInt32) : Option UInt32 :=
  if b = 0 then none
  else if a % b = 0 then some b
  else gcd b (a % b)
termination_by b.toNat
decreasing_by
  rename_i hb _
  have hpos : 0 < b.toNat := Nat.pos_of_ne_zero fun h => hb (UInt32.toNat_inj.mp h)
  rw [UInt32.toNat_mod]
  exact Nat.mod_lt _ hpos

/-- The first loop of `LoadBalanceConfigurableWeight::select`: the greatest common divisor
    of the weights but the last, which has a part in the first round only. -/
def gcdWeight (list : ServerList) : Option Int32 :=
  match list with
  | t :: u :: rest =>
    ((u :: rest).dropLast.foldlM (fun g v => gcd g v.weight.toUInt32) =<< gcd t.weight.toUInt32 u.weight.toUInt32).map
      (·.toInt32)
  | _ => some 0

def maxWeight (list : ServerList) : Int32 := list.foldl (fun m t => max m t.weight) 0

/-- The endless loop, followed for some rounds. -/
def weightLoop (list : ServerList) (gcdWeight maxWeight : Int32) : Nat → CurrentState → Option (Option Server × CurrentState)
  | 0, _ => none
  | rounds + 1, state =>
    let index := Int32.ofNat ((state.currentIndex + 1).toInt64.toUInt64.toNat % list.length)
    let lowered := state.currentWeight - gcdWeight
    let weight := if index ≠ 0 then state.currentWeight else if lowered ≤ 0 then maxWeight else lowered
    if index = 0 ∧ weight = 0 then some (none, ⟨index, weight⟩)
    else
      match list[index.toInt64.toUInt64.toNat]? with
      | none => none
      | some t =>
        if t.weight ≥ weight then some (some t, ⟨index, weight⟩)
        else weightLoop list gcdWeight maxWeight rounds ⟨index, weight⟩

def selectConfigurableWeight (state : CurrentState) (list : ServerList) (x : Chance) :
    Option (Option Server × CurrentState) := do
  let gcdWeight ← gcdWeight list
  weightLoop list gcdWeight (maxWeight list) x.rounds state

/-- `select` on a list that is not empty. -/
def selectFrom (list : ServerList) (tid : Nat) (x : Chance) (b : Balancer) : Option (Option Server) × Balancer :=
  match b with
  | .random => (some (pickAny list x), b)
  | .roundrobin requests => (selectRoundrobin requests list, .roundrobin (requests + 1))
  | .localFirst localIp diffRange => (some (selectLocalFirst localIp diffRange list x), b)
  | .configurableWeight currentState =>
    match selectConfigurableWeight ((currentState.lookup tid).getD {}) list x with
    | none => (none, b)
    | some (t, state) => (some t, .configurableWeight (currentState.insert tid state))
  | .ipRangeFirst localIp diffRange => (some (selectIpRangeFirst localIp diffRange list x), b)
  | .staticWeight => (some (selectStaticWeight list x), b)
  | .idcFirst idc => (some (selectIdcFirst idc list x), b)

/-- The server, if any, and the balancer after it. -/
def select (list : ServerList) (tid : Nat) (x : Chance) (b : Balancer) : Option (Option Server) × Balancer :=
  if list = [] then (some none, b) else selectFrom list tid x b

/-! ## A selected server is one of the list -/

theorem mem_of_pickAny {list : ServerList} {x : Chance} {t : Server} (h : pickAny list x = some t) : t ∈ list :=
  List.mem_of_getElem? h

theorem mem_of_pickOf {candidates list : ServerList} (hsub : ∀ t ∈ candidates, t ∈ list) {x : Chance} {t : Server}
    (h : pickOf candidates list x = some t) : t ∈ list := by
  unfold pickOf at h
  split at h
  · exact mem_of_pickAny h
  · exact hsub t (mem_of_pickAny h)

theorem mem_of_selectIdcFirst {idc : String} {list : ServerList} {x : Chance} {t : Server}
    (h : selectIdcFirst idc list x = some t) : t ∈ list := by
  refine mem_of_pickOf (fun u hu => ?_) h
  split at hu
  · exact (List.mem_filter.mp hu).1
  · cases hu

theorem mem_of_selectLocalFirst {localIp : UInt32} {diffRange : Int32} {list : ServerList} {x : Chance} {t : Server}
    (h : selectLocalFirst localIp diffRange list x = some t) : t ∈ list := by
  unfold selectLocalFirst at h
  split at h
  · rename_i u hfind
    exact Option.some.inj h ▸ List.mem_of_find?_eq_some hfind
  · exact mem_of_pickOf (fun u hu => (List.mem_filter.mp hu).1) h

theorem mem_of_walkWeights {index : Int32} {list : ServerList} {t : Server} (h : walkWeights index list = some t) :
    t ∈ list := by
  induction list generalizing index with
  | nil => cases h
  | cons u list ih =>
    unfold walkWeights at h
    split at h
    · exact Option.some.inj h ▸ List.mem_cons_self
    · exact List.mem_cons_of_mem _ (ih h)

theorem mem_of_selectStaticWeight {list : ServerList} {x : Chance} {t : Server}
    (h : selectStaticWeight list x = some t) : t ∈ list := by
  unfold selectStaticWeight at h
  simp only at h
  split at h
  · exact mem_of_pickAny h
  · exact mem_of_walkWeights h

theorem mem_of_weightLoop {list : ServerList} {gcdWeight maxWeight : Int32} {rounds : Nat} {state state' : CurrentState}
    {t : Server} (h : weightLoop list gcdWeight maxWeight rounds state = some (some t, state')) : t ∈ list := by
  induction rounds generalizing state with
  | zero => cases h
  | succ rounds ih =>
    unfold weightLoop at h
    extract_lets index lowered weight at h
    clear_value weight
    split at h
    · cases h
    · split at h
      · cases h
      · rename_i u hu
        split at h
        · cases h
          exact List.mem_of_getElem? hu
        · exact ih h

theorem mem_of_select {list : ServerList} {tid : Nat} {x : Chance} {b : Balancer} {t : Server}
    (h : (select list tid x b).1 = some (some t)) : t ∈ list := by
  unfold select at h
  split at h
  · cases h
  · cases b with
    | random => exact mem_of_pickAny (Option.some.inj h)
    | roundrobin requests =>
      unfold selectFrom selectRoundrobin at h
      simp only at h
      split at h
      · cases h
      · exact List.mem_of_getElem? (Option.some.inj h)
    | localFirst localIp diffRange => exact mem_of_selectLocalFirst (Option.some.inj h)
    | configurableWeight currentState =>
      simp only [selectFrom] at h
      split at h
      · cases h
      · rename_i u state hsel
        obtain ⟨g, -, hloop⟩ := Option.bind_eq_some_iff.mp hsel
        cases h
        exact mem_of_weightLoop hloop
    | ipRangeFirst localIp diffRange =>
      exact mem_of_pickOf (fun u hu => (List.mem_filter.mp hu).1) (Option.some.inj h)
    | staticWeight => exact mem_of_selectStaticWeight (Option.some.inj h)
    | idcFirst idc => exact mem_of_selectIdcFirst (Option.some.inj h)

/-! ## The router -/

variable (H : Hash64)

def balanceId (option : ClientOption) : UInt64 :=
  let id := H (toStringLoadBalanceMethod option.loadBalance) 0
  let id := H option.serviceName id
  let id := H (toStringServerProtocol option.protocol) id
  if option.loadBalance = .userDefined ∧ option.userBalance ≠ "" then H option.userBalance id else id

/-- The balancer that the option asks for. -/
def newBalancer (option : ClientOption) : Option Balancer :=
  match option.loadBalance with
  | .roundrobin => some (.roundrobin 0)
  | .localfirst => (ipToInt option.localFirstConfig.localIp).map (.localFirst · option.localFirstConfig.diffRange)
  | .configurableWeight => some (.configurableWeight ∅)
  | .iprangefirst => (ipToInt option.localFirstConfig.localIp).map (.ipRangeFirst · option.localFirstConfig.diffRange)
  | .staticWeight => some .staticWeight
  | .idcfirst => some (.idcFirst option.idc)
  | _ => some .random

abbrev Balancers := FinMap UInt64 Balancer

def getOrCreateBalance (balancers : Balancers) (option : ClientOption) : Option Balancer :=
  (balancers.lookup (balanceId H option)).or (newBalancer option)

/-- `selectServers(getOrCreateBalance(option))` of a list. -/
def selectServers (balancers : Balancers) (option : ClientOption) (list : ServerList) (tid : Nat) (x : Chance) :
    Option (Option Server) × Balancers :=
  match getOrCreateBalance H balancers option with
  | none => (none, balancers)
  | some b =>
    let (t, b) := select list tid x b
    (t, balancers.insert (balanceId H option) b)

theorem selectServers_roundrobin {balancers : Balancers} {option : ClientOption} {requests : UInt64}
    (hb : getOrCreateBalance H balancers option = some (.roundrobin requests)) {list : ServerList} (hne : list ≠ [])
    (tid : Nat) (x : Chance) :
    selectServers H balancers option list tid x =
      (selectRoundrobin requests list, balancers.insert (balanceId H option) (.roundrobin (requests + 1))) := by
  simp only [selectServers, hb, select, if_neg hne, selectFrom]

theorem mem_of_selectServers {balancers : Balancers} {option : ClientOption} {list : ServerList} {tid : Nat} {x : Chance}
    {t : Server} (h : (selectServers H balancers option list tid x).1 = some (some t)) : t ∈ list := by
  unfold selectServers at h
  split at h
  · cases h
  · exact mem_of_select h

def routeOf (option : ClientOption) (routeId : Int64) : Route :=
  ⟨option.serviceName, option.protocol, routeId, option.shardType, option.dc⟩

def shardRoute (option : ClientOption) : Route := routeOf option option.shardId.toUInt64.toInt64

variable (db : RouterDb)

/-- The common part of `discover` and `edgeDiscover`. -/
def discoverRoute (balancers : Balancers) (option : ClientOption) (routeId : Int64) (tid : Nat) (x : Chance) :
    Option (Option Server) × Balancers :=
  match db.selectServers H (routeOf option routeId) with
  | none => (some none, balancers)
  | some list => selectServers H balancers option list tid x

def discover (balancers : Balancers) (option : ClientOption) (tid : Nat) (x : Chance) :
    Option (Option Server) × Balancers :=
  discoverRoute H db balancers option option.shardId.toUInt64.toInt64 tid x

variable {H db} in
theorem discover_some {option : ClientOption} {list : ServerList}
    (h : db.selectServers H (shardRoute option) = some list) (balancers : Balancers) (tid : Nat) (x : Chance) :
    discover H db balancers option tid x = selectServers H balancers option list tid x := by
  unfold shardRoute at h
  simp only [discover, discoverRoute, h]

variable {H db} in
theorem discover_none {option : ClientOption} (h : db.selectServers H (shardRoute option) = none)
    (balancers : Balancers) (tid : Nat) (x : Chance) :
    discover H db balancers option tid x = (some none, balancers) := by
  unfold shardRoute at h
  simp only [discover, discoverRoute, h]

def edgeDiscover (balancers : Balancers) (option : ClientOption) (tid : Nat) (x : Chance) :
    Option (Option Server) × Balancers :=
  discoverRoute H db balancers option option.partitionHash tid x

/-- `ServerList::hash_code_`. -/
def hashCode (list : ServerList) : UInt64 := list.foldl (fun h t => H (t.host ++ toString t.port.toNat) h) 0

/-- The loop of `batchDiscover`: lists with one hash code are selected from once. -/
def batchLoop (option : ClientOption) (tid : Nat) (xs : Nat → Chance) (balancers : Balancers)
    (result : FinMap Int64 (Option Server)) (selected : FinMap UInt64 (Option Server)) :
    List Int64 → Option (FinMap Int64 (Option Server)) × Balancers
  | [] => (some result, balancers)
  | routeId :: routeIds =>
    match db.selectServers H (routeOf option routeId) with
    | none => batchLoop option tid xs balancers (result.insert routeId none) selected routeIds
    | some list =>
      match selected.lookup (hashCode H list) with
      | some t => batchLoop option tid xs balancers (result.insert routeId t) selected routeIds
      | none =>
        match selectServers H balancers option list tid (xs routeIds.length) with
        | (none, balancers) => (none, balancers)
        | (some t, balancers) =>
          batchLoop option tid xs balancers (result.insert routeId t) (selected.insert (hashCode H list) t) routeIds

def batchDiscover (balancers : Balancers) (option : ClientOption) (routeIds : List Int64) (tid : Nat)
    (xs : Nat → Chance) : Option (FinMap Int64 (Option Server)) × Balancers :=
  batchLoop H db option tid xs balancers ∅ ∅ routeIds

/-- A call of a thread, with what the generators answer in it. -/
inductive Call where
  | discover (option : ClientOption) (tid : Nat) (x : Chance)
  | edgeDiscover (option : ClientOption) (tid : Nat) (x : Chance)
  | batchDiscover (option : ClientOption) (routeIds : List Int64) (tid : Nat) (xs : Nat → Chance)

def Call.option : Call → ClientOption
  | .discover option _ _ => option
  | .edgeDiscover option _ _ => option
  | .batchDiscover option _ _ _ => option

/-- `balancers_` after a call. -/
def afterCall (balancers : Balancers) : Call → Balancers
  | .discover option tid x => (discover H db balancers option tid x).2
  | .edgeDiscover option tid x => (edgeDiscover H db balancers option tid x).2
  | .batchDiscover option routeIds tid xs => (batchDiscover H db balancers option routeIds tid xs).2

def afterCalls (balancers : Balancers) (calls : List Call) : Balancers := calls.foldl (afterCall H db) balancers

/-! ## A table with one list -/

/-- The shard routes of the options have this list. -/
def tableOf (options : List ClientOption) (list : ServerList) : RouterDb where
  serviceRegistry := options.foldr (fun o services => services.insert (getServiceKey H (shardRoute o)) list) ∅

variable {H} in
theorem selectServers_tableOf {options : List ClientOption} {list : ServerList} {o : ClientOption} (h : o ∈ options) :
    (tableOf H options list).selectServers H (shardRoute o) = some list := by
  induction options with
  | nil => cases h
  | cons o' options ih =>
    show Finmap.lookup (getServiceKey H (shardRoute o))
      (Finmap.insert (getServiceKey H (shardRoute o')) list (tableOf H options list).serviceRegistry) = some list
    rw [FinMap.lookup_insert_ite]
    split
    · rfl
    · rename_i hne
      refine ih ((List.mem_cons.mp h).resolve_left ?_)
      intro heq
      subst heq
      exact hne rfl

def firstServer : Server := { host := "10.0.0.1", port := 9000, serviceName := "predictor", status := .available }

def secondServer : Server := { host := "10.0.0.2", port := 9000, serviceName := "predictor", status := .available }

def inTurn : ClientOption where
  serviceName := "predictor"
  protocol := .thrift
  loadBalance := .roundrobin

end PredictorService.ServiceRouter.LoadBalance
