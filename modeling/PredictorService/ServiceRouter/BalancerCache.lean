/-
  PredictorService.ServiceRouter.BalancerCache — whose configuration a balancer has.

  A balancer keeps the configuration of the call that created it. A call is answered as by
  a fresh router when its method keeps no state and every earlier call with its balancer id
  asked for the same configuration (`answered_by_own_option`). Round robin and configurable
  weights go on from where the earlier calls left them
  (`roundrobin_depends_on_earlier_calls`).
-/

import Mathlib.Data.Set.Basic
import PredictorService.ServiceRouter.LoadBalance
import PredictorService.Thirdparty.City

namespace PredictorService.ServiceRouter.LoadBalance

open PredictorService.Lib (FinMap)
open PredictorService.Thirdparty (cityHash64WithSeed)

variable (H : Hash64) (db : RouterDb)

/-- What `discover` may answer, whatever the generators do (`none`: it does not return). -/
def mayReturn (balancers : Balancers) (option : ClientOption) : Set (Option (Option Server)) :=
  { r | ∃ tid x, (discover H db balancers option tid x).1 = r }

/-- Methods whose balancers keep no state from call to call. -/
def keepsNoState : LoadBalanceMethod → Bool
  | .roundrobin => false
  | .configurableWeight => false
  | _ => true

/-- The options ask for one method, with one configuration where the method has one. -/
def SameBalancer (o o' : ClientOption) : Prop :=
  o'.loadBalance = o.loadBalance ∧
    match o.loadBalance with
    | .localfirst => o'.localFirstConfig = o.localFirstConfig
    | .iprangefirst => o'.localFirstConfig = o.localFirstConfig
    | .idcfirst => o'.idc = o.idc
    | _ => True

/-! ## The balancer in force -/

variable {H db}

theorem newBalancer_of_same {o o' : ClientOption} (h : SameBalancer o o') : newBalancer o' = newBalancer o := by
  obtain ⟨hmethod, hconfig⟩ := h
  unfold newBalancer
  rw [hmethod]
  cases hm : o.loadBalance <;> simp_all

/-- A balancer without state is the same after a selection. -/
theorem select_same {o : ClientOption} (hm : keepsNoState o.loadBalance) {b : Balancer} (hb : newBalancer o = some b)
    (list : ServerList) (tid : Nat) (x : Chance) : (select list tid x b).2 = b := by
  unfold select
  split
  · rfl
  · unfold newBalancer at hb
    split at hb
    · rename_i hmethod
      rw [hmethod] at hm
      cases hm
    · obtain ⟨ip, -, rfl⟩ := Option.map_eq_some_iff.mp hb
      rfl
    · rename_i hmethod
      rw [hmethod] at hm
      cases hm
    · obtain ⟨ip, -, rfl⟩ := Option.map_eq_some_iff.mp hb
      rfl
    · cases hb
      rfl
    · cases hb
      rfl
    · cases hb
      rfl

/-- The balancer of the option, if there is one, is the one it asks for. -/
def InForce (H : Hash64) (o : ClientOption) (balancers : Balancers) : Prop :=
  ∀ b, balancers.lookup (balanceId H o) = some b → newBalancer o = some b

theorem InForce.getOrCreateBalance {o : ClientOption} {balancers : Balancers} (h : InForce H o balancers) :
    getOrCreateBalance H balancers o = newBalancer o := by
  unfold LoadBalance.getOrCreateBalance
  cases hl : balancers.lookup (balanceId H o) with
  | none => rw [Option.none_or]
  | some b => rw [Option.some_or, h b hl]

/-- The calls that share the balancer of `o` ask for the same one. -/
def Agrees (H : Hash64) (o : ClientOption) (o' : ClientOption) : Prop :=
  balanceId H o' = balanceId H o → SameBalancer o o'

theorem InForce.insert {o : ClientOption} {balancers : Balancers} (h : InForce H o balancers) {id : UInt64} {b : Balancer}
    (hb : id = balanceId H o → newBalancer o = some b) : InForce H o (balancers.insert id b) := by
  intro b' hb'
  rw [FinMap.lookup_insert_ite] at hb'
  split at hb'
  · rename_i hid
    cases hb'
    exact hb hid.symm
  · exact h b' hb'

theorem InForce.selectServers {o o' : ClientOption} (hm : keepsNoState o.loadBalance) (ho : Agrees H o o')
    {balancers : Balancers} (h : InForce H o balancers) (list : ServerList) (tid : Nat) (x : Chance) :
    InForce H o (selectServers H balancers o' list tid x).2 := by
  unfold LoadBalance.selectServers
  cases hb : LoadBalance.getOrCreateBalance H balancers o' with
  | none => exact h
  | some b =>
    -- with the id of `o`, it is the balancer that `o` asks for
    have hown : balanceId H o' = balanceId H o → newBalancer o = some b := by
      intro hid
      have hsame := newBalancer_of_same (ho hid)
      have hforce := h.getOrCreateBalance
      unfold LoadBalance.getOrCreateBalance at hb hforce
      rw [hid, hsame, hforce] at hb
      exact hb
    refine h.insert fun hid => ?_
    rw [select_same hm (hown hid)]
    exact hown hid

theorem InForce.discoverRoute {o o' : ClientOption} (hm : keepsNoState o.loadBalance) (ho : Agrees H o o')
    {balancers : Balancers} (h : InForce H o balancers) (routeId : Int64) (tid : Nat) (x : Chance) :
    InForce H o (discoverRoute H db balancers o' routeId tid x).2 := by
  unfold LoadBalance.discoverRoute
  split
  · exact h
  · exact h.selectServers hm ho _ tid x

theorem InForce.batchLoop {o o' : ClientOption} (hm : keepsNoState o.loadBalance) (ho : Agrees H o o') (tid : Nat)
    (xs : Nat → Chance) (routeIds : List Int64) {balancers : Balancers} (h : InForce H o balancers)
    (result : FinMap Int64 (Option Server)) (selected : FinMap UInt64 (Option Server)) :
    InForce H o (batchLoop H db o' tid xs balancers result selected routeIds).2 := by
  induction routeIds generalizing balancers result selected with
  | nil => exact h
  | cons routeId routeIds ih =>
    unfold LoadBalance.batchLoop
    split
    · exact ih h _ _
    · rename_i list _
      split
      · exact ih h _ _
      · have hsel := h.selectServers hm ho list tid (xs routeIds.length)
        split
        · rename_i balancers' heq
          rwa [heq] at hsel
        · rename_i t balancers' heq
          rw [heq] at hsel
          exact ih hsel _ _

theorem InForce.afterCall {o : ClientOption} (hm : keepsNoState o.loadBalance) {balancers : Balancers}
    (h : InForce H o balancers) {call : Call} (hcall : Agrees H o call.option) :
    InForce H o (afterCall H db balancers call) := by
  cases call with
  | discover option tid x => exact h.discoverRoute hm hcall _ tid x
  | edgeDiscover option tid x => exact h.discoverRoute hm hcall _ tid x
  | batchDiscover option routeIds tid xs => exact h.batchLoop hm hcall tid xs routeIds ∅ ∅

variable (db) in
theorem InForce.afterCalls {o : ClientOption} (hm : keepsNoState o.loadBalance) {calls : List Call}
    (hcalls : ∀ call ∈ calls, Agrees H o call.option) {balancers : Balancers} (h : InForce H o balancers) :
    InForce H o (afterCalls H db balancers calls) := by
  induction calls generalizing balancers with
  | nil => exact h
  | cons call calls ih =>
    exact ih (fun c hc => hcalls c (List.mem_cons_of_mem _ hc)) (h.afterCall hm (hcalls call List.mem_cons_self))

theorem inForce_empty (o : ClientOption) : InForce H o ∅ := by
  intro b hb
  simp at hb

/-! ## Two runs -/

/-- Only the balancer of the option matters. -/
theorem discover_congr {o : ClientOption} {balancers balancers' : Balancers}
    (h : getOrCreateBalance H balancers o = getOrCreateBalance H balancers' o) (tid : Nat) (x : Chance) :
    (discover H db balancers o tid x).1 = (discover H db balancers' o tid x).1 := by
  unfold discover discoverRoute
  split
  · rfl
  · unfold selectServers
    rw [h]
    cases getOrCreateBalance H balancers' o with
    | none => rfl
    | some b => rfl

/-- After any calls, those that share the balancer of `o` having asked for the same one, the
    balancer in force is the one `o` asks for, and `discover` may answer what it may answer
    in a fresh router. -/
theorem answered_by_own_option (H : Hash64) (db : RouterDb) {o : ClientOption} (hm : keepsNoState o.loadBalance)
    {calls : List Call} (hcalls : ∀ call ∈ calls, balanceId H call.option = balanceId H o → SameBalancer o call.option) :
    getOrCreateBalance H (afterCalls H db ∅ calls) o = newBalancer o ∧
      mayReturn H db (afterCalls H db ∅ calls) o = mayReturn H db ∅ o := by
  have hforce := (inForce_empty o).afterCalls db hm hcalls
  refine ⟨hforce.getOrCreateBalance, ?_⟩
  have hsame : getOrCreateBalance H (afterCalls H db ∅ calls) o = getOrCreateBalance H ∅ o :=
    hforce.getOrCreateBalance.trans (inForce_empty o).getOrCreateBalance.symm
  ext r
  simp only [mayReturn, Set.mem_ofPred_eq, discover_congr hsame]

def inShanghai : ClientOption where
  serviceName := "predictor"
  protocol := .thrift
  loadBalance := .idcfirst
  idc := "sh"

def elsewhere : ClientOption := { inShanghai with dc := "other" }

/-- Two routes of the service have one list. -/
def shanghaiTable : RouterDb :=
  tableOf cityHash64WithSeed [inShanghai, elsewhere] [secondServer, { firstServer with idc := "sh" }]

/-- The first call creates the balancer. -/
def fromShanghai : List Call :=
  [.discover elsewhere 0 {}, .batchDiscover inShanghai [4294967295, 2] 1 fun _ => {}]

theorem answered_by_own_idc :
    (afterCalls cityHash64WithSeed shanghaiTable ∅ fromShanghai).lookup (balanceId cityHash64WithSeed inShanghai) =
        some (.idcFirst "sh") ∧
      getOrCreateBalance cityHash64WithSeed (afterCalls cityHash64WithSeed shanghaiTable ∅ fromShanghai) inShanghai =
        newBalancer inShanghai ∧
      mayReturn cityHash64WithSeed shanghaiTable (afterCalls cityHash64WithSeed shanghaiTable ∅ fromShanghai)
          inShanghai =
        mayReturn cityHash64WithSeed shanghaiTable ∅ inShanghai := by
  refine ⟨by decide +kernel, answered_by_own_option cityHash64WithSeed shanghaiTable rfl ?_⟩
  intro call hcall _
  simp only [fromShanghai, List.mem_cons, List.not_mem_nil, or_false] at hcall
  rcases hcall with rfl | rfl
  · exact ⟨rfl, rfl⟩
  · exact ⟨rfl, rfl⟩

/-- The same service, protocol and route as `inTurn`, with another option. -/
def inTurnFromShanghai : ClientOption := { inTurn with idc := "sh" }

/-- A table where the route of `inTurn` has two servers. -/
def twoServers : RouterDb := tableOf cityHash64WithSeed [inTurn] [firstServer, secondServer]

theorem discover_twoServers {balancers : Balancers} {requests : UInt64} {o : ClientOption}
    (hb : getOrCreateBalance cityHash64WithSeed balancers o = some (.roundrobin requests))
    (hroute : shardRoute o = shardRoute inTurn) (tid : Nat) (x : Chance) :
    discover cityHash64WithSeed twoServers balancers o tid x =
      (selectRoundrobin requests [firstServer, secondServer],
        balancers.insert (balanceId cityHash64WithSeed o) (.roundrobin (requests + 1))) := by
  have hl : twoServers.selectServers cityHash64WithSeed (shardRoute o) = some [firstServer, secondServer] := by
    rw [hroute]
    exact selectServers_tableOf List.mem_cons_self
  rw [discover_some hl, selectServers_roundrobin _ hb (by simp)]

/-- In a fresh router the first server is selected, after one call with another option the
    second. -/
theorem roundrobin_depends_on_earlier_calls :
    ¬ ∀ (db : RouterDb) (calls : List Call) (o : ClientOption), (∀ call ∈ calls, call.option ≠ o) →
      mayReturn cityHash64WithSeed db (afterCalls cityHash64WithSeed db ∅ calls) o =
        mayReturn cityHash64WithSeed db ∅ o := by
  intro h
  have hfresh : ∀ o : ClientOption, o.loadBalance = .roundrobin →
      getOrCreateBalance cityHash64WithSeed ∅ o = some (.roundrobin 0) := by
    intro o ho
    simp [getOrCreateBalance, newBalancer, ho]
  have hafter : afterCalls cityHash64WithSeed twoServers ∅ [.discover inTurnFromShanghai 0 {}] =
      (∅ : Balancers).insert (balanceId cityHash64WithSeed inTurnFromShanghai) (.roundrobin 1) :=
    congrArg Prod.snd (discover_twoServers (hfresh inTurnFromShanghai rfl) rfl 0 {})
  -- both options have one balancer
  have hsecond : getOrCreateBalance cityHash64WithSeed
      (afterCalls cityHash64WithSeed twoServers ∅ [.discover inTurnFromShanghai 0 {}]) inTurn =
        some (.roundrobin 1) := by
    have hid : balanceId cityHash64WithSeed inTurnFromShanghai = balanceId cityHash64WithSeed inTurn := rfl
    rw [hafter, getOrCreateBalance, hid, Finmap.lookup_insert]
    rfl
  have hin : some (some firstServer) ∈ mayReturn cityHash64WithSeed twoServers ∅ inTurn :=
    ⟨0, {}, by rw [discover_twoServers (hfresh inTurn rfl) rfl]; rfl⟩
  rw [← h twoServers [.discover inTurnFromShanghai 0 {}] inTurn (by decide)] at hin
  obtain ⟨tid, x, hx⟩ := hin
  rw [discover_twoServers hsecond rfl] at hx
  have hservers : some (some secondServer) = some (some firstServer) := hx
  exact absurd hservers (by decide)

end PredictorService.ServiceRouter.LoadBalance
