/-
  PredictorService.ServiceRouter.WeightedFairness — what weights in turn promise
  (service_router/load_balance.{h,cc}, `LoadBalanceConfigurableWeight::select`; the loop as a
  wheel is in `WeightedRoundRobin`).

  (1) Termination (`every_call_returns_iff`). The weight is carried over between lists and
  falls by the common divisor of the present one. That divisor is zero for a list of one
  server, so a call on it returns exactly when the carried weight is not above the server's
  (`a_lighter_single_server_is_never_returned`).

  (2) Zero weights (`serves_iff`). The loop divides by every weight but the first and the
  last of a longer list, so a zero there crashes the call (`an_idle_second_server_divides_by_zero`).
  Otherwise a positive weight is served, unless a weight of zero was carried over to a
  server that has none either.

  (3) Proportion (`proportional_iff`). The last weight of three or more has no part in the
  common divisor. So the servers are selected in proportion exactly when it is a multiple of
  the divisor of the others (`a_light_last_server_is_never_selected`).
-/

import Mathlib.Algebra.BigOperators.Ring.Finset
import Mathlib.Algebra.BigOperators.Ring.List
import Mathlib.Tactic.Ring
import PredictorService.ServiceRouter.StaticWeight
import PredictorService.ServiceRouter.WeightedRoundRobin

namespace PredictorService.ServiceRouter.LoadBalance

open PredictorService.Lib

section Lists

variable {list : ServerList} (hne : list ≠ []) (hw : ∀ t ∈ list, 0 ≤ t.weight)

include hne hw

/-- The heaviest server reaches the top. -/
theorem exists_top (gap : Nat) : ∃ i < (wheelOf list gap).slots, (wheelOf list gap).top ≤ (wheelOf list gap).weight i := by
  obtain ⟨t, ht, hle⟩ := exists_maxWeight hne hw
  obtain ⟨i, hi, rfl⟩ := List.getElem_of_mem ht
  refine ⟨i, hi, ?_⟩
  rw [weight_wheelOf (List.getElem?_eq_getElem hi), natWeight]
  exact Int.toNat_le_toNat hle

end Lists

/-! ## (1) Termination -/

/-- The calls of one thread on some lists, all of which return. -/
inductive Calls : CurrentState → List ServerList → CurrentState → Prop
  | nil (state : CurrentState) : Calls state [] state
  | cons {state state' state'' : CurrentState} {list : ServerList} {lists : List ServerList} {rounds : Nat}
      {t : Option Server} (hcall : selectConfigurableWeight state list { rounds } = some (t, state'))
      (hrest : Calls state' lists state'') : Calls state (list :: lists) state''

/-- The call returns, after however many rounds. -/
def Returns (state : CurrentState) (list : ServerList) : Prop :=
  ∃ rounds r, selectConfigurableWeight state list { rounds } = some r

theorem returns_iff {list : ServerList} (hne : list ≠ []) (hlen : list.length < 2147483648)
    (hw : ∀ t ∈ list, 0 ≤ t.weight) (hdiv : ∀ t ∈ divisors list, 0 < t.weight) {state : CurrentState}
    (hc : Carried state) : Returns state list ↔ ∀ t, list = [t] → state.currentWeight ≤ t.weight := by
  obtain ⟨i, hi, htop⟩ := exists_top hne hw (gapOf list)
  constructor
  · rintro ⟨rounds, r, hcall⟩ t rfl
    obtain ⟨r', hspin, -⟩ := spin_of_select hne hlen hw hc hcall
    -- a higher weight than the server's is never lowered
    rw [Int32.le_iff_toInt_le]
    by_contra hlt
    have hnonneg := Int32.le_iff_toInt_le.mp (hw t List.mem_cons_self)
    rw [Int32.toInt_zero] at hnonneg
    have hlevel : (wheelOf [t] (gapOf [t])).weight 0 < (handOf state).level := by
      show natWeight t < state.currentWeight.toInt.toNat
      unfold natWeight
      omega
    rw [Wheel.spin_stuck rfl rfl hlevel] at hspin
    cases hspin
  · intro hsingle
    have hspin : ∃ turns r, (wheelOf list (gapOf list)).spin turns (handOf state) = some r := by
      match list with
      | [] => exact absurd rfl hne
      | [t] =>
        refine Wheel.spin_of_level_le (List.length_pos_of_ne_nil hne) hi htop ?_
        have hle := Int32.le_iff_toInt_le.mp (hsingle t rfl)
        exact Int.toNat_le_toNat (Int.le_trans hle (le_maxWeight List.mem_cons_self))
      | t :: u :: rest =>
        exact Wheel.spin_of_gap (List.length_pos_of_ne_nil hne) (gapOf_pos (hdiv u List.mem_cons_self)) hi htop _
    obtain ⟨turns, r', hspin⟩ := hspin
    obtain ⟨r, hcall, -⟩ := select_of_spin hne hlen hw hc hdiv hspin
    exact ⟨turns, r, hcall⟩

/-- The lists that the state can be carried over from. -/
def Regular (list : ServerList) : Prop := list ≠ [] ∧ list.length < 2147483648 ∧ ∀ t ∈ list, 0 ≤ t.weight

theorem Calls.carried {lists : List ServerList} (hlists : ∀ list ∈ lists, Regular list) {state state' : CurrentState}
    (hc : Carried state) (hcalls : Calls state lists state') : Carried state' := by
  induction hcalls with
  | nil => exact hc
  | cons hcall hrest ih =>
    obtain ⟨hne, hlen, hw⟩ := hlists _ List.mem_cons_self
    obtain ⟨r', -, hanswers⟩ := spin_of_select hne hlen hw hc hcall
    exact ih (fun list hl => hlists list (List.mem_cons_of_mem _ hl)) hanswers.carried

theorem Calls.unique {lists : List ServerList} {state s s' : CurrentState} (h : Calls state lists s)
    (h' : Calls state lists s') : s = s' := by
  induction h with
  | nil =>
    cases h'
    rfl
  | cons hcall hrest ih =>
    cases h' with
    | cons hcall' hrest' =>
      obtain ⟨-, rfl⟩ := Prod.mk.inj (select_unique hcall hcall')
      exact ih hrest'

theorem Calls.returns_next {before after : List ServerList} {list : ServerList} {state s final : CurrentState}
    (h : Calls state (before ++ list :: after) final) (hs : Calls state before s) : Returns s list := by
  induction before generalizing state with
  | nil =>
    cases hs
    cases h with
    | cons hcall hrest => exact ⟨_, _, hcall⟩
  | cons list' before ih =>
    cases hs with
    | cons hcall hs =>
      cases h with
      | cons hcall' hrest =>
        obtain ⟨-, rfl⟩ := Prod.mk.inj (select_unique hcall hcall')
        exact ih hrest hs

/-- The carried weight is not above the weight of a single server. -/
def WeightFits (state : CurrentState) (list : ServerList) : Prop := ∀ t, list = [t] → state.currentWeight ≤ t.weight

theorem regular_of_pos {list : ServerList} (hne : list ≠ []) (hlen : list.length < 2147483648)
    (hpos : ∀ t ∈ list, 0 < t.weight) : Regular list ∧ ∀ t ∈ divisors list, 0 < t.weight :=
  ⟨⟨hne, hlen, fun t ht => Int32.le_of_lt (hpos t ht)⟩, fun t ht => hpos t (mem_of_mem_divisors ht)⟩

/-- Calls on lists that fit one after another all return. -/
theorem calls_of_fits {lists : List ServerList} (hlists : ∀ list ∈ lists, list ≠ [] ∧ ∀ t ∈ list, 0 < t.weight)
    {state : CurrentState} (hc : Carried state)
    (hfits : ∀ before list after s, lists = before ++ list :: after → Calls state before s →
      list.length < 2147483648 ∧ WeightFits s list) : ∃ s, Calls state lists s := by
  induction lists generalizing state with
  | nil => exact ⟨state, .nil state⟩
  | cons list lists ih =>
    obtain ⟨hne, hpos⟩ := hlists list List.mem_cons_self
    obtain ⟨hlen, hfit⟩ := hfits [] list lists state rfl (.nil state)
    obtain ⟨⟨-, -, hw⟩, hdiv⟩ := regular_of_pos hne hlen hpos
    obtain ⟨rounds, ⟨t, state'⟩, hcall⟩ := (returns_iff hne hlen hw hdiv hc).mpr hfit
    obtain ⟨r', -, hanswers⟩ := spin_of_select hne hlen hw hc hcall
    obtain ⟨s, hs⟩ := ih (fun l hl => hlists l (List.mem_cons_of_mem _ hl)) hanswers.carried
      fun before l after s heq hcalls => hfits (list :: before) l after s (by rw [heq]; rfl) (.cons hcall hcalls)
    exact ⟨s, .cons hcall hs⟩

/-- On lists with positive weights every call returns, as long as no call on a single server
    finds a higher weight carried over, and no list is longer than its `int` index can
    count; and a call that finds one does not return. -/
theorem every_call_returns_iff (lists : List ServerList)
    (hlists : ∀ list ∈ lists, list ≠ [] ∧ ∀ t ∈ list, 0 < t.weight) :
    ((∀ before list after state, lists = before ++ list :: after → Calls {} before state →
      list.length < 2147483648 ∧ WeightFits state list) → ∃ state, Calls {} lists state) ∧
    ((∀ list ∈ lists, list.length < 2147483648) → (∃ state, Calls {} lists state) →
      ∀ before list after state, lists = before ++ list :: after → Calls {} before state → WeightFits state list) := by
  refine ⟨fun hfits => calls_of_fits hlists carried_fresh hfits, ?_⟩
  rintro hlen ⟨final, hfinal⟩ before list after state rfl hcalls
  have hmem : list ∈ before ++ list :: after := List.mem_append_right _ List.mem_cons_self
  have hbefore : ∀ l ∈ before, Regular l := by
    intro l hl
    have hl' := List.mem_append_left (list :: after) hl
    exact (regular_of_pos (hlists l hl').1 (hlen l hl') (hlists l hl').2).1
  obtain ⟨⟨hne, hshort, hw⟩, hdiv⟩ := regular_of_pos (hlists list hmem).1 (hlen list hmem) (hlists list hmem).2
  exact (returns_iff hne hshort hw hdiv (hcalls.carried hbefore carried_fresh)).mp (hfinal.returns_next hcalls)

/-- The call on a server of weight 3 leaves a weight that a server of weight 10 is above. -/
theorem a_heavier_single_server_is_returned :
    ∃ state, Calls {} [[weighted "10.0.0.1" 3], [weighted "10.0.0.2" 10]] state := by
  have hfirst : selectConfigurableWeight {} [weighted "10.0.0.1" 3] { rounds := 1 } =
      some (some (weighted "10.0.0.1" 3), ⟨0, 3⟩) := by decide
  refine (every_call_returns_iff _ (by decide)).1 fun before list after state heq hcalls => ?_
  match before with
  | [] =>
    cases hcalls
    obtain ⟨rfl, -⟩ := List.cons.inj heq
    refine ⟨by decide, fun t ht => ?_⟩
    cases ht
    decide
  | [list'] =>
    obtain ⟨rfl, hrest⟩ := List.cons.inj heq
    obtain ⟨rfl, -⟩ := List.cons.inj hrest
    obtain rfl := hcalls.unique (.cons hfirst (.nil _))
    refine ⟨by decide, fun t ht => ?_⟩
    cases ht
    decide
  | list' :: list'' :: before =>
    obtain ⟨-, hrest⟩ := List.cons.inj heq
    obtain ⟨-, hrest⟩ := List.cons.inj hrest
    exact absurd hrest.symm (by simp)

/-- After a server of weight 10, the call on a server of weight 3 alone loops for ever. -/
theorem a_lighter_single_server_is_never_returned :
    ¬∃ state, Calls {} [[weighted "10.0.0.1" 10], [weighted "10.0.0.2" 3]] state := by
  rintro ⟨state, hcalls⟩
  have hfirst : selectConfigurableWeight {} [weighted "10.0.0.1" 10] { rounds := 1 } =
      some (some (weighted "10.0.0.1" 10), ⟨0, 10⟩) := by decide
  have hsecond : Returns ⟨0, 10⟩ [weighted "10.0.0.2" 3] :=
    @Calls.returns_next [[weighted "10.0.0.1" 10]] [] _ _ _ _ hcalls (.cons hfirst (.nil _))
  have hfits := (returns_iff (by decide) (by decide) (by decide) (by decide) ⟨by decide, by decide, by decide⟩).mp hsecond
  exact absurd (hfits _ rfl) (by decide)

/-! ## (2) Zero weights -/

/-- Where the loop goes on. -/
def nextIndex (state : CurrentState) (list : ServerList) : Nat := (state.currentIndex.toInt + 1).toNat % list.length

/-- The call divides by no zero, returns, and returns a server with a positive weight. -/
def ServesPositive (state : CurrentState) (list : ServerList) : Prop :=
  (∃ g, gcdWeight list = some g) ∧
    ∃ rounds t state', selectConfigurableWeight state list { rounds } = some (some t, state') ∧ 0 < t.weight

structure Servable (state : CurrentState) (list : ServerList) : Prop where
  /-- The loop divides by no weight of zero: by the second, and by all but the first and the last. -/
  divides : ∀ i t, list[i]? = some t → 1 ≤ i → (i = 1 ∨ i + 2 ≤ list.length) → 0 < t.weight
  fits : WeightFits state list
  /-- A carried weight of zero, past the first server, selects whatever is next. -/
  carries : state.currentWeight = 0 → nextIndex state list ≠ 0 →
    ∀ t, list[nextIndex state list]? = some t → 0 < t.weight

theorem mem_divisors_iff {list : ServerList} {t : Server} :
    t ∈ divisors list ↔ ∃ i, list[i]? = some t ∧ 1 ≤ i ∧ (i = 1 ∨ i + 2 ≤ list.length) := by
  match list with
  | [] => simp [divisors]
  | [u] =>
    simp only [divisors, List.not_mem_nil, false_iff, not_exists, not_and]
    intro i hi hpos
    obtain ⟨hlt, -⟩ := List.getElem?_eq_some_iff.mp hi
    simp at hlt
    omega
  | u :: v :: rest =>
    constructor
    · intro h
      rcases List.mem_cons.mp h with rfl | h
      · exact ⟨1, rfl, Nat.le_refl 1, .inl rfl⟩
      · obtain ⟨i, hi, heq⟩ := List.getElem_of_mem h
        rw [List.length_dropLast] at hi
        rw [List.getElem_dropLast] at heq
        refine ⟨i + 1, ?_, by omega, .inr ?_⟩
        · rw [List.getElem?_cons_succ, ← heq]
          exact List.getElem?_eq_getElem _
        · simp only [List.length_cons] at hi ⊢
          omega
    · rintro ⟨i, hi, hpos, hlast⟩
      obtain ⟨j, rfl⟩ := Nat.exists_eq_add_of_le' hpos
      rw [List.getElem?_cons_succ] at hi
      rcases hlast with hone | hlast
      · obtain rfl : j = 0 := by omega
        obtain rfl : v = t := by simpa using hi
        exact List.mem_cons_self
      · refine List.mem_cons_of_mem _ (List.mem_of_getElem? (i := j) ?_)
        simp only [List.length_cons] at hlast
        rw [List.getElem?_dropLast, if_pos (by simp only [List.length_cons]; omega), hi]

section Serving

variable {list : ServerList} (hne : list ≠ []) (hlen : list.length < 2147483648) (hw : ∀ t ∈ list, 0 ≤ t.weight)
  (hsome : ∃ t ∈ list, 0 < t.weight) {state : CurrentState} (hc : Carried state)

theorem slot_wheelOf (state : CurrentState) (gap : Nat) : (wheelOf list gap).slot (handOf state) = nextIndex state list := rfl

theorem level_eq_zero_iff (hc : Carried state) : (handOf state).level = 0 ↔ state.currentWeight = 0 := by
  have hge := hc.weight_ge
  rw [← Int32.toInt_inj, Int32.toInt_zero]
  show state.currentWeight.toInt.toNat = 0 ↔ _
  omega

include hsome in
theorem top_pos (gap : Nat) : 0 < (wheelOf list gap).top := by
  obtain ⟨t, ht, hpos⟩ := hsome
  have hlt := Int32.lt_iff_toInt_lt.mp hpos
  have hle := le_maxWeight ht
  show 0 < (maxWeight list).toInt.toNat
  rw [Int32.toInt_zero] at hlt
  omega

include hne hlen hw hc

/-- A weight of zero carried past the first server selects the next one. -/
theorem server_of_weight_zero (hzero : state.currentWeight = 0) (hnext : nextIndex state list ≠ 0) {rounds : Nat}
    {r : Option Server × CurrentState} (hcall : selectConfigurableWeight state list { rounds } = some r) :
    r.1 = list[nextIndex state list]? := by
  obtain ⟨r', hspin, hanswers⟩ := spin_of_select hne hlen hw hc hcall
  have hfound := Wheel.spin_of_level_zero ((level_eq_zero_iff hc).mpr hzero) (by rwa [slot_wheelOf]) hspin
  rw [hanswers.server, hfound, slot_wheelOf]
  rfl

include hsome

/-- From a positive weight a server with a positive weight is selected. -/
theorem server_of_weight_pos (hpos : 0 < ((wheelOf list (gapOf list)).turn (handOf state)).level) {rounds : Nat}
    {r : Option Server × CurrentState} (hcall : selectConfigurableWeight state list { rounds } = some r) :
    ∃ t, r.1 = some t ∧ 0 < t.weight ∧ list[r.2.currentIndex.toInt.toNat]? = some t ∧
      0 < ((wheelOf list (gapOf list)).turn (handOf r.2)).level := by
  obtain ⟨⟨i?, h'⟩, hspin, hanswers⟩ := spin_of_select hne hlen hw hc hcall
  have htop := top_pos hsome (gapOf list)
  obtain ⟨i, rfl, -, hlevel, hweight⟩ := Wheel.weight_pos_of_spin htop hpos hspin
  have hindex := hanswers.index i rfl
  cases ht : list[i]? with
  | none =>
    have : (wheelOf list (gapOf list)).weight i = 0 := by
      show (list[i]?.map natWeight).getD 0 = 0
      rw [ht]
      rfl
    omega
  | some t =>
    rw [weight_wheelOf ht, natWeight] at hweight
    refine ⟨t, ?_, ?_, ?_, ?_⟩
    · rw [hanswers.server]
      exact ht
    · rw [Int32.lt_iff_toInt_lt, Int32.toInt_zero]
      omega
    · rw [hindex]
      exact ht
    · rw [hanswers.hand]
      exact Wheel.level_turn_pos htop hlevel

theorem serves_of_servable (h : Servable state list) : ServesPositive state list := by
  have hdiv : ∀ t ∈ divisors list, 0 < t.weight := by
    intro t ht
    obtain ⟨i, hi, hpos, hlast⟩ := mem_divisors_iff.mp ht
    exact h.divides i t hi hpos hlast
  obtain ⟨rounds, ⟨t?, state'⟩, hcall⟩ := (returns_iff hne hlen hw hdiv hc).mpr h.fits
  refine ⟨(gcdWeight_isSome_iff hw).mpr hdiv, rounds, ?_⟩
  rcases Nat.eq_zero_or_pos ((wheelOf list (gapOf list)).turn (handOf state)).level with hzero | hpos
  · obtain ⟨hlevel, hslot⟩ := Wheel.level_of_level_turn (top_pos hsome _) hzero
    rw [slot_wheelOf] at hslot
    have hweight := (level_eq_zero_iff hc).mp hlevel
    have hserver := server_of_weight_zero hne hlen hw hc hweight hslot hcall
    have hlt : nextIndex state list < list.length := Nat.mod_lt _ (List.length_pos_of_ne_nil hne)
    have ht : list[nextIndex state list]? = some list[nextIndex state list] := List.getElem?_eq_getElem hlt
    obtain rfl : t? = some list[nextIndex state list] := hserver.trans ht
    exact ⟨_, state', hcall, h.carries hweight hslot _ ht⟩
  · obtain ⟨t, rfl, ht, -⟩ := server_of_weight_pos hne hlen hw hsome hc hpos hcall
    exact ⟨t, state', hcall, ht⟩

omit hsome in
theorem servable_of_serves (h : ServesPositive state list) : Servable state list := by
  obtain ⟨hgcd, rounds, t, state', hcall, hpos⟩ := h
  have hdiv := (gcdWeight_isSome_iff hw).mp hgcd
  refine ⟨fun i t hi hi1 hlast => hdiv t (mem_divisors_iff.mpr ⟨i, hi, hi1, hlast⟩),
    (returns_iff hne hlen hw hdiv hc).mp ⟨rounds, _, hcall⟩, fun hzero hnext u hu => ?_⟩
  have hserver := server_of_weight_zero hne hlen hw hc hzero hnext hcall
  obtain rfl : t = u := Option.some.inj (hserver.trans hu)
  exact hpos

end Serving

/-- On a list with a positive weight, from whatever earlier calls have left: the call
    divides by no zero and serves a positive weight exactly when the list is `Servable`, as
    far as an `int` counts its servers. -/
theorem serves_iff (lists : List ServerList) (hlists : ∀ l ∈ lists, Regular l) (state : CurrentState)
    (hcalls : Calls {} lists state) (list : ServerList) (hne : list ≠ []) (hw : ∀ t ∈ list, 0 ≤ t.weight)
    (hsome : ∃ t ∈ list, 0 < t.weight) :
    (list.length < 2147483648 ∧ Servable state list → ServesPositive state list) ∧
    (list.length < 2147483648 → ServesPositive state list → Servable state list) := by
  have hc := hcalls.carried hlists carried_fresh
  exact ⟨fun h => serves_of_servable hne h.1 hw hsome hc h.2, fun hlen h => servable_of_serves hne hlen hw hc h⟩

/-- A last server without weight is harmless. -/
theorem an_idle_last_server_is_passed :
    ServesPositive {} [weighted "10.0.0.1" 2, weighted "10.0.0.2" 1, weighted "10.0.0.3" 0] := by
  refine (serves_iff [] (fun l hl => nomatch hl) {} (.nil _) _ (by decide) (by decide) ⟨_, List.mem_cons_self, by decide⟩).1
    ⟨by decide, fun i t hi hpos hlast => ?_, fun t ht => ?_, fun _ hnext => absurd rfl hnext⟩
  · obtain rfl : i = 1 := by
      simp only [List.length_cons, List.length_nil] at hlast
      omega
    cases hi
    decide
  · cases ht

/-- A second server without weight: the greatest common divisor divides by zero. -/
theorem an_idle_second_server_divides_by_zero : ¬ServesPositive {} [weighted "10.0.0.1" 1, weighted "10.0.0.2" 0] := by
  rintro ⟨⟨g, hg⟩, -⟩
  rw [gcdWeight_none (t := weighted "10.0.0.2" 0) List.mem_cons_self rfl] at hg
  cases hg

/-! ## (3) Proportion -/

/-- The states between the calls on one list, from the fresh one; each call returns the
    server at the index that it leaves. -/
structure Selections (list : ServerList) (states : Nat → CurrentState) : Prop where
  fresh : states 0 = {}
  next : ∀ k, ∃ rounds t, selectConfigurableWeight (states k) list { rounds } = some (some t, states (k + 1)) ∧
    list[(states (k + 1)).currentIndex.toInt.toNat]? = some t

def sumWeights (list : ServerList) : Nat := (list.map natWeight).sum

/-- The calls all return, and in any window of the right length each server is returned in
    proportion to its weight. -/
def Proportional (list : ServerList) : Prop :=
  (∃ states, Selections list states) ∧
    ∀ states, Selections list states → ∀ (a i : Nat) (t : Server), list[i]? = some t →
      Nat.count (fun k => (states (a + k + 1)).currentIndex.toInt = i) (sumWeights list / gcdOf list) =
        natWeight t / gcdOf list

/-- A state from which the calls go on: the weight is positive and not above the greatest. -/
structure Going (list : ServerList) (state : CurrentState) : Prop where
  carried : Carried state
  level_pos : 0 < ((wheelOf list (gapOf list)).turn (handOf state)).level
  level_le : (handOf state).level ≤ (wheelOf list (gapOf list)).top

section Proportion

variable {list : ServerList} (hne : list ≠ []) (hlen : list.length < 2147483648) (hpos : ∀ t ∈ list, 0 < t.weight)

include hne hlen hpos

theorem exists_next {state : CurrentState} (h : Going list state) :
    ∃ state', Going list state' ∧ ∃ rounds t, selectConfigurableWeight state list { rounds } = some (some t, state') ∧
      list[state'.currentIndex.toInt.toNat]? = some t := by
  obtain ⟨⟨-, -, hw⟩, hdiv⟩ := regular_of_pos hne hlen hpos
  obtain ⟨t₀, ht₀⟩ := List.exists_mem_of_ne_nil list hne
  obtain ⟨i, hi, hreach⟩ := exists_top hne hw (gapOf list)
  obtain ⟨turns, r', hspin⟩ := Wheel.spin_of_level_le (List.length_pos_of_ne_nil hne) hi hreach h.level_le
  obtain ⟨⟨t?, state'⟩, hcall, hanswers⟩ := select_of_spin hne hlen hw h.carried hdiv hspin
  obtain ⟨t, rfl, -, hindex, hnext⟩ :=
    server_of_weight_pos hne hlen hw ⟨t₀, ht₀, hpos t₀ ht₀⟩ h.carried h.level_pos hcall
  have hle : (handOf state').level ≤ max (handOf state).level (wheelOf list (gapOf list)).top := by
    have hspun := Wheel.level_le_of_spin hspin
    rwa [← hanswers.hand] at hspun
  exact ⟨state', ⟨hanswers.carried, hnext, hle.trans (max_le h.level_le (le_refl _))⟩, turns, t, hcall, hindex⟩

omit hlen in
theorem going_fresh : Going list {} := by
  obtain ⟨t₀, ht₀⟩ := List.exists_mem_of_ne_nil list hne
  have htop := top_pos ⟨t₀, ht₀, hpos t₀ ht₀⟩ (gapOf list)
  refine ⟨carried_fresh, Nat.pos_of_ne_zero fun hzero => ?_, Nat.zero_le _⟩
  exact absurd (Nat.zero_mod _) (Wheel.level_of_level_turn htop hzero).2

theorem exists_selections : ∃ states, Selections list states := by
  have hstep : ∀ s : { s // Going list s }, ∃ s' : { s // Going list s }, ∃ rounds t,
      selectConfigurableWeight s.1 list { rounds } = some (some t, s'.1) ∧
        list[s'.1.currentIndex.toInt.toNat]? = some t := by
    rintro ⟨s, hs⟩
    obtain ⟨s', hs', hcall⟩ := exists_next hne hlen hpos hs
    exact ⟨⟨s', hs'⟩, hcall⟩
  choose next hnext using hstep
  refine ⟨fun k => (next^[k] ⟨{}, going_fresh hne hpos⟩).1, rfl, fun k => ?_⟩
  rw [Function.iterate_succ_apply']
  exact hnext _

/-- The hands of the calls are the hands of the wheel. -/
theorem Selections.spins {states : Nat → CurrentState} (hs : Selections list states) :
    (∀ k, Carried (states k)) ∧ (wheelOf list (gapOf list)).Spins fun k => handOf (states k) := by
  obtain ⟨⟨-, -, hw⟩, hdiv⟩ := regular_of_pos hne hlen hpos
  have hcarried : ∀ k, Carried (states k) := by
    intro k
    induction k with
    | zero =>
      rw [hs.fresh]
      exact carried_fresh
    | succ k ih =>
      obtain ⟨rounds, t, hcall, -⟩ := hs.next k
      obtain ⟨r', -, hanswers⟩ := spin_of_select hne hlen hw ih hcall
      exact hanswers.carried
  refine ⟨hcarried, ⟨?_, fun k => ?_⟩⟩
  · show handOf (states 0) = {}
    rw [hs.fresh]
    rfl
  · obtain ⟨rounds, t, hcall, -⟩ := hs.next k
    obtain ⟨r', hspin, hanswers⟩ := spin_of_select hne hlen hw (hcarried k) hcall
    refine ⟨rounds, r'.1, ?_⟩
    rw [hspin]
    exact congrArg some (Prod.ext rfl hanswers.hand.symm)

/-- In any period of calls each server has its share of the wheel. -/
theorem Selections.window {states : Nat → CurrentState} (hs : Selections list states) (a : Nat) {i : Nat}
    (hi : i < list.length) :
    Nat.count (fun k => (states (a + k + 1)).currentIndex.toInt = i) (wheelOf list (gapOf list)).period =
      (wheelOf list (gapOf list)).share i := by
  obtain ⟨⟨-, -, hw⟩, -⟩ := regular_of_pos hne hlen hpos
  obtain ⟨t₀, ht₀⟩ := List.exists_mem_of_ne_nil list hne
  obtain ⟨hcarried, hspins⟩ := hs.spins hne hlen hpos
  obtain ⟨j, hj, hreach⟩ := exists_top hne hw (gapOf list)
  have htop := top_pos ⟨t₀, ht₀, hpos t₀ ht₀⟩ (gapOf list)
  rw [← hspins.window (List.length_pos_of_ne_nil hne) htop hj hreach a hi]
  refine count_congr fun k _ => ?_
  have hge := (hcarried (a + k + 1)).index_ge
  show _ ↔ ((states (a + k + 1)).currentIndex.toInt + 1).toNat = i + 1
  omega

end Proportion

/-! The shares of the wheel, against the weights. -/

theorem sum_weight_wheelOf (list : ServerList) (gap : Nat) :
    ∑ i ∈ Finset.range list.length, (wheelOf list gap).weight i = sumWeights list := by
  have hsum : ∑ i ∈ Finset.range list.length, (list[i]?.map natWeight).getD 0 = sumWeights list := by
    induction list with
    | nil => rfl
    | cons t list ih =>
      rw [List.length_cons, Finset.sum_range_succ']
      simp only [List.getElem?_cons_succ, ih, List.getElem?_cons_zero]
      show _ + natWeight t = natWeight t + sumWeights list
      omega
  exact hsum

theorem weight_le_top {list : ServerList} {i : Nat} {t : Server} (h : list[i]? = some t) (gap : Nat) :
    (wheelOf list gap).weight i ≤ (wheelOf list gap).top := by
  rw [weight_wheelOf h]
  exact Int.toNat_le_toNat (le_maxWeight (List.mem_of_getElem? h))

/-- A weight that the gap divides has its quotient as share. -/
theorem share_mul_gap {list : ServerList} {gap i : Nat} {t : Server} (hgap : 0 < gap) (h : list[i]? = some t)
    (hdvd : gap ∣ natWeight t) : (wheelOf list gap).share i = natWeight t / gap := by
  refine Wheel.share_eq_of_dvd hgap ?_ (weight_le_top h gap)
  rw [weight_wheelOf h]
  exact (Nat.div_mul_cancel hdvd).symm

theorem period_mul_gap {list : ServerList} {gap : Nat} (hgap : 0 < gap) (hdvd : ∀ t ∈ list, gap ∣ natWeight t) :
    (wheelOf list gap).period * gap = sumWeights list := by
  rw [← sum_weight_wheelOf list gap, Wheel.period, Finset.sum_mul]
  refine Finset.sum_congr rfl fun i hi => ?_
  have ht : list[i]? = some _ := List.getElem?_eq_getElem (Finset.mem_range.mp hi)
  have hd := hdvd _ (List.mem_of_getElem? ht)
  rw [share_mul_gap hgap ht hd, weight_wheelOf ht, Nat.div_mul_cancel hd]

theorem gcdOf_dvd_sumWeights (list : ServerList) : gcdOf list ∣ sumWeights list := by
  refine List.dvd_sum fun w hw => ?_
  obtain ⟨t, ht, rfl⟩ := List.mem_map.mp hw
  exact dvd_gcdOf.mp (Nat.dvd_refl _) t ht

theorem gapOf_eq_gcdOf_dropLast (t u v : Server) (rest : ServerList) :
    gapOf (t :: u :: v :: rest) = gcdOf (t :: u :: v :: rest).dropLast := by
  show Nat.gcd (natWeight t) (Nat.gcd (natWeight u) (Nat.gcd (natWeight u) (gcdOf (v :: rest).dropLast))) =
    Nat.gcd (natWeight t) (Nat.gcd (natWeight u) (gcdOf (v :: rest).dropLast))
  rw [← Nat.gcd_assoc (natWeight u) (natWeight u), Nat.gcd_self]

/-- A gap that divides every weight is their greatest common divisor. -/
theorem gapOf_eq_gcdOf {t u : Server} {rest : ServerList}
    (hdvd : ∀ v ∈ t :: u :: rest, gapOf (t :: u :: rest) ∣ natWeight v) :
    gapOf (t :: u :: rest) = gcdOf (t :: u :: rest) := by
  refine Nat.dvd_antisymm (dvd_gcdOf.mpr hdvd) (dvd_gcdOf.mpr fun v hv => ?_)
  refine dvd_gcdOf.mp (Nat.dvd_refl _) v ?_
  rcases List.mem_cons.mp hv with rfl | hv
  · exact List.mem_cons_self
  · exact mem_of_mem_divisors hv

/-- Windows of two lengths with one density: the period fills the weights. -/
theorem period_eq_of_proportional {list : ServerList} (hne : list ≠ []) (hlen : list.length < 2147483648)
    (hpos : ∀ t ∈ list, 0 < t.weight) (h : Proportional list) {t : Server} (ht : list[0]? = some t)
    (hgap : 0 < gapOf list) (hdvd : gapOf list ∣ natWeight t) :
    (wheelOf list (gapOf list)).period * gapOf list = sumWeights list := by
  obtain ⟨⟨states, hs⟩, hwindows⟩ := h
  have hmem : t ∈ list := List.mem_of_getElem? ht
  have hdensity := count_windows_two (p := fun k => (states (k + 1)).currentIndex.toInt = (0 : Nat))
    (fun a => hs.window hne hlen hpos a (List.length_pos_of_ne_nil hne)) (fun a => hwindows states hs a 0 t ht)
  rw [share_mul_gap hgap ht hdvd] at hdensity
  have hgcd : gcdOf list ∣ natWeight t := dvd_gcdOf.mp (Nat.dvd_refl _) t hmem
  obtain ⟨d, hd⟩ := hdvd
  obtain ⟨e, he⟩ := hgcd
  obtain ⟨f, hf⟩ := gcdOf_dvd_sumWeights list
  have hweight := natWeight_pos (hpos t hmem)
  have hgpos : 0 < gcdOf list := Nat.pos_of_ne_zero fun hz => by
    rw [hz] at he
    omega
  have hdiv : natWeight t / gapOf list = d := by rw [hd, Nat.mul_div_cancel_left _ hgap]
  have hdiv' : natWeight t / gcdOf list = e := by rw [he, Nat.mul_div_cancel_left _ hgpos]
  have hdiv'' : sumWeights list / gcdOf list = f := by rw [hf, Nat.mul_div_cancel_left _ hgpos]
  rw [hdiv, hdiv', hdiv''] at hdensity
  -- both sides of the density, times the two divisors
  refine Nat.eq_of_mul_eq_mul_right hweight ?_
  calc (wheelOf list (gapOf list)).period * gapOf list * natWeight t
      = (wheelOf list (gapOf list)).period * e * (gapOf list * gcdOf list) := by rw [he]; ring
    _ = f * d * (gapOf list * gcdOf list) := by rw [← hdensity]
    _ = gcdOf list * f * (gapOf list * d) := by ring
    _ = sumWeights list * natWeight t := by rw [← hd, ← hf]

/-- Equal sums that agree up to the last summand agree there. -/
theorem last_eq_of_sum_eq {f w : Nat → Nat} {m : Nat} (h : ∀ i < m, f i = w i)
    (hsum : ∑ i ∈ Finset.range (m + 1), f i = ∑ i ∈ Finset.range (m + 1), w i) : f m = w m := by
  rw [Finset.sum_range_succ, Finset.sum_range_succ,
    Finset.sum_congr rfl fun i hi => h i (Finset.mem_range.mp hi)] at hsum
  exact Nat.add_left_cancel hsum

/-- The greatest common divisor of the weights before the last divides the last. -/
def LastDivides (list : ServerList) : Prop := ∀ t, list.getLast? = some t → gcdOf list.dropLast ∣ natWeight t

theorem gapOf_dvd_of_lastDivides {t u : Server} {rest : ServerList} (h : rest = [] ∨ LastDivides (t :: u :: rest)) :
    ∀ v ∈ t :: u :: rest, gapOf (t :: u :: rest) ∣ natWeight v := by
  match rest with
  | [] => exact fun v hv => dvd_gcdOf.mp (Nat.dvd_refl (gcdOf [t, u])) v hv
  | w :: rest =>
    have hlast := h.resolve_left (List.cons_ne_nil _ _)
    rw [gapOf_eq_gcdOf_dropLast]
    intro v hv
    rw [← List.dropLast_append_getLast (List.cons_ne_nil t (u :: w :: rest))] at hv
    rcases List.mem_append.mp hv with hv | hv
    · exact dvd_gcdOf.mp (Nat.dvd_refl _) v hv
    · rw [List.mem_singleton.mp hv]
      exact hlast _ (List.getLast?_eq_some_getLast _)

section Lengths

variable {list : ServerList} (hne : list ≠ []) (hlen : list.length < 2147483648) (hpos : ∀ t ∈ list, 0 < t.weight)

include hlen hpos

theorem proportional_of_gap_dvd {t u : Server} {rest : ServerList} (hlist : list = t :: u :: rest)
    (hdvd : ∀ v ∈ list, gapOf list ∣ natWeight v) : Proportional list := by
  subst hlist
  have hgap : 0 < gapOf (t :: u :: rest) := gapOf_pos (hpos u (List.mem_cons_of_mem _ List.mem_cons_self))
  refine ⟨exists_selections (List.cons_ne_nil _ _) hlen hpos, fun states hs a i v hv => ?_⟩
  have hperiod := period_mul_gap hgap hdvd
  have hwindow := hs.window (List.cons_ne_nil _ _) hlen hpos a (List.getElem?_eq_some_iff.mp hv).1
  rw [← gapOf_eq_gcdOf hdvd, ← hperiod, Nat.mul_div_cancel _ hgap, hwindow]
  exact share_mul_gap hgap hv (hdvd v (List.mem_of_getElem? hv))

theorem proportional_single {t : Server} (hlist : list = [t]) : Proportional list := by
  subst hlist
  refine ⟨exists_selections (List.cons_ne_nil _ _) hlen hpos, fun states hs a i v hv => ?_⟩
  have hi : i < 1 := (List.getElem?_eq_some_iff.mp hv).1
  obtain rfl : i = 0 := by omega
  cases hv
  have hshare : (wheelOf [t] (gapOf [t])).share 0 = 1 := by
    refine Nat.count_iff_forall.mpr fun r _ => ?_
    obtain ⟨j, hj, hreach⟩ := exists_top (List.cons_ne_nil t []) (fun v hv => Int32.le_of_lt (hpos v hv)) (gapOf [t])
    obtain rfl : j = 0 := Nat.lt_one_iff.mp hj
    exact Nat.le_trans (Nat.sub_le _ _) hreach
  have hperiod : (wheelOf [t] (gapOf [t])).period = 1 := (Finset.sum_range_one _).trans hshare
  have hwindow := hs.window (List.cons_ne_nil _ _) hlen hpos a (Nat.one_pos)
  have hweight := natWeight_pos (hpos t List.mem_cons_self)
  have hgcd : gcdOf [t] = natWeight t := Nat.gcd_zero_right _
  have hsum : sumWeights [t] = natWeight t := Nat.add_zero _
  rw [hperiod, hshare] at hwindow
  rw [hgcd, hsum, Nat.div_self hweight]
  exact hwindow

/-- Where the calls are proportional, what the last weight adds to a period is a multiple of
    the gap, and it is the weight. -/
theorem lastDivides_of_proportional {t u v : Server} {rest : ServerList} (hlist : list = t :: u :: v :: rest)
    (h : Proportional list) : LastDivides list := by
  subst hlist
  have hgap : 0 < gapOf (t :: u :: v :: rest) := gapOf_pos (hpos u (List.mem_cons_of_mem _ List.mem_cons_self))
  have hbefore : ∀ w ∈ (t :: u :: v :: rest).dropLast, gapOf (t :: u :: v :: rest) ∣ natWeight w := by
    rw [gapOf_eq_gcdOf_dropLast]
    exact fun w hw => dvd_gcdOf.mp (Nat.dvd_refl _) w hw
  have hperiod := period_eq_of_proportional (List.cons_ne_nil _ _) hlen hpos h rfl hgap (hbefore t List.mem_cons_self)
  have hsums : ∀ i < rest.length + 2, (wheelOf (t :: u :: v :: rest) (gapOf (t :: u :: v :: rest))).share i *
        gapOf (t :: u :: v :: rest) = (wheelOf (t :: u :: v :: rest) (gapOf (t :: u :: v :: rest))).weight i := by
    intro i hi
    have hlt : i < (t :: u :: v :: rest).dropLast.length := by
      rw [List.length_dropLast]
      exact hi
    have hw : (t :: u :: v :: rest)[i]? = some ((t :: u :: v :: rest).dropLast[i]) := by
      rw [List.getElem_dropLast]
      exact List.getElem?_eq_getElem _
    have hdvd := hbefore _ (List.getElem_mem hlt)
    rw [share_mul_gap hgap hw hdvd, weight_wheelOf hw, Nat.div_mul_cancel hdvd]
  rw [← sum_weight_wheelOf _ (gapOf (t :: u :: v :: rest)), Wheel.period, Finset.sum_mul] at hperiod
  have hlast := last_eq_of_sum_eq hsums hperiod
  intro w hw
  rw [List.getLast?_eq_getElem?] at hw
  rw [← gapOf_eq_gcdOf_dropLast, ← weight_wheelOf hw]
  exact ⟨_, hlast.symm.trans (Nat.mul_comm _ _)⟩

end Lengths

/-- On a list with positive weights that an `int` counts: the calls are proportional exactly
    when there are two servers at most or the last weight is a multiple of the greatest common
    divisor of the others. -/
theorem proportional_iff (list : ServerList) (hne : list ≠ []) (hpos : ∀ t ∈ list, 0 < t.weight) :
    (list.length < 2147483648 ∧ (list.length ≤ 2 ∨ LastDivides list) → Proportional list) ∧
    (list.length < 2147483648 → Proportional list → list.length ≤ 2 ∨ LastDivides list) := by
  match list with
  | [] => exact absurd rfl hne
  | [t] => exact ⟨fun h => proportional_single h.1 hpos rfl, fun _ _ => .inl (Nat.le_succ 1)⟩
  | [t, u] =>
    exact ⟨fun h => proportional_of_gap_dvd h.1 hpos rfl (gapOf_dvd_of_lastDivides (.inl rfl)),
      fun _ _ => .inl (Nat.le_refl 2)⟩
  | t :: u :: v :: rest =>
    have hlong : ¬(t :: u :: v :: rest).length ≤ 2 := by
      simp only [List.length_cons]
      omega
    refine ⟨fun h => ?_, fun hlen h => .inr (lastDivides_of_proportional hlen hpos rfl h)⟩
    exact proportional_of_gap_dvd h.1 hpos rfl (gapOf_dvd_of_lastDivides (.inr (h.2.resolve_left hlong)))

/-- Weights 4, 2 and 6. -/
theorem even_weights_are_proportional :
    Proportional [weighted "10.0.0.1" 4, weighted "10.0.0.2" 2, weighted "10.0.0.3" 6] := by
  refine (proportional_iff _ (by decide) (by decide)).1 ⟨by decide, .inr fun t ht => ?_⟩
  cases ht
  decide

/-- Weights 2, 2 and 1: the level falls from 2 to 0, and the third server is never reached. -/
theorem a_light_last_server_is_never_selected :
    ¬Proportional [weighted "10.0.0.1" 2, weighted "10.0.0.2" 2, weighted "10.0.0.3" 1] := by
  intro h
  have hlast := lastDivides_of_proportional (by decide) (by decide) rfl h _ rfl
  exact absurd hlast (by decide)

end PredictorService.ServiceRouter.LoadBalance
