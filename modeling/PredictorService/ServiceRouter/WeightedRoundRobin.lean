/-
  PredictorService.ServiceRouter.WeightedRoundRobin — weights in turn
  (service_router/load_balance.{h,cc}, `LoadBalanceConfigurableWeight`).

  Once the two weights of a list are computed, the loop of `select` is a weighted wheel
  (`Lib.Wheel`) on the machine integers: `weightLoop_rel` relates each call to a spin, from
  every state that calls on other lists can have left (`Carried`).
-/

import PredictorService.Lib.MachineInts
import PredictorService.Lib.Wheel
import PredictorService.ServiceRouter.LoadBalance

namespace PredictorService.ServiceRouter.LoadBalance

open PredictorService.Lib

/-! ## The greatest common divisor -/

theorem gcd_zero (a : UInt32) : gcd a 0 = none := by
  rw [gcd, if_pos rfl]

theorem gcd_eq (a b : UInt32) (hb : b ≠ 0) : ∃ g, gcd a b = some g ∧ g.toNat = Nat.gcd a.toNat b.toNat := by
  fun_induction gcd a b with
  | case1 a => exact absurd rfl hb
  | case2 a b hb' hdvd =>
    refine ⟨b, rfl, ?_⟩
    have hmod : a.toNat % b.toNat = 0 := by rw [← UInt32.toNat_mod, hdvd]; rfl
    exact (Nat.gcd_eq_right (Nat.dvd_of_mod_eq_zero hmod)).symm
  | case3 a b hb' hdvd ih =>
    obtain ⟨g, hg, hgcd⟩ := ih hdvd
    refine ⟨g, hg, ?_⟩
    rw [hgcd, UInt32.toNat_mod, Nat.gcd_comm, ← Nat.gcd_rec, Nat.gcd_comm]

def natWeight (t : Server) : Nat := t.weight.toInt.toNat

/-- The greatest common divisor of all weights. -/
def gcdOf : ServerList → Nat
  | [] => 0
  | t :: list => Nat.gcd (natWeight t) (gcdOf list)

theorem dvd_gcdOf {d : Nat} {list : ServerList} : d ∣ gcdOf list ↔ ∀ t ∈ list, d ∣ natWeight t := by
  induction list with
  | nil => simp [gcdOf]
  | cons t list ih => simp [gcdOf, Nat.dvd_gcd_iff, ih]

/-- The servers whose weights the loop divides by, in its order. -/
def divisors : ServerList → ServerList
  | _ :: u :: rest => u :: (u :: rest).dropLast
  | _ => []

/-- What `gcd_weight` is meant to be: the greatest common divisor of the weights that the
    loop comes to. -/
def gapOf : ServerList → Nat
  | t :: u :: rest => gcdOf (t :: divisors (t :: u :: rest))
  | _ => 0

theorem natWeight_pos {t : Server} (h : 0 < t.weight) : 0 < natWeight t := by
  have : 0 < t.weight.toInt := Int32.lt_iff_toInt_lt.mp h
  unfold natWeight
  omega

theorem toNat_weight {t : Server} (h : 0 ≤ t.weight) : t.weight.toUInt32.toNat = natWeight t :=
  toNat_toUInt32_of_nonneg (Int32.le_iff_toInt_le.mp h)

theorem foldlM_gcd_some {list : ServerList} (hw : ∀ t ∈ list, 0 < t.weight) (g : UInt32) :
    ∃ g', list.foldlM (fun g v => gcd g v.weight.toUInt32) g = some g' ∧ g'.toNat = Nat.gcd g.toNat (gcdOf list) := by
  induction list generalizing g with
  | nil => exact ⟨g, rfl, (Nat.gcd_zero_right _).symm⟩
  | cons t list ih =>
    have ht : 0 < t.weight := hw t List.mem_cons_self
    have hnat := toNat_weight (Int32.le_of_lt ht)
    have hne : t.weight.toUInt32 ≠ 0 := by
      intro h
      rw [h] at hnat
      exact absurd hnat.symm (Nat.ne_of_gt (natWeight_pos ht))
    obtain ⟨g₁, hg₁, hgcd₁⟩ := gcd_eq g t.weight.toUInt32 hne
    obtain ⟨g₂, hg₂, hgcd₂⟩ := ih (fun u hu => hw u (List.mem_cons_of_mem _ hu)) g₁
    refine ⟨g₂, ?_, ?_⟩
    · rw [List.foldlM_cons, hg₁]
      exact hg₂
    · rw [hgcd₂, hgcd₁, hnat, gcdOf, Nat.gcd_assoc]

theorem foldlM_gcd_none {list : ServerList} {t : Server} (ht : t ∈ list) (hzero : t.weight = 0) (g : UInt32) :
    list.foldlM (fun g v => gcd g v.weight.toUInt32) g = none := by
  induction list generalizing g with
  | nil => cases ht
  | cons u list ih =>
    rw [List.foldlM_cons]
    rcases List.mem_cons.mp ht with rfl | ht
    · rw [hzero]
      show (gcd g 0).bind _ = none
      rw [gcd_zero]
      rfl
    · cases hg : gcd g u.weight.toUInt32 with
      | none => rfl
      | some g' => exact ih ht g'

theorem gcdWeight_eq_foldlM (t u : Server) (rest : ServerList) :
    gcdWeight (t :: u :: rest) = ((divisors (t :: u :: rest)).foldlM (fun g v => gcd g v.weight.toUInt32)
      t.weight.toUInt32).map (·.toInt32) := rfl

/-- Without a division by zero the loop computes the greatest common divisor. -/
theorem gcdWeight_some {list : ServerList} (hw : ∀ t ∈ list, 0 ≤ t.weight) (hpos : ∀ t ∈ divisors list, 0 < t.weight) :
    ∃ g, gcdWeight list = some g ∧ g.toInt = gapOf list := by
  match list with
  | [] => exact ⟨0, rfl, rfl⟩
  | [_] => exact ⟨0, rfl, rfl⟩
  | t :: u :: rest =>
    obtain ⟨g, hg, hgcd⟩ := foldlM_gcd_some hpos t.weight.toUInt32
    rw [toNat_weight (hw t List.mem_cons_self)] at hgcd
    refine ⟨g.toInt32, by rw [gcdWeight_eq_foldlM, hg]; rfl, ?_⟩
    have hu : 0 < natWeight u := natWeight_pos (hpos u List.mem_cons_self)
    have hle : g.toNat ≤ natWeight u := by
      have hdvd : g.toNat ∣ gcdOf (divisors (t :: u :: rest)) := hgcd ▸ Nat.gcd_dvd_right _ _
      exact Nat.le_of_dvd hu (dvd_gcdOf.mp hdvd u List.mem_cons_self)
    have hbound := u.weight.toInt_lt
    have hlt : g.toNat < 2147483648 := by
      unfold natWeight at hle
      omega
    rw [toInt_toInt32_of_lt hlt, hgcd]
    rfl

theorem gcdWeight_none {list : ServerList} {t : Server} (ht : t ∈ divisors list) (hzero : t.weight = 0) :
    gcdWeight list = none := by
  match list with
  | [] => cases ht
  | [_] => cases ht
  | u :: v :: rest =>
    rw [gcdWeight_eq_foldlM, foldlM_gcd_none ht hzero]
    rfl

theorem mem_of_mem_divisors {list : ServerList} {t : Server} (h : t ∈ divisors list) : t ∈ list := by
  match list with
  | [] => cases h
  | [_] => cases h
  | u :: v :: rest =>
    refine List.mem_cons_of_mem _ ?_
    rcases List.mem_cons.mp h with rfl | h
    · exact List.mem_cons_self
    · exact List.mem_of_mem_dropLast h

theorem gcdWeight_isSome_iff {list : ServerList} (hw : ∀ t ∈ list, 0 ≤ t.weight) :
    (∃ g, gcdWeight list = some g) ↔ ∀ t ∈ divisors list, 0 < t.weight := by
  constructor
  · rintro ⟨g, hg⟩ t ht
    refine Int32.lt_of_le_of_ne (hw t (mem_of_mem_divisors ht)) fun hzero => ?_
    rw [gcdWeight_none ht hzero.symm] at hg
    cases hg
  · intro hpos
    obtain ⟨g, hg, -⟩ := gcdWeight_some hw hpos
    exact ⟨g, hg⟩

theorem gapOf_pos {t u : Server} {rest : ServerList} (hu : 0 < u.weight) : 0 < gapOf (t :: u :: rest) := by
  have hdvd : gapOf (t :: u :: rest) ∣ natWeight u :=
    dvd_gcdOf.mp (Nat.dvd_refl _) u (List.mem_cons_of_mem _ List.mem_cons_self)
  exact Nat.pos_of_dvd_of_pos hdvd (natWeight_pos hu)

/-! ## The greatest weight -/

theorem foldl_max_mem (list : ServerList) (m : Int32) :
    (list.foldl (fun m t => max m t.weight) m).toInt = m.toInt ∨
      ∃ t ∈ list, (list.foldl (fun m t => max m t.weight) m).toInt = t.weight.toInt := by
  induction list generalizing m with
  | nil => exact .inl rfl
  | cons t list ih =>
    have hmax := toInt_max m t.weight
    rw [List.foldl_cons]
    rcases ih (max m t.weight) with hm | ⟨u, hu, heq⟩
    · rcases Int.le_total m.toInt t.weight.toInt with hle | hle
      · exact .inr ⟨t, List.mem_cons_self, by omega⟩
      · exact .inl (by omega)
    · exact .inr ⟨u, List.mem_cons_of_mem _ hu, heq⟩

/-- The greatest weight is not negative, and no weight is greater. -/
theorem maxWeight_spec (list : ServerList) :
    0 ≤ (maxWeight list).toInt ∧ ∀ t ∈ list, t.weight.toInt ≤ (maxWeight list).toInt := by
  have hmax := le_foldl_max toInt_max (fun t : Server => t.weight) list 0
  exact hmax

theorem maxWeight_nonneg (list : ServerList) : 0 ≤ (maxWeight list).toInt := (maxWeight_spec list).1

theorem le_maxWeight {list : ServerList} {t : Server} (ht : t ∈ list) : t.weight.toInt ≤ (maxWeight list).toInt :=
  (maxWeight_spec list).2 t ht

theorem exists_maxWeight {list : ServerList} (hne : list ≠ []) (hw : ∀ t ∈ list, 0 ≤ t.weight) :
    ∃ t ∈ list, (maxWeight list).toInt ≤ t.weight.toInt := by
  rcases foldl_max_mem list 0 with hzero | ⟨t, ht, heq⟩
  · obtain ⟨t, ht⟩ := List.exists_mem_of_ne_nil list hne
    have hnonneg := Int32.le_iff_toInt_le.mp (hw t ht)
    exact ⟨t, ht, Int.le_trans (Int.le_of_eq hzero) hnonneg⟩
  · exact ⟨t, ht, Int.le_of_eq heq⟩

/-! ## The loop is a wheel -/

/-- The slots are the servers of the list. -/
def wheelOf (list : ServerList) (gap : Nat) : Wheel where
  slots := list.length
  weight i := (list[i]?.map natWeight).getD 0
  gap := gap
  top := (maxWeight list).toInt.toNat

theorem weight_wheelOf {list : ServerList} {i : Nat} {t : Server} (h : list[i]? = some t) (gap : Nat) :
    (wheelOf list gap).weight i = natWeight t := by
  show (list[i]?.map natWeight).getD 0 = _
  rw [h]
  rfl

def handOf (state : CurrentState) : Hand where
  next := (state.currentIndex.toInt + 1).toNat
  level := state.currentWeight.toInt.toNat

/-- A state that earlier calls can have left. -/
structure Carried (state : CurrentState) : Prop where
  index_ge : -1 ≤ state.currentIndex.toInt
  index_lt : state.currentIndex.toInt < 2147483647
  weight_ge : 0 ≤ state.currentWeight.toInt

theorem carried_fresh : Carried {} := ⟨by decide, by decide, by decide⟩

/-- The index and the weight that a round of the loop goes on with. -/
def nextState (list : ServerList) (gcdWeight maxWeight : Int32) (state : CurrentState) : CurrentState :=
  let index := Int32.ofNat ((state.currentIndex + 1).toInt64.toUInt64.toNat % list.length)
  let lowered := state.currentWeight - gcdWeight
  ⟨index, if index ≠ 0 then state.currentWeight else if lowered ≤ 0 then maxWeight else lowered⟩

section Rounds

variable {list : ServerList} {gcdWeight maxWeight : Int32} {state : CurrentState}

theorem weightLoop_again (h : (nextState list gcdWeight maxWeight state).currentIndex = 0 ∧
      (nextState list gcdWeight maxWeight state).currentWeight = 0) (rounds : Nat) :
    weightLoop list gcdWeight maxWeight (rounds + 1) state = some (none, nextState list gcdWeight maxWeight state) :=
  if_pos h

variable (h : ¬((nextState list gcdWeight maxWeight state).currentIndex = 0 ∧
      (nextState list gcdWeight maxWeight state).currentWeight = 0))

include h in
theorem weightLoop_missing
    (hnone : list[(nextState list gcdWeight maxWeight state).currentIndex.toInt64.toUInt64.toNat]? = none) (rounds : Nat) :
    weightLoop list gcdWeight maxWeight (rounds + 1) state = none := by
  refine (if_neg h).trans ?_
  unfold nextState at hnone
  simp only [hnone]

variable {t : Server} (ht : list[(nextState list gcdWeight maxWeight state).currentIndex.toInt64.toUInt64.toNat]? = some t)

include h ht

theorem weightLoop_stop (hge : (nextState list gcdWeight maxWeight state).currentWeight ≤ t.weight) (rounds : Nat) :
    weightLoop list gcdWeight maxWeight (rounds + 1) state = some (some t, nextState list gcdWeight maxWeight state) := by
  refine (if_neg h).trans ?_
  unfold nextState at ht hge
  simp only [ht, ge_iff_le, if_pos hge]
  rfl

theorem weightLoop_pass (hlt : ¬(nextState list gcdWeight maxWeight state).currentWeight ≤ t.weight) (rounds : Nat) :
    weightLoop list gcdWeight maxWeight (rounds + 1) state =
      weightLoop list gcdWeight maxWeight rounds (nextState list gcdWeight maxWeight state) := by
  refine (if_neg h).trans ?_
  unfold nextState at ht hlt
  simp only [ht, ge_iff_le, if_neg hlt]
  rfl

end Rounds

/-- An answer of the loop is an answer of the wheel: the server of its slot, at its index. -/
structure Answers (list : ServerList) (r : Option Server × CurrentState) (r' : Option Nat × Hand) : Prop where
  carried : Carried r.2
  hand : handOf r.2 = r'.2
  server : r.1 = r'.1.bind (list[·]?)
  index : ∀ i, r'.1 = some i → r.2.currentIndex.toInt = i

section Simulation

variable {list : ServerList} (hne : list ≠ []) (hlen : list.length < 2147483648) {g : Int32} (hg : 0 ≤ g.toInt)

include hne hlen

theorem toInt_nextIndex {state : CurrentState} (hc : Carried state) (g m : Int32) :
    (nextState list g m state).currentIndex.toInt = (wheelOf list g.toInt.toNat).slot (handOf state) := by
  have hge := hc.index_ge
  have hlt := hc.index_lt
  have hsucc : (state.currentIndex + 1).toInt = state.currentIndex.toInt + 1 :=
    toInt_add_of_bounds (show -2147483648 ≤ state.currentIndex.toInt + 1 by omega)
      (show state.currentIndex.toInt + 1 < 2147483648 by omega)
  have hmod := Nat.mod_lt (state.currentIndex.toInt + 1).toNat (List.length_pos_of_ne_nil hne)
  show (Int32.ofNat ((state.currentIndex + 1).toInt64.toUInt64.toNat % list.length)).toInt = _
  rw [toNat_toUInt64_of_nonneg (by omega), hsucc, Int32.toInt_ofNat_of_lt (by omega)]
  rfl

/-- The loop takes the server of the slot. -/
theorem toNat_nextIndex {state : CurrentState} (hc : Carried state) :
    (nextState list g (maxWeight list) state).currentIndex.toInt64.toUInt64.toNat =
      (wheelOf list g.toInt.toNat).slot (handOf state) := by
  have hindex := toInt_nextIndex hne hlen hc g (maxWeight list)
  rw [toNat_toUInt64_of_nonneg (by omega), hindex]
  rfl

include hg

theorem nextState_spec {state : CurrentState} (hc : Carried state) :
    Carried (nextState list g (maxWeight list) state) ∧
      handOf (nextState list g (maxWeight list) state) = (wheelOf list g.toInt.toNat).turn (handOf state) := by
  have hindex := toInt_nextIndex hne hlen hc g (maxWeight list)
  have hslot := (wheelOf list g.toInt.toNat).slot_lt (List.length_pos_of_ne_nil hne) (handOf state)
  have htop := maxWeight_nonneg list
  have hcw := hc.weight_ge
  have hlowered : (state.currentWeight - g).toInt = state.currentWeight.toInt - g.toInt := by
    have := state.currentWeight.toInt_lt
    have := g.toInt_lt
    exact toInt_sub_of_bounds (by omega) (by omega)
  have hzero : (nextState list g (maxWeight list) state).currentIndex = 0 ↔
      (wheelOf list g.toInt.toNat).slot (handOf state) = 0 := by
    rw [← Int32.toInt_inj, hindex, Int32.toInt_zero]
    omega
  have hweight : (nextState list g (maxWeight list) state).currentWeight.toInt =
      if (wheelOf list g.toInt.toNat).slot (handOf state) ≠ 0 then state.currentWeight.toInt
      else if state.currentWeight.toInt - g.toInt ≤ 0 then (maxWeight list).toInt
      else state.currentWeight.toInt - g.toInt := by
    show (if (nextState list g (maxWeight list) state).currentIndex ≠ 0 then state.currentWeight
      else if state.currentWeight - g ≤ 0 then maxWeight list else state.currentWeight - g).toInt = _
    simp only [ne_eq, hzero, Int32.le_iff_toInt_le, hlowered, Int32.toInt_zero]
    split
    · rfl
    · split
      · rfl
      · exact hlowered
  have hslot' : (wheelOf list g.toInt.toNat).slots = list.length := rfl
  refine ⟨⟨by omega, by omega, ?_⟩, ?_⟩
  · rw [hweight]
    split
    · exact hcw
    · split <;> omega
  · rw [handOf, hindex, hweight, Wheel.turn]
    refine congrArg₂ Hand.mk (by omega) ?_
    show _ = if _ ≠ 0 then state.currentWeight.toInt.toNat
      else if state.currentWeight.toInt.toNat ≤ g.toInt.toNat then (maxWeight list).toInt.toNat
      else state.currentWeight.toInt.toNat - g.toInt.toNat
    split
    · rfl
    · split <;> split <;> omega

theorem level_turn {state : CurrentState} (hc : Carried state) :
    ((wheelOf list g.toInt.toNat).turn (handOf state)).level =
      (nextState list g (maxWeight list) state).currentWeight.toInt.toNat := by
  rw [← (nextState_spec hne hlen hg hc).2]
  rfl

/-- The loop gives up where the wheel finds nothing. -/
theorem again_iff {state : CurrentState} (hc : Carried state) :
    (nextState list g (maxWeight list) state).currentIndex = 0 ∧
        (nextState list g (maxWeight list) state).currentWeight = 0 ↔
      (wheelOf list g.toInt.toNat).slot (handOf state) = 0 ∧
        ((wheelOf list g.toInt.toNat).turn (handOf state)).level = 0 := by
  have hnonneg := (nextState_spec hne hlen hg hc).1.weight_ge
  rw [level_turn hne hlen hg hc, ← Int32.toInt_inj, ← Int32.toInt_inj, Int32.toInt_zero,
    toInt_nextIndex hne hlen hc g (maxWeight list)]
  omega

/-- The loop stops at the server where the wheel stops at the slot. -/
theorem stop_iff {state : CurrentState} (hc : Carried state) {t : Server} (hw : 0 ≤ t.weight)
    (ht : list[(wheelOf list g.toInt.toNat).slot (handOf state)]? = some t) :
    (nextState list g (maxWeight list) state).currentWeight ≤ t.weight ↔
      ((wheelOf list g.toInt.toNat).turn (handOf state)).level ≤
        (wheelOf list g.toInt.toNat).weight ((wheelOf list g.toInt.toNat).slot (handOf state)) := by
  have hnonneg := (nextState_spec hne hlen hg hc).1.weight_ge
  have hpos := Int32.le_iff_toInt_le.mp hw
  rw [Int32.toInt_zero] at hpos
  rw [level_turn hne hlen hg hc, weight_wheelOf ht, Int32.le_iff_toInt_le, natWeight]
  omega

/-- The loop answers as the wheel does, round for turn. -/
theorem weightLoop_rel (hw : ∀ t ∈ list, 0 ≤ t.weight) (rounds : Nat) {state : CurrentState} (hc : Carried state) :
    Option.Rel (Answers list) (weightLoop list g (maxWeight list) rounds state)
      ((wheelOf list g.toInt.toNat).spin rounds (handOf state)) := by
  induction rounds generalizing state with
  | zero => exact .none
  | succ rounds ih =>
    obtain ⟨hcarried, hhand⟩ := nextState_spec hne hlen hg hc
    have hindex := toInt_nextIndex hne hlen hc g (maxWeight list)
    have hagain := again_iff hne hlen hg hc
    have hslot : (wheelOf list g.toInt.toNat).slot (handOf state) < list.length :=
      (wheelOf list g.toInt.toNat).slot_lt (List.length_pos_of_ne_nil hne) (handOf state)
    obtain ⟨t, ht⟩ : ∃ t, list[(wheelOf list g.toInt.toNat).slot (handOf state)]? = some t :=
      ⟨_, List.getElem?_eq_getElem hslot⟩
    have hstops := stop_iff hne hlen hg hc (hw t (List.mem_of_getElem? ht)) ht
    have hat : (nextState list g (maxWeight list) state).currentIndex.toInt64.toUInt64.toNat = _ := toNat_nextIndex hne hlen hc
    rw [Wheel.spin, Wheel.found]
    generalize (wheelOf list g.toInt.toNat).slot (handOf state) = i at hindex hslot hagain ht hstops hat
    by_cases hzero : i = 0 ∧ ((wheelOf list g.toInt.toNat).turn (handOf state)).level = 0
    · rw [weightLoop_again (hagain.mpr hzero), if_pos (by omega), if_pos hzero]
      exact .some ⟨hcarried, hhand, rfl, fun j hj => by cases hj⟩
    · have hmore := mt hagain.mp hzero
      rw [← hat] at ht
      by_cases hstop : (nextState list g (maxWeight list) state).currentWeight ≤ t.weight
      · rw [weightLoop_stop hmore ht hstop, if_pos (hstops.mp hstop), if_neg hzero]
        refine .some ⟨hcarried, hhand, ?_, fun j hj => ?_⟩
        · rw [← ht, hat]
          rfl
        · cases hj
          exact hindex
      · rw [weightLoop_pass hmore ht hstop, if_neg (mt hstops.mpr hstop), ← hhand]
        exact ih hcarried

end Simulation

/-! ## Calls -/

/-- A call that ended does so when it is followed further. -/
theorem weightLoop_mono {list : ServerList} {g m : Int32} {rounds : Nat} {state : CurrentState}
    {r : Option Server × CurrentState} (h : weightLoop list g m rounds state = some r) (more : Nat) :
    weightLoop list g m (rounds + more) state = some r := by
  induction rounds generalizing state with
  | zero => cases h
  | succ rounds ih =>
    rw [Nat.succ_add]
    by_cases hzero : (nextState list g m state).currentIndex = 0 ∧ (nextState list g m state).currentWeight = 0
    · rw [weightLoop_again hzero] at h ⊢
      exact h
    · cases ht : list[(nextState list g m state).currentIndex.toInt64.toUInt64.toNat]? with
      | none =>
        rw [weightLoop_missing hzero ht] at h
        cases h
      | some t =>
        by_cases hstop : (nextState list g m state).currentWeight ≤ t.weight
        · rw [weightLoop_stop hzero ht hstop] at h ⊢
          exact h
        · rw [weightLoop_pass hzero ht hstop] at h ⊢
          exact ih h

theorem select_unique {state : CurrentState} {list : ServerList} {rounds rounds' : Nat}
    {r r' : Option Server × CurrentState} (h : selectConfigurableWeight state list { rounds } = some r)
    (h' : selectConfigurableWeight state list { rounds := rounds' } = some r') : r = r' := by
  obtain ⟨g, hg, hloop⟩ := Option.bind_eq_some_iff.mp h
  obtain ⟨g', hg', hloop'⟩ := Option.bind_eq_some_iff.mp h'
  obtain rfl : g = g' := Option.some.inj (hg.symm.trans hg')
  have h1 := weightLoop_mono hloop rounds'
  have h2 := weightLoop_mono hloop' rounds
  rw [Nat.add_comm] at h2
  exact Option.some.inj (h1.symm.trans h2)

section Calls

variable {list : ServerList} (hne : list ≠ []) (hlen : list.length < 2147483648) (hw : ∀ t ∈ list, 0 ≤ t.weight)
  {state : CurrentState} (hc : Carried state)

include hne hlen hw hc

/-- A call that ended is a spin that ended. -/
theorem spin_of_select {rounds : Nat} {r : Option Server × CurrentState}
    (h : selectConfigurableWeight state list { rounds } = some r) :
    ∃ r', (wheelOf list (gapOf list)).spin rounds (handOf state) = some r' ∧ Answers list r r' := by
  obtain ⟨g, hg, hloop⟩ := Option.bind_eq_some_iff.mp h
  obtain ⟨g', hg', hgap⟩ := gcdWeight_some hw ((gcdWeight_isSome_iff hw).mp ⟨g, hg⟩)
  obtain rfl : g = g' := Option.some.inj (hg.symm.trans hg')
  have hrel := weightLoop_rel hne hlen (show 0 ≤ g.toInt by omega) hw rounds hc
  rw [show g.toInt.toNat = gapOf list by omega, hloop] at hrel
  cases hspin : (wheelOf list (gapOf list)).spin rounds (handOf state) with
  | none =>
    rw [hspin] at hrel
    cases hrel
  | some r' =>
    rw [hspin] at hrel
    cases hrel with
    | some hanswers => exact ⟨r', rfl, hanswers⟩

/-- Without a division by zero a spin that ends is a call that ends. -/
theorem select_of_spin (hdiv : ∀ t ∈ divisors list, 0 < t.weight) {rounds : Nat} {r' : Option Nat × Hand}
    (h : (wheelOf list (gapOf list)).spin rounds (handOf state) = some r') :
    ∃ r, selectConfigurableWeight state list { rounds } = some r ∧ Answers list r r' := by
  obtain ⟨g, hg, hgap⟩ := gcdWeight_some hw hdiv
  have hrel := weightLoop_rel hne hlen (show 0 ≤ g.toInt by omega) hw rounds hc
  rw [show g.toInt.toNat = gapOf list by omega, h] at hrel
  have hcall : selectConfigurableWeight state list { rounds } = weightLoop list g (maxWeight list) rounds state := by
    rw [selectConfigurableWeight, hg]
    rfl
  rw [hcall]
  cases hloop : weightLoop list g (maxWeight list) rounds state with
  | none =>
    rw [hloop] at hrel
    cases hrel
  | some r =>
    rw [hloop] at hrel
    cases hrel with
    | some hanswers => exact ⟨r, rfl, hanswers⟩

end Calls

end PredictorService.ServiceRouter.LoadBalance
