/-
  PredictorService.ServiceRouter.StaticWeight — which draw selects which server
  (service_router/load_balance.cc, `LoadBalanceStaticWeight::select`).

  The weights cut the residues of a draw into intervals, one for each server: the walk over
  the list subtracts the weights of the servers it passes, so it ends at the server whose
  interval has the residue (`walkWeights_spec`). `static_weights_partition`: it always ends
  at one, each server has as many residues as its weight, and when all weights are zero
  every server can be drawn, as long as the length fits the `uint32_t` it is read into
  (`a_server_past_the_size_is_never_drawn`).
-/

import Mathlib.Data.Nat.Count
import Mathlib.Order.Interval.Finset.Nat
import PredictorService.Lib.MachineInts
import PredictorService.ServiceRouter.LoadBalance

namespace PredictorService.ServiceRouter.LoadBalance

open PredictorService.Lib

/-! ## Weights as integers -/

/-- The sum of the weights before position `i`. -/
def weightBefore : ServerList → Nat → Int
  | [], _ => 0
  | _, 0 => 0
  | t :: list, i + 1 => t.weight.toInt + weightBefore list i

def totalWeight (list : ServerList) : Int := weightBefore list list.length

/-- The residue lies in the interval of the `i`-th server. -/
def InInterval (list : ServerList) (i : Nat) (residue : Int) : Prop :=
  i < list.length ∧ weightBefore list i ≤ residue ∧ residue < weightBefore list (i + 1)

instance (list : ServerList) (i : Nat) (residue : Int) : Decidable (InInterval list i residue) :=
  inferInstanceAs (Decidable (_ ∧ _ ∧ _))

@[simp] theorem weightBefore_zero (list : ServerList) : weightBefore list 0 = 0 := by
  cases list <;> rfl

theorem weightBefore_succ {list : ServerList} {i : Nat} {t : Server} (h : list[i]? = some t) :
    weightBefore list (i + 1) = weightBefore list i + t.weight.toInt := by
  induction list generalizing i with
  | nil => cases h
  | cons u list ih =>
    cases i with
    | zero =>
      obtain rfl : u = t := by simpa using h
      simp [weightBefore]
    | succ i =>
      rw [weightBefore, ih (by simpa using h), weightBefore]
      omega

section NonNegative

variable {list : ServerList} (hw : ∀ t ∈ list, 0 ≤ t.weight)

include hw

theorem weightBefore_nonneg (i : Nat) : 0 ≤ weightBefore list i := by
  induction list generalizing i with
  | nil => exact Int.le_refl 0
  | cons t list ih =>
    cases i with
    | zero => exact Int.le_refl 0
    | succ i =>
      have ht : 0 ≤ t.weight.toInt := Int32.le_iff_toInt_le.mp (hw t List.mem_cons_self)
      have hrest := ih (fun u hu => hw u (List.mem_cons_of_mem _ hu)) i
      rw [weightBefore]
      omega

theorem weightBefore_mono {i j : Nat} (hij : i ≤ j) : weightBefore list i ≤ weightBefore list j := by
  induction list generalizing i j with
  | nil => exact Int.le_refl 0
  | cons t list ih =>
    have hrest : ∀ u ∈ list, 0 ≤ u.weight := fun u hu => hw u (List.mem_cons_of_mem _ hu)
    cases i with
    | zero =>
      rw [weightBefore_zero]
      exact weightBefore_nonneg hw j
    | succ i =>
      cases j with
      | zero => omega
      | succ j =>
        have := ih hrest (Nat.le_of_succ_le_succ hij)
        rw [weightBefore, weightBefore]
        omega

/-- A residue lies in one interval only. -/
theorem inInterval_unique {i j : Nat} {residue : Int} (hi : InInterval list i residue) (hj : InInterval list j residue) :
    i = j := by
  obtain ⟨-, hi1, hi2⟩ := hi
  obtain ⟨-, hj1, hj2⟩ := hj
  rcases Nat.lt_trichotomy i j with h | h | h
  · have := weightBefore_mono hw (show i + 1 ≤ j from h)
    omega
  · exact h
  · have := weightBefore_mono hw (show j + 1 ≤ i from h)
    omega

/-- As many residues as the weight. -/
theorem count_inInterval {i : Nat} {t : Server} (h : list[i]? = some t) :
    (Nat.count (fun q => InInterval list i q) (totalWeight list).toNat : Int) = t.weight.toInt := by
  obtain ⟨hi, rfl⟩ := List.getElem?_eq_some_iff.mp h
  have hsucc := weightBefore_succ h
  have hnonneg := weightBefore_nonneg hw i
  have hstep := weightBefore_mono hw (show i ≤ i + 1 from Nat.le_succ i)
  have hlast : weightBefore list (i + 1) ≤ totalWeight list := weightBefore_mono hw hi
  have hfilter : (Finset.range (totalWeight list).toNat).filter (fun q : Nat => InInterval list i q) =
      Finset.Ico (weightBefore list i).toNat (weightBefore list (i + 1)).toNat := by
    ext q
    simp only [Finset.mem_filter, Finset.mem_range, Finset.mem_Ico, InInterval, hi, true_and]
    omega
  rw [Nat.count_eq_card_filter_range, hfilter, Nat.card_Ico]
  omega

end NonNegative

/-! ## The walk -/

theorem toInt_foldl_weight {list : ServerList} (hw : ∀ t ∈ list, 0 ≤ t.weight) {sum : Int32} (hsum : 0 ≤ sum.toInt)
    (hfit : sum.toInt + totalWeight list < 2147483648) :
    (list.foldl (fun sum t => sum + t.weight) sum).toInt = sum.toInt + totalWeight list := by
  induction list generalizing sum with
  | nil => exact (Int.add_zero _).symm
  | cons t list ih =>
    have ht : 0 ≤ t.weight.toInt := Int32.le_iff_toInt_le.mp (hw t List.mem_cons_self)
    have hrest : ∀ u ∈ list, 0 ≤ u.weight := fun u hu => hw u (List.mem_cons_of_mem _ hu)
    have htotal : totalWeight (t :: list) = t.weight.toInt + totalWeight list := rfl
    have hpos : 0 ≤ totalWeight list := weightBefore_nonneg hrest _
    have hadd : (sum + t.weight).toInt = sum.toInt + t.weight.toInt := toInt_add_of_bounds (by omega) (by omega)
    rw [List.foldl_cons, ih hrest (by omega) (by omega)]
    omega

/-- The walk ends at the server whose interval has the index. -/
theorem walkWeights_spec {list : ServerList} (hw : ∀ t ∈ list, 0 ≤ t.weight) {index : Int32} (hindex : 0 ≤ index.toInt)
    (hlt : index.toInt < totalWeight list) :
    ∃ i, InInterval list i index.toInt ∧ walkWeights index list = list[i]? := by
  induction list generalizing index with
  | nil => exact absurd (Int.lt_of_le_of_lt hindex hlt) (Int.lt_irrefl 0)
  | cons t list ih =>
    have hrest : ∀ u ∈ list, 0 ≤ u.weight := fun u hu => hw u (List.mem_cons_of_mem _ hu)
    have htotal : totalWeight (t :: list) = t.weight.toInt + totalWeight list := rfl
    have ht : 0 ≤ t.weight.toInt := Int32.le_iff_toInt_le.mp (hw t List.mem_cons_self)
    have hbound := index.toInt_lt
    rw [walkWeights]
    split
    · rename_i hhere
      rw [Int32.lt_iff_toInt_lt] at hhere
      refine ⟨0, ⟨Nat.succ_pos _, hindex, ?_⟩, rfl⟩
      simpa [weightBefore] using hhere
    · rename_i hpast
      rw [Int32.lt_iff_toInt_lt] at hpast
      have hsub : (index - t.weight).toInt = index.toInt - t.weight.toInt := toInt_sub_of_bounds (by omega) (by omega)
      have hleft : 0 ≤ (index - t.weight).toInt := by omega
      obtain ⟨i, ⟨hi, hlow, hhigh⟩, hwalk⟩ := ih hrest hleft (by omega)
      refine ⟨i + 1, ⟨Nat.succ_lt_succ hi, ?_, ?_⟩, hwalk⟩
      · rw [weightBefore]
        omega
      · rw [weightBefore]
        omega

/-! ## Selecting -/

theorem toInt_weightSum {list : ServerList} (hw : ∀ t ∈ list, 0 ≤ t.weight) (hfit : totalWeight list < 2147483648) :
    (list.foldl (fun sum t => sum + t.weight) (0 : Int32)).toInt = totalWeight list := by
  have h := @toInt_foldl_weight list hw 0 (by decide) (by simpa using hfit)
  simpa using h

/-- The draw is reduced to a residue, and the residue walked to its server. -/
theorem selectStaticWeight_spec {list : ServerList} (hw : ∀ t ∈ list, 0 ≤ t.weight) (hpos : 0 < totalWeight list)
    (hfit : totalWeight list < 2147483648) {r : Nat} (hr : r < 2147483648) :
    ∃ i, InInterval list i (r % totalWeight list) ∧ selectStaticWeight list { draw := r } = list[i]? := by
  have hsum := toInt_weightSum hw hfit
  have hne : list.foldl (fun sum t => sum + t.weight) (0 : Int32) ≠ 0 := by
    intro h
    rw [h] at hsum
    exact absurd hsum (Int.ne_of_lt hpos)
  have hdraw : (Int32.ofNat (r % 2 ^ 31)).toInt = r := by
    rw [Nat.mod_eq_of_lt (by omega)]
    exact Int32.toInt_ofNat_of_lt (by omega)
  have hindex : (Int32.ofNat (r % 2 ^ 31) % list.foldl (fun sum t => sum + t.weight) (0 : Int32)).toInt =
      r % totalWeight list := by
    rw [toInt_mod_of_nonneg (by omega), hdraw, hsum]
  have hnonneg : 0 ≤ r % totalWeight list := Int.emod_nonneg _ (by omega)
  have hlt : r % totalWeight list < totalWeight list := Int.emod_lt_of_pos _ hpos
  rw [selectStaticWeight, if_neg hne, ← hindex]
  exact walkWeights_spec hw (by omega) (by omega)

theorem selectStaticWeight_zero {list : ServerList} (hzero : ∀ t ∈ list, t.weight = 0) (x : Chance) :
    selectStaticWeight list x = pickAny list x := by
  have htotal : ∀ l : ServerList, (∀ t ∈ l, t.weight = 0) → l.foldl (fun sum t => sum + t.weight) (0 : Int32) = 0 := by
    intro l hl
    induction l with
    | nil => rfl
    | cons t l ih =>
      rw [List.foldl_cons, hl t List.mem_cons_self]
      exact ih fun u hu => hl u (List.mem_cons_of_mem _ hu)
  rw [selectStaticWeight, if_pos (htotal list hzero)]

theorem select_staticWeight {list : ServerList} (hne : list ≠ []) (tid : Nat) (x : Chance) :
    (select list tid x .staticWeight).1 = some (selectStaticWeight list x) := by
  rw [select, if_neg hne]
  rfl

/-- With weights of a positive sum that fits an `int`, every draw selects the server whose
    interval has its residue, and each server has as many residues as its weight; with zero
    weights every server of a list whose length fits a `uint32_t` can be drawn. -/
theorem static_weights_partition (list : ServerList) (tid : Nat) (hw : ∀ t ∈ list, 0 ≤ t.weight) :
    (0 < totalWeight list → totalWeight list < 2147483648 →
      (∀ r : Nat, r < 2147483648 → ∃ (i : Nat) (t : Server), list[i]? = some t ∧
        (select list tid { draw := r } .staticWeight).1 = some (some t) ∧ 0 < t.weight ∧
        ∀ j, InInterval list j (r % totalWeight list) ↔ j = i) ∧
      ∀ (i : Nat) (t : Server), list[i]? = some t →
        (Nat.count (fun q => InInterval list i q) (totalWeight list).toNat : Int) = t.weight.toInt) ∧
    ((∀ t ∈ list, t.weight = 0) → list.length < 4294967296 →
      ∀ (i : Nat) (t : Server), list[i]? = some t → ∃ r, (select list tid { draw := r } .staticWeight).1 = some (some t)) := by
  refine ⟨fun hpos hfit => ⟨fun r hr => ?_, fun i t ht => count_inInterval hw ht⟩, fun hzero hlen i t ht => ?_⟩
  · obtain ⟨i, hi, hsel⟩ := selectStaticWeight_spec hw hpos hfit hr
    obtain ⟨t, ht⟩ : ∃ t, list[i]? = some t := ⟨_, List.getElem?_eq_getElem hi.1⟩
    have hne : list ≠ [] := List.ne_nil_of_length_pos (Nat.zero_lt_of_lt hi.1)
    refine ⟨i, t, ht, ?_, ?_, fun j => ⟨fun hj => inInterval_unique hw hj hi, fun hj => hj ▸ hi⟩⟩
    · rw [select_staticWeight hne, hsel, ht]
    · -- an interval with a residue is not empty
      have hsucc := weightBefore_succ ht
      obtain ⟨-, hlow, hhigh⟩ := hi
      rw [Int32.lt_iff_toInt_lt]
      show 0 < t.weight.toInt
      omega
  · obtain ⟨hi, -⟩ := List.getElem?_eq_some_iff.mp ht
    have hne : list ≠ [] := List.ne_nil_of_length_pos (Nat.zero_lt_of_lt hi)
    refine ⟨i, ?_⟩
    rw [select_staticWeight hne, selectStaticWeight_zero hzero, ← ht]
    have hsize : size list = list.length := Nat.mod_eq_of_lt hlen
    rw [pickAny, secureRand32, hsize, if_neg (by omega), Nat.mod_eq_of_lt hi]

def weighted (host : String) (weight : Int32) : Server :=
  { host := host, port := 9000, serviceName := "predictor", weight := weight }

/-- Weights 2, 0 and 3: the draw 7 has the residue 2. -/
theorem static_weights_partition_seven :
    (select [weighted "10.0.0.1" 2, weighted "10.0.0.2" 0, weighted "10.0.0.3" 3] 0 { draw := 7 } .staticWeight).1 =
      some (some (weighted "10.0.0.3" 3)) := by
  obtain ⟨i, t, ht, hsel, -, hunique⟩ := ((static_weights_partition
    [weighted "10.0.0.1" 2, weighted "10.0.0.2" 0, weighted "10.0.0.3" 3] 0 (by decide)).1 (by decide) (by decide)).1 7
    (by decide)
  obtain rfl : 2 = i := (hunique 2).mp (by decide)
  cases ht
  exact hsel

/-- Servers without weight, one of them with another address, at the end. -/
def idleServers (n : Nat) : ServerList := List.replicate n (weighted "10.0.0.1" 0) ++ [weighted "10.0.0.2" 0]

theorem weight_of_mem_idleServers {n : Nat} {t : Server} (h : t ∈ idleServers n) : t.weight = 0 := by
  rcases List.mem_append.mp h with h | h
  · rw [List.eq_of_mem_replicate h]
    rfl
  · rw [List.mem_singleton.mp h]
    rfl

theorem getElem?_idleServers (n : Nat) : (idleServers n)[n]? = some (weighted "10.0.0.2" 0) := by
  rw [idleServers, List.getElem?_append_right (Nat.le_of_eq List.length_replicate), List.length_replicate, Nat.sub_self]
  rfl

/-- Where the size wraps to one, only the first server is drawn. -/
theorem select_idleServers {n : Nat} (hn : 0 < n) (hsize : (n + 1) % 2 ^ 32 = 1) (tid : Nat) (x : Chance) :
    (select (idleServers n) tid x .staticWeight).1 = some (some (weighted "10.0.0.1" 0)) := by
  have hlen : (idleServers n).length = n + 1 := by
    rw [idleServers, List.length_append, List.length_replicate]
    rfl
  have hne : idleServers n ≠ [] := List.ne_nil_of_length_pos (by omega)
  have hdraw : secureRand32 (size (idleServers n)) x = 0 := by
    rw [size, hlen, hsize, secureRand32, if_neg (by decide), Nat.mod_one]
  rw [select_staticWeight hne, selectStaticWeight_zero fun t ht => weight_of_mem_idleServers ht, pickAny, hdraw]
  rw [idleServers, List.getElem?_append_left (by rwa [List.length_replicate]), List.getElem?_replicate, if_pos hn]

/-- Of 2^32 + 1 servers without weight the last can not be drawn: their number is read as 1. -/
theorem a_server_past_the_size_is_never_drawn :
    (∀ t ∈ idleServers 4294967296, t.weight = 0) ∧
      (idleServers 4294967296)[4294967296]? = some (weighted "10.0.0.2" 0) ∧
      ∀ tid x, (select (idleServers 4294967296) tid x .staticWeight).1 ≠ some (some (weighted "10.0.0.2" 0)) := by
  refine ⟨fun t ht => weight_of_mem_idleServers ht, getElem?_idleServers _, fun tid x h => ?_⟩
  rw [select_idleServers (by decide) (by decide)] at h
  exact absurd h (by decide)

end PredictorService.ServiceRouter.LoadBalance
