/-
  PredictorService.ServiceRouter.Locality — near servers first (service_router/load_balance.cc,
  `LoadBalanceIpRangeFirst::select` and `LoadBalanceLocalFirst::select`).

  The distance of two addresses is taken in 32 bits: `int diff = ip - local_ip_`. So a server
  counts as near when it is near (`Near`), and also when it lies so far off that the
  difference wraps around (`WrapsNear`): the two ends of the address space are neighbours,
  and at a distance of 2^31 the absolute value is negative (`isNear_iff`).

  `near_first_iff`: both balancers select by the true distance, whatever is drawn, exactly
  when no such server can be drawn beside one that is near
  (`a_server_at_the_other_end_is_preferred`).
-/

import PredictorService.Lib.MachineInts
import PredictorService.ServiceRouter.LoadBalance

namespace PredictorService.ServiceRouter.LoadBalance

open PredictorService.Lib

/-! ## Distances -/

/-- The distance of two addresses as integers. -/
def distance (a b : UInt32) : Int := ((a.toNat : Int) - b.toNat).natAbs

/-- The server is known, and its address is within the range. -/
def Near (localIp : UInt32) (diffRange : Int32) (t : Server) : Prop :=
  t.hostLong ≠ 0 ∧ distance t.hostLong localIp ≤ diffRange.toInt

/-- The server is known, and only the wrapped distance is within the range. -/
def WrapsNear (localIp : UInt32) (diffRange : Int32) (t : Server) : Prop :=
  t.hostLong ≠ 0 ∧
    (distance t.hostLong localIp = 2147483648 ∨ 4294967296 - diffRange.toInt ≤ distance t.hostLong localIp)

instance (localIp : UInt32) (diffRange : Int32) (t : Server) : Decidable (Near localIp diffRange t) :=
  inferInstanceAs (Decidable (_ ∧ _))

instance (localIp : UInt32) (diffRange : Int32) (t : Server) : Decidable (WrapsNear localIp diffRange t) :=
  inferInstanceAs (Decidable (_ ∧ _))

variable {localIp : UInt32} {diffRange : Int32}

theorem isNear_iff (hrange : 0 ≤ diffRange.toInt) (t : Server) :
    isNear localIp diffRange t ↔ Near localIp diffRange t ∨ WrapsNear localIp diffRange t := by
  have hdiff := toInt32_sub t.hostLong localIp
  have habs := toInt_abs (t.hostLong - localIp).toInt32
  have hbound := diffRange.toInt_lt
  have ha := t.hostLong.toNat_lt
  have hb := localIp.toNat_lt
  unfold isNear Near WrapsNear distance
  simp only [Bool.and_eq_true, decide_eq_true_eq, Int32.le_iff_toInt_le, ← and_or_left]
  refine and_congr_right fun _ => ?_
  rw [habs, hdiff]
  simp only [Int.bmod_def]
  omega

theorem not_near_of_wrapsNear {t : Server} (hrange : 0 ≤ diffRange.toInt) (h : WrapsNear localIp diffRange t) :
    ¬Near localIp diffRange t := by
  intro hnear
  have hbound := diffRange.toInt_lt
  have hwrap := h.2
  have hdist := hnear.2
  omega

/-! ## Draws -/

/-- The servers that a draw can select: the size is read into a `uint32_t`. -/
def drawable (list : ServerList) : ServerList := list.take (max 1 (size list))

theorem mem_of_mem_drawable {list : ServerList} {t : Server} (h : t ∈ drawable list) : t ∈ list :=
  List.mem_of_mem_take h

theorem size_le_length (list : ServerList) : size list ≤ list.length := Nat.mod_le _ _

theorem drawable_eq {list : ServerList} (h : list.length < 4294967296) : drawable list = list := by
  have hsize : size list = list.length := Nat.mod_eq_of_lt h
  exact List.take_of_length_le (by omega)

theorem pickAny_mem_drawable {list : ServerList} (hne : list ≠ []) (x : Chance) :
    ∃ t ∈ drawable list, pickAny list x = some t := by
  have hpos := List.length_pos_of_ne_nil hne
  have hle := size_le_length list
  have hindex : secureRand32 (size list) x < max 1 (size list) := by
    unfold secureRand32
    split
    · omega
    · have := Nat.mod_lt x.draw (show 0 < size list by omega)
      omega
  have hlt : secureRand32 (size list) x < list.length := by omega
  refine ⟨list[secureRand32 (size list) x], ?_, List.getElem?_eq_getElem hlt⟩
  exact List.mem_take_iff_getElem.mpr ⟨_, by omega, rfl⟩

theorem exists_pickAny {list : ServerList} {t : Server} (h : t ∈ drawable list) : ∃ x, pickAny list x = some t := by
  obtain ⟨i, hi, rfl⟩ := List.mem_take_iff_getElem.mp h
  refine ⟨{ draw := i }, ?_⟩
  have hindex : secureRand32 (size list) { draw := i } = i := by
    unfold secureRand32
    split
    · omega
    · exact Nat.mod_eq_of_lt (show i < size list by omega)
  rw [pickAny, hindex]
  exact List.getElem?_eq_getElem _

/-- Whatever is drawn is near, if there is a near one. -/
def PicksNear (localIp : UInt32) (diffRange : Int32) (list : ServerList) (pick : Chance → Option Server) : Prop :=
  ∀ x, ∃ t ∈ list, pick x = some t ∧ ((∃ u ∈ list, Near localIp diffRange u) → Near localIp diffRange t)

/-- No server whose distance wraps can be drawn beside one that is near. -/
def WrapsApart (localIp : UInt32) (diffRange : Int32) (list : ServerList) : Prop :=
  (∃ u ∈ list, Near localIp diffRange u) →
    ∀ t ∈ drawable (list.filter (isNear localIp diffRange)), ¬WrapsNear localIp diffRange t

theorem picksNear_iff (hrange : 0 ≤ diffRange.toInt) {list : ServerList} (hne : list ≠ []) :
    PicksNear localIp diffRange list (fun x => pickOf (list.filter (isNear localIp diffRange)) list x) ↔
      WrapsApart localIp diffRange list := by
  constructor
  · intro hpick hnear t ht hwrap
    obtain ⟨x, hx⟩ := exists_pickAny ht
    have hcand : list.filter (isNear localIp diffRange) ≠ [] := List.ne_nil_of_mem (mem_of_mem_drawable ht)
    obtain ⟨u, -, hu, himp⟩ := hpick x
    simp only [pickOf, if_neg hcand, hx] at hu
    cases hu
    exact not_near_of_wrapsNear hrange hwrap (himp hnear)
  · intro hapart x
    simp only [pickOf]
    split
    · rename_i hcand
      obtain ⟨t, ht, hx⟩ := pickAny_mem_drawable hne x
      refine ⟨t, mem_of_mem_drawable ht, hx, fun hnear => ?_⟩
      -- a near server would have been a candidate
      obtain ⟨u, hu, hun⟩ := hnear
      have := List.filter_eq_nil_iff.mp hcand u hu
      exact absurd ((isNear_iff hrange u).mpr (.inl hun)) this
    · rename_i hcand
      obtain ⟨t, ht, hx⟩ := pickAny_mem_drawable hcand x
      obtain ⟨hmem, hnear⟩ := List.mem_filter.mp (mem_of_mem_drawable ht)
      refine ⟨t, hmem, hx, fun hany => ?_⟩
      exact ((isNear_iff hrange t).mp hnear).resolve_right (hapart hany t ht)

/-! ## The two balancers -/

/-- `LoadBalanceIpRangeFirst::select` goes by the true distance. -/
def RangeFirst (localIp : UInt32) (diffRange : Int32) (list : ServerList) (tid : Nat) : Prop :=
  ∀ x, ∃ t ∈ list, (select list tid x (.ipRangeFirst localIp diffRange)).1 = some (some t) ∧
    ((∃ u ∈ list, Near localIp diffRange u) → Near localIp diffRange t)

/-- The first server with the local address. -/
def firstLocal (localIp : UInt32) (list : ServerList) : Option Server :=
  list.find? fun t => t.hostLong ≠ 0 && t.hostLong = localIp

/-- `LoadBalanceLocalFirst::select` takes the first server with the local address, and else
    goes by the true distance. -/
def LocalFirst (localIp : UInt32) (diffRange : Int32) (list : ServerList) (tid : Nat) : Prop :=
  ∀ x, ∃ t ∈ list, (select list tid x (.localFirst localIp diffRange)).1 = some (some t) ∧
    (∀ u, firstLocal localIp list = some u → t = u) ∧
    (firstLocal localIp list = none → (∃ u ∈ list, Near localIp diffRange u) → Near localIp diffRange t)

theorem rangeFirst_iff_picksNear {list : ServerList} (hne : list ≠ []) (tid : Nat) :
    RangeFirst localIp diffRange list tid ↔
      PicksNear localIp diffRange list (fun x => pickOf (list.filter (isNear localIp diffRange)) list x) := by
  unfold RangeFirst PicksNear
  simp only [select, if_neg hne, selectFrom, selectIpRangeFirst, Option.some.injEq]

theorem localFirst_of_local {list : ServerList} {u : Server} (hlocal : firstLocal localIp list = some u) (tid : Nat) :
    LocalFirst localIp diffRange list tid := by
  intro x
  have hmem : u ∈ list := List.mem_of_find?_eq_some hlocal
  have hne : list ≠ [] := List.ne_nil_of_mem hmem
  refine ⟨u, hmem, ?_, fun v hv => ?_, fun hnone => ?_⟩
  · unfold firstLocal at hlocal
    simp only [select, if_neg hne, selectFrom, selectLocalFirst, hlocal]
  · rw [hlocal] at hv
    exact Option.some.inj hv
  · rw [hlocal] at hnone
    cases hnone

theorem localFirst_iff_picksNear {list : ServerList} (hne : list ≠ []) (hlocal : firstLocal localIp list = none)
    (tid : Nat) :
    LocalFirst localIp diffRange list tid ↔
      PicksNear localIp diffRange list (fun x => pickOf (list.filter (isNear localIp diffRange)) list x) := by
  unfold LocalFirst PicksNear
  unfold firstLocal at hlocal ⊢
  simp only [select, if_neg hne, selectFrom, selectLocalFirst, hlocal, Option.some.injEq]
  simp

/-- Each balancer goes by the true distance exactly when no server whose distance wraps can
    be drawn beside a near one; a server with the local address spares the second balancer
    the draw. -/
theorem near_first_iff (localIp : UInt32) (diffRange : Int32) (hrange : 0 ≤ diffRange) (list : ServerList)
    (hne : list ≠ []) (tid : Nat) :
    (RangeFirst localIp diffRange list tid ↔ WrapsApart localIp diffRange list) ∧
    (LocalFirst localIp diffRange list tid ↔
      (∃ t ∈ list, t.hostLong ≠ 0 ∧ t.hostLong = localIp) ∨ WrapsApart localIp diffRange list) := by
  have hrange : 0 ≤ diffRange.toInt := Int32.le_iff_toInt_le.mp hrange
  refine ⟨(rangeFirst_iff_picksNear hne tid).trans (picksNear_iff hrange hne), ?_⟩
  cases hlocal : firstLocal localIp list with
  | some u =>
    have hu := List.find?_some hlocal
    simp only [Bool.and_eq_true, decide_eq_true_eq] at hu
    exact iff_of_true (localFirst_of_local hlocal tid) (.inl ⟨u, List.mem_of_find?_eq_some hlocal, hu⟩)
  | none =>
    have hno : ¬∃ t ∈ list, t.hostLong ≠ 0 ∧ t.hostLong = localIp := by
      rintro ⟨t, ht, hlong, heq⟩
      have hother := List.find?_eq_none.mp hlocal t ht
      simp only [Bool.and_eq_true, decide_eq_true_eq] at hother
      exact hother ⟨hlong, heq⟩
    rw [localFirst_iff_picksNear hne hlocal, picksNear_iff hrange hne]
    exact (or_iff_right hno).symm

/-- 10.0.0.1 with neighbours within 256: 10.0.0.2, and 11.0.0.1 out of range. -/
theorem neighbours_are_preferred :
    RangeFirst 167772161 256 [{ firstServer with hostLong := 167772162 }, { secondServer with hostLong := 184549377 }] 0 ∧
    LocalFirst 167772161 256 [{ firstServer with hostLong := 167772162 }, { secondServer with hostLong := 184549377 }] 0 := by
  have hiff := near_first_iff 167772161 256 (by decide)
    [{ firstServer with hostLong := 167772162 }, { secondServer with hostLong := 184549377 }] (by decide) 0
  exact ⟨hiff.1.mpr fun _ => by decide, hiff.2.mpr (.inr fun _ => by decide)⟩

/-- 138.0.0.1 is 2^31 away from 10.0.0.1 and is selected beside 10.0.0.2. -/
theorem a_server_at_the_other_end_is_preferred :
    ¬RangeFirst 167772161 256
      [{ firstServer with hostLong := 2315255809 }, { secondServer with hostLong := 167772162 }] 0 ∧
    ¬LocalFirst 167772161 256
      [{ firstServer with hostLong := 2315255809 }, { secondServer with hostLong := 167772162 }] 0 := by
  constructor
  · intro h
    obtain ⟨t, -, hsel, himp⟩ := h { draw := 0 }
    have hnear := himp ⟨{ secondServer with hostLong := 167772162 }, by decide, by decide⟩
    cases hsel
    exact absurd hnear (by decide)
  · intro h
    obtain ⟨t, -, hsel, -, himp⟩ := h { draw := 0 }
    have hnear := himp (by decide) ⟨{ secondServer with hostLong := 167772162 }, by decide, by decide⟩
    cases hsel
    exact absurd hnear (by decide)

end PredictorService.ServiceRouter.LoadBalance
