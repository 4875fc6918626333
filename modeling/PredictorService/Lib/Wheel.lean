/-
  PredictorService.Lib.Wheel — the weighted wheel.

  Slots with weights stand in a circle. A hand goes from slot to slot and stops at a slot
  whose weight reaches the present level; at each passage of the first slot the level falls
  by `gap`, and starts again from `top` when nothing would be left (the interleaved weighted
  round robin). `spin` follows the hand to its next stop, for some turns at most.

  Termination: `spin_of_level_le` and `spin_of_gap`. From the fresh hand the turns are
  counted (`handAt`): turn `q` looks at slot `q % n` on the level `levelAt q`, so the stops
  are a periodic set of turns, and the `k`-th spin ends at the `k`-th of them
  (`Spins.eq_handAt`). `Spins.window`: in any `period` consecutive spins each slot has its
  `share`, the number of levels that its weight reaches.
-/

import Mathlib.Algebra.BigOperators.Group.Finset.Piecewise
import Mathlib.Data.Nat.Nth

namespace PredictorService.Lib

/-! ## Counting along a periodic set -/

section Counting

variable {p q : Nat → Prop} [DecidablePred p] [DecidablePred q]

theorem count_congr {n : Nat} (h : ∀ k < n, (p k ↔ q k)) : Nat.count p n = Nat.count q n :=
  Nat.le_antisymm (Nat.count_mono_left fun k hk => (h k hk).mp) (Nat.count_mono_left fun k hk => (h k hk).mpr)

/-- Elements of `q` among the first `k` of `p`. -/
theorem count_nth_comp (hp : (Set.ofPred p).Infinite) (k : Nat) :
    Nat.count (fun j => q (Nat.nth p j)) k = Nat.count (fun j => p j ∧ q j) (Nat.nth p k) := by
  induction k with
  | zero =>
    rw [Nat.count_zero]
    refine (Nat.count_iff_forall_not.mpr fun j hj hjp => ?_).symm
    have := Nat.count_strict_mono hjp.1 hj
    rw [Nat.count_nth_zero] at this
    omega
  | succ k ih =>
    have hlt : Nat.nth p k < Nat.nth p (k + 1) := (Nat.nth_lt_nth hp).mpr (Nat.lt_succ_self k)
    obtain ⟨d, hd⟩ := Nat.exists_eq_add_of_le (show Nat.nth p k + 1 ≤ Nat.nth p (k + 1) from hlt)
    have hmem : p (Nat.nth p k) := Nat.nth_mem_of_infinite hp k
    -- between two elements of `p` there is none
    have hgap : Nat.count (fun j => p (Nat.nth p k + 1 + j) ∧ q (Nat.nth p k + 1 + j)) d = 0 := by
      refine Nat.count_iff_forall_not.mpr fun j hj hjp => ?_
      have := Nat.le_nth_of_lt_nth_succ (show Nat.nth p k + 1 + j < Nat.nth p (k + 1) by omega) hjp.1
      omega
    rw [Nat.count_succ, ih, hd, Nat.count_add, hgap, Nat.count_succ]
    simp [hmem]

theorem count_add_period {N : Nat} (hper : ∀ j, p (j + N) ↔ p j) (a : Nat) :
    Nat.count p (a + N) = Nat.count p a + Nat.count p N := by
  rw [Nat.count_add', count_congr fun k _ => hper k]

theorem nth_add_period (hp : (Set.ofPred p).Infinite) {N : Nat} (hper : ∀ j, p (j + N) ↔ p j) (k : Nat) :
    Nat.nth p (k + Nat.count p N) = Nat.nth p k + N := by
  have hmem : p (Nat.nth p k + N) := (hper _).mpr (Nat.nth_mem_of_infinite hp k)
  have hcount : Nat.count p (Nat.nth p k + N) = k + Nat.count p N := by
    rw [count_add_period hper, Nat.count_nth_of_infinite hp]
  rw [← hcount]
  exact Nat.nth_count hmem

/-- Among any `count p N` consecutive elements of a set with period `N`, those in `q` are as
    many as in one period. -/
theorem count_window (hp : (Set.ofPred p).Infinite) {N : Nat} (hper : ∀ j, p (j + N) ↔ p j)
    (hq : ∀ j, q (j + N) ↔ q j) (a : Nat) :
    Nat.count (fun j => q (Nat.nth p (a + j))) (Nat.count p N) = Nat.count (fun j => p j ∧ q j) N := by
  have hsplit := Nat.count_add (fun j => q (Nat.nth p j)) a (Nat.count p N)
  have hend := count_nth_comp (q := q) hp (a + Nat.count p N)
  have hstart := count_nth_comp (q := q) hp a
  have hboth := count_add_period (p := fun j => p j ∧ q j) (fun j => and_congr (hper j) (hq j)) (Nat.nth p a)
  rw [nth_add_period hp hper] at hend
  omega

/-- Windows of one length that all count the same. -/
theorem count_windows {W s : Nat} (h : ∀ a, Nat.count (fun j => p (a + j)) W = s) (k : Nat) :
    Nat.count p (W * k) = k * s := by
  induction k with
  | zero => simp
  | succ k ih =>
    rw [Nat.mul_succ, Nat.count_add, ih, h, Nat.succ_mul]

/-- Windows of two lengths that count the same, each in its length, have one density. -/
theorem count_windows_two {W s W' s' : Nat} (h : ∀ a, Nat.count (fun j => p (a + j)) W = s)
    (h' : ∀ a, Nat.count (fun j => p (a + j)) W' = s') : W' * s = W * s' := by
  rw [← count_windows h, ← count_windows h', Nat.mul_comm]

/-- Over whole circles of `n`, the visits of one slot. -/
theorem count_slot {n i : Nat} (hi : i < n) (m : Nat) (f : Nat → Prop) [DecidablePred f] :
    Nat.count (fun j => f (j / n) ∧ j % n = i) (n * m) = Nat.count f m := by
  have hn : 0 < n := by omega
  induction m with
  | zero => simp
  | succ m ih =>
    have hcircle : Nat.count (fun j => f ((n * m + j) / n) ∧ (n * m + j) % n = i) n = if f m then 1 else 0 := by
      have hcongr : ∀ j < n, (f ((n * m + j) / n) ∧ (n * m + j) % n = i) ↔ (j = i ∧ f m) := by
        intro j hj
        rw [Nat.mul_add_div hn, Nat.div_eq_of_lt hj, Nat.mul_add_mod, Nat.mod_eq_of_lt hj, Nat.add_zero, and_comm]
      rw [count_congr hcongr, Nat.count_eq_card_filter_range]
      split
      · rename_i hf
        simp [hf, Finset.filter_eq', hi]
      · rename_i hf
        simp [hf]
    rw [Nat.mul_succ, Nat.count_add, ih, hcircle, Nat.count_succ]

/-- A set counted by residues. -/
theorem count_eq_sum_slots {n : Nat} (hn : 0 < n) (N : Nat) :
    Nat.count p N = ∑ i ∈ Finset.range n, Nat.count (fun j => p j ∧ j % n = i) N := by
  induction N with
  | zero => simp
  | succ N ih =>
    simp only [Nat.count_succ, Finset.sum_add_distrib, ← ih]
    congr 1
    by_cases h : p N
    · simp [h, Nat.mod_lt N hn]
    · simp [h]

end Counting

/-! ## The wheel -/

structure Wheel where
  slots : Nat
  weight : Nat → Nat
  gap : Nat
  top : Nat

/-- One past the slot last looked at, and the level. -/
structure Hand where
  next : Nat := 0
  level : Nat := 0
  deriving DecidableEq, Repr

namespace Wheel

variable (c : Wheel)

/-- The slot that the next turn looks at. -/
def slot (h : Hand) : Nat := h.next % c.slots

def turn (h : Hand) : Hand where
  next := c.slot h + 1
  level := if c.slot h ≠ 0 then h.level else if h.level ≤ c.gap then c.top else h.level - c.gap

/-- What is answered at a stop: nothing when the level starts again from zero. -/
def found (h : Hand) : Option Nat := if c.slot h = 0 ∧ (c.turn h).level = 0 then none else some (c.slot h)

def spin : Nat → Hand → Option (Option Nat × Hand)
  | 0, _ => none
  | turns + 1, h =>
    if (c.turn h).level ≤ c.weight (c.slot h) then some (c.found h, c.turn h) else spin turns (c.turn h)

variable {c}

theorem slot_lt (hslots : 0 < c.slots) (h : Hand) : c.slot h < c.slots := Nat.mod_lt _ hslots

theorem slot_iterate (k : Nat) (h : Hand) : c.slot (c.turn^[k] h) = (h.next + k) % c.slots := by
  induction k generalizing h with
  | zero => rfl
  | succ k ih =>
    rw [Function.iterate_succ_apply, ih, turn, slot]
    simp only
    rw [Nat.add_assoc, Nat.mod_add_mod]
    congr 1
    omega

theorem level_turn_le (h : Hand) : (c.turn h).level ≤ max h.level c.top := by
  rw [turn]
  simp only
  split
  · omega
  · split <;> omega

theorem level_iterate_le (k : Nat) (h : Hand) : (c.turn^[k] h).level ≤ max h.level c.top := by
  induction k generalizing h with
  | zero => exact Nat.le_max_left _ _
  | succ k ih =>
    have hturn := level_turn_le (c := c) h
    have hrest := ih (c.turn h)
    rw [Function.iterate_succ_apply]
    omega

/-- Where the hand stops, a spin ends; and a spin that ended does so with more turns. -/
theorem spin_mono {turns : Nat} {h : Hand} {r : Option Nat × Hand} (hspin : c.spin turns h = some r) (more : Nat) :
    c.spin (turns + more) h = some r := by
  induction turns generalizing h with
  | zero => cases hspin
  | succ turns ih =>
    rw [Nat.succ_add, spin]
    rw [spin] at hspin
    split
    · rename_i hstop
      rwa [if_pos hstop] at hspin
    · rename_i hstop
      rw [if_neg hstop] at hspin
      exact ih hspin

theorem spin_unique {turns turns' : Nat} {h : Hand} {r r' : Option Nat × Hand} (hspin : c.spin turns h = some r)
    (hspin' : c.spin turns' h = some r') : r = r' := by
  have h1 := spin_mono hspin turns'
  have h2 := spin_mono hspin' turns
  rw [Nat.add_comm, h1] at h2
  exact Option.some.inj h2

theorem level_le_of_spin {turns : Nat} {h : Hand} {r : Option Nat × Hand} (hspin : c.spin turns h = some r) :
    r.2.level ≤ max h.level c.top := by
  induction turns generalizing h with
  | zero => cases hspin
  | succ turns ih =>
    have hturn := level_turn_le (c := c) h
    rw [spin] at hspin
    split at hspin
    · cases hspin
      exact hturn
    · have hrest := ih hspin
      omega

theorem spin_of_stop {k : Nat} {h : Hand}
    (hstop : (c.turn (c.turn^[k] h)).level ≤ c.weight (c.slot (c.turn^[k] h))) : ∃ turns r, c.spin turns h = some r := by
  induction k generalizing h with
  | zero => exact ⟨1, _, if_pos hstop⟩
  | succ k ih =>
    obtain ⟨turns, r, hspin⟩ := ih hstop
    by_cases hhere : (c.turn h).level ≤ c.weight (c.slot h)
    · exact ⟨1, _, if_pos hhere⟩
    · exact ⟨turns + 1, r, by rw [spin, if_neg hhere, hspin]⟩

/-! ## Termination -/

section Termination

variable (hslots : 0 < c.slots)

include hslots

/-- The hand comes to every slot. -/
theorem exists_slot_iterate {i : Nat} (hi : i < c.slots) (h : Hand) : ∃ k, c.slot (c.turn^[k] h) = i := by
  refine ⟨i + (c.slots - h.next % c.slots), ?_⟩
  have hlt := Nat.mod_lt h.next hslots
  have hdiv := Nat.div_add_mod h.next c.slots
  rw [slot_iterate]
  have hsum : h.next + (i + (c.slots - h.next % c.slots)) = i + c.slots * (h.next / c.slots + 1) := by
    rw [Nat.mul_add]
    omega
  rw [hsum, Nat.add_mul_mod_self_left, Nat.mod_eq_of_lt hi]

/-- A slot that reaches the top stops the hand at any level up to the top. -/
theorem spin_of_level_le {i : Nat} (hi : i < c.slots) (htop : c.top ≤ c.weight i) {h : Hand} (hlevel : h.level ≤ c.top) :
    ∃ turns r, c.spin turns h = some r := by
  obtain ⟨k, hk⟩ := exists_slot_iterate hslots hi h
  refine spin_of_stop (k := k) ?_
  have hle := level_iterate_le (c := c) (k + 1) h
  rw [Function.iterate_succ_apply'] at hle
  rw [hk]
  omega

/-- With a positive gap the level comes down to the top. -/
theorem exists_level_le (hgap : 0 < c.gap) (h : Hand) : ∃ k, (c.turn^[k] h).level ≤ c.top := by
  induction hn : h.level using Nat.strong_induction_on generalizing h with
  | _ n ih =>
    subst hn
    by_cases hle : h.level ≤ c.top
    · exact ⟨0, hle⟩
    obtain ⟨k, hk⟩ := exists_slot_iterate hslots hslots h
    have hbefore := level_iterate_le (c := c) k h
    -- the passage of the first slot lowers the level or starts it again
    have hpass : (c.turn^[k + 1] h).level ≤ c.top ∨ (c.turn^[k + 1] h).level < h.level := by
      rw [Function.iterate_succ_apply', turn]
      simp only [hk, ne_eq, not_true_eq_false, if_false]
      split <;> omega
    rcases hpass with htop | hless
    · exact ⟨k + 1, htop⟩
    · obtain ⟨k', hk'⟩ := ih _ hless _ rfl
      exact ⟨k' + (k + 1), by rwa [Function.iterate_add_apply]⟩

theorem spin_of_gap (hgap : 0 < c.gap) {i : Nat} (hi : i < c.slots) (htop : c.top ≤ c.weight i) (h : Hand) :
    ∃ turns r, c.spin turns h = some r := by
  obtain ⟨k, hk⟩ := exists_level_le hslots hgap h
  obtain ⟨k', hk'⟩ := exists_slot_iterate hslots hi (c.turn^[k] h)
  refine spin_of_stop (k := k' + k) ?_
  have hle := level_iterate_le (c := c) (k' + 1) (c.turn^[k] h)
  rw [Function.iterate_succ_apply'] at hle
  rw [Function.iterate_add_apply, hk']
  omega

end Termination

/-- A single slot without gap never stops the hand at a level above its weight. -/
theorem spin_stuck (hslots : c.slots = 1) (hgap : c.gap = 0) {h : Hand} (hlevel : c.weight 0 < h.level) (turns : Nat) :
    c.spin turns h = none := by
  induction turns generalizing h with
  | zero => rfl
  | succ turns ih =>
    have hslot : c.slot h = 0 := by rw [slot, hslots, Nat.mod_one]
    have hsame : (c.turn h).level = h.level := by
      rw [turn]
      simp only [hslot, hgap, ne_eq, not_true_eq_false, if_false, Nat.sub_zero]
      rw [if_neg (by omega)]
    rw [spin, hslot, hsame, if_neg (by omega)]
    exact ih (by omega)

theorem level_turn_pos (htop : 0 < c.top) {h : Hand} (hlevel : 0 < h.level) : 0 < (c.turn h).level := by
  rw [turn]
  simp only
  split
  · exact hlevel
  · split <;> omega

/-- A level of zero is one that was carried past the first slot. -/
theorem level_of_level_turn (htop : 0 < c.top) {h : Hand} (hlevel : (c.turn h).level = 0) :
    h.level = 0 ∧ c.slot h ≠ 0 := by
  rw [turn] at hlevel
  simp only at hlevel
  split at hlevel
  · rename_i hslot
    exact ⟨hlevel, hslot⟩
  · split at hlevel <;> omega

/-- Past the first slot a level of zero stops the hand at once. -/
theorem spin_of_level_zero {turns : Nat} {h : Hand} {r : Option Nat × Hand} (hlevel : h.level = 0) (hslot : c.slot h ≠ 0)
    (hspin : c.spin turns h = some r) : r.1 = some (c.slot h) := by
  cases turns with
  | zero => cases hspin
  | succ turns =>
    have hturn : (c.turn h).level = 0 := by
      rw [turn]
      simp only [if_pos hslot, hlevel]
    rw [spin, hturn, if_pos (Nat.zero_le _), found, if_neg (fun hzero => hslot hzero.1)] at hspin
    cases hspin
    rfl

/-- From a positive level the hand stops at positive weights only. -/
theorem weight_pos_of_spin (htop : 0 < c.top) {turns : Nat} {h h' : Hand} {r : Option Nat}
    (hlevel : 0 < (c.turn h).level) (hspin : c.spin turns h = some (r, h')) :
    ∃ i, r = some i ∧ h'.next = i + 1 ∧ 0 < h'.level ∧ 0 < c.weight i := by
  induction turns generalizing h with
  | zero => cases hspin
  | succ turns ih =>
    rw [spin] at hspin
    split at hspin
    · rename_i hstop
      cases hspin
      refine ⟨c.slot h, ?_, rfl, hlevel, by omega⟩
      rw [found, if_neg (by omega)]
    · exact ih (level_turn_pos htop hlevel) hspin

/-! ## The turns from the fresh hand -/

variable (c)

def handAt (q : Nat) : Hand := c.turn^[q] {}

/-- How many levels there are from the top down. -/
def levels : Nat := if c.gap = 0 then 1 else (c.top + c.gap - 1) / c.gap

/-- The level of turn `q`. -/
def levelAt (q : Nat) : Nat := c.top - q / c.slots % c.levels * c.gap

/-- Turn `q` ends a spin. -/
def StopsAt (q : Nat) : Prop := c.levelAt q ≤ c.weight (q % c.slots)

instance : DecidablePred c.StopsAt := fun _ => inferInstanceAs (Decidable (_ ≤ _))

/-- The levels that the weight of a slot reaches. -/
def share (i : Nat) : Nat := Nat.count (fun r => c.top - r * c.gap ≤ c.weight i) c.levels

def period : Nat := ∑ i ∈ Finset.range c.slots, c.share i

variable {c}

theorem levels_pos (htop : 0 < c.top) : 0 < c.levels := by
  unfold levels
  split
  · exact Nat.one_pos
  · exact Nat.div_pos (by omega) (by omega)

/-- The levels end where nothing would be left. -/
theorem levels_le_iff (hgap : 0 < c.gap) (r : Nat) : c.levels ≤ r ↔ c.top ≤ r * c.gap := by
  rw [levels, if_neg (by omega), Nat.div_le_iff_le_mul_add_pred hgap, Nat.mul_comm c.gap r]
  omega

theorem slot_handAt (q : Nat) : c.slot (c.handAt q) = q % c.slots := by
  rw [handAt, slot_iterate, Nat.zero_add]

theorem next_handAt_succ (q : Nat) : (c.handAt (q + 1)).next = q % c.slots + 1 := by
  rw [handAt, Function.iterate_succ_apply', turn, ← handAt, slot_handAt]

theorem levelAt_pos (htop : 0 < c.top) (q : Nat) : 0 < c.levelAt q := by
  have hlt := Nat.mod_lt (q / c.slots) (levels_pos htop)
  unfold levelAt
  by_cases hgap : c.gap = 0
  · rw [hgap]
    omega
  · have hmore := mt (levels_le_iff (show 0 < c.gap by omega) _).mpr (Nat.not_le.mpr hlt)
    omega

/-- One passage further the level is lower by the gap, or the top again. -/
theorem levelAt_succ_circle (htop : 0 < c.top) {q : Nat} (hq : (q + 1) % c.slots = 0) :
    c.levelAt (q + 1) = if c.levelAt q ≤ c.gap then c.top else c.levelAt q - c.gap := by
  have hdiv : (q + 1) / c.slots = q / c.slots + 1 := Nat.succ_div_of_mod_eq_zero hq
  have hpos := levelAt_pos htop q
  have hlevels := levels_pos htop
  have hlt := Nat.mod_lt (q / c.slots) hlevels
  by_cases hgap : c.gap = 0
  · simp only [levelAt, hgap, Nat.mul_zero, Nat.sub_zero]
    rw [if_neg (by omega)]
  · have hle := levels_le_iff (show 0 < c.gap by omega) (q / c.slots % c.levels + 1)
    rw [Nat.succ_mul] at hle
    unfold levelAt at hpos ⊢
    rw [hdiv, ← Nat.mod_add_mod]
    generalize q / c.slots % c.levels = r at hlt hle hpos ⊢
    by_cases hlast : r + 1 = c.levels
    · rw [hlast, Nat.mod_self, Nat.zero_mul, Nat.sub_zero, if_pos (by omega)]
    · rw [Nat.mod_eq_of_lt (by omega), if_neg (by omega), Nat.succ_mul]
      omega

theorem level_handAt_succ (htop : 0 < c.top) (q : Nat) : (c.handAt (q + 1)).level = c.levelAt q := by
  induction q with
  | zero =>
    show (c.turn {}).level = _
    simp [turn, slot, levelAt]
  | succ q ih =>
    rw [handAt, Function.iterate_succ_apply', ← handAt, turn]
    simp only [slot_handAt, ih]
    split
    · rename_i hq
      have hdiv : (q + 1) / c.slots = q / c.slots := Nat.succ_div_of_not_dvd fun hd => hq (Nat.mod_eq_zero_of_dvd hd)
      rw [levelAt, levelAt, hdiv]
    · rename_i hq
      exact (levelAt_succ_circle htop (by omega)).symm

/-! ## Stops and shares -/

theorem spin_handAt_of_stopsAt (htop : 0 < c.top) {q : Nat} (hstop : c.StopsAt q) :
    c.spin 1 (c.handAt q) = some (some (q % c.slots), c.handAt (q + 1)) := by
  have hnext : c.turn (c.handAt q) = c.handAt (q + 1) := (Function.iterate_succ_apply' _ _ _).symm
  have hlevel := levelAt_pos htop q
  unfold StopsAt at hstop
  rw [spin, found, hnext, slot_handAt, level_handAt_succ htop, if_pos hstop, if_neg (by omega)]

theorem spin_handAt_of_not_stopsAt (htop : 0 < c.top) {q : Nat} (hstop : ¬c.StopsAt q) (turns : Nat) :
    c.spin (turns + 1) (c.handAt q) = c.spin turns (c.handAt (q + 1)) := by
  have hnext : c.turn (c.handAt q) = c.handAt (q + 1) := (Function.iterate_succ_apply' _ _ _).symm
  unfold StopsAt at hstop
  rw [spin, hnext, slot_handAt, level_handAt_succ htop, if_neg hstop]

theorem stopsAt_add_period (hslots : 0 < c.slots) (q : Nat) : c.StopsAt (q + c.slots * c.levels) ↔ c.StopsAt q := by
  unfold StopsAt levelAt
  rw [Nat.add_mul_div_left _ _ hslots, Nat.add_mod_right, Nat.add_mul_mod_self_left]

theorem count_stopsAt_slot (hslots : 0 < c.slots) {i : Nat} (hi : i < c.slots) :
    Nat.count (fun q => c.StopsAt q ∧ q % c.slots = i) (c.slots * c.levels) = c.share i := by
  have hcongr : ∀ q < c.slots * c.levels, (c.StopsAt q ∧ q % c.slots = i) ↔
      (c.top - q / c.slots * c.gap ≤ c.weight i ∧ q % c.slots = i) := by
    intro q hq
    refine and_congr_left fun hqi => ?_
    rw [StopsAt, levelAt, hqi, Nat.mod_eq_of_lt ((Nat.div_lt_iff_lt_mul hslots).mpr (by rwa [Nat.mul_comm]))]
  rw [count_congr hcongr]
  exact count_slot hi c.levels fun r => c.top - r * c.gap ≤ c.weight i

theorem count_stopsAt (hslots : 0 < c.slots) : Nat.count c.StopsAt (c.slots * c.levels) = c.period := by
  rw [count_eq_sum_slots hslots, period]
  exact Finset.sum_congr rfl fun i hi => count_stopsAt_slot hslots (Finset.mem_range.mp hi)

/-- A weight that is a multiple of the gap has its quotient as share. -/
theorem share_eq_of_dvd (hgap : 0 < c.gap) {i k : Nat} (hw : c.weight i = k * c.gap) (hle : c.weight i ≤ c.top) :
    c.share i = k := by
  have hk : k ≤ c.levels := by
    by_contra hlt
    have := (levels_le_iff hgap c.levels).mp (Nat.le_refl _)
    have hmul := Nat.mul_lt_mul_of_pos_right (Nat.not_le.mp hlt) hgap
    omega
  have hcongr : ∀ r < c.levels, (c.top - r * c.gap ≤ c.weight i ↔ c.levels - k ≤ r) := by
    intro r _
    have hreach := levels_le_iff hgap (r + k)
    rw [Nat.add_mul] at hreach
    omega
  obtain ⟨d, hd⟩ := Nat.exists_eq_add_of_le hk
  have hlow : Nat.count (fun r => c.levels - k ≤ r) d = 0 := Nat.count_iff_forall_not.mpr fun r hr => by omega
  have hhigh : Nat.count (fun r => c.levels - k ≤ d + r) k = k := Nat.count_iff_forall.mpr fun r hr => by omega
  rw [share, count_congr hcongr]
  generalize hm : c.levels - k = m at hlow hhigh ⊢
  rw [hd, Nat.add_comm, Nat.count_add, hlow, hhigh, Nat.zero_add]

/-! ## Spins, one after another -/

/-- The hands between the spins, from the fresh one. -/
structure Spins (c : Wheel) (hands : Nat → Hand) : Prop where
  fresh : hands 0 = {}
  next : ∀ k, ∃ turns r, c.spin turns (hands k) = some (r, hands (k + 1))

section Spins

variable (hslots : 0 < c.slots) (htop : 0 < c.top) {i : Nat} (hi : i < c.slots) (hreach : c.top ≤ c.weight i)

include hslots hi hreach

theorem stopsAt_infinite : (Set.ofPred c.StopsAt).Infinite := by
  refine Set.infinite_of_forall_exists_gt fun q => ⟨i + c.slots * (q + 1), ?_, ?_⟩
  · show c.levelAt _ ≤ c.weight _
    rw [Nat.add_mul_mod_self_left, Nat.mod_eq_of_lt hi]
    exact Nat.le_trans (Nat.sub_le _ _) hreach
  · have := Nat.le_mul_of_pos_left (q + 1) hslots
    omega

include htop

/-- From turn `q` on the hand goes to the first turn that ends a spin. -/
theorem spin_handAt (q : Nat) :
    ∃ turns, c.spin turns (c.handAt q) =
      some (some (Nat.nth c.StopsAt (Nat.count c.StopsAt q) % c.slots),
        c.handAt (Nat.nth c.StopsAt (Nat.count c.StopsAt q) + 1)) := by
  have hinf := stopsAt_infinite hslots hi hreach
  have hle := Nat.le_nth_count hinf q
  obtain ⟨d, hd⟩ := Nat.exists_eq_add_of_le hle
  induction d generalizing q with
  | zero =>
    have hstop : c.StopsAt q := by
      have := Nat.nth_mem_of_infinite hinf (Nat.count c.StopsAt q)
      rwa [hd] at this
    refine ⟨1, ?_⟩
    rw [hd]
    exact spin_handAt_of_stopsAt htop hstop
  | succ d ih =>
    have hstop : ¬c.StopsAt q := by
      intro hstop
      rw [Nat.nth_count hstop] at hd
      omega
    have hcount : Nat.count c.StopsAt (q + 1) = Nat.count c.StopsAt q := Nat.count_succ_eq_count_iff.mpr hstop
    obtain ⟨turns, hspin⟩ := ih (q + 1) (by rw [hcount]; omega) (by rw [hcount]; omega)
    refine ⟨turns + 1, ?_⟩
    rw [spin_handAt_of_not_stopsAt htop hstop, hspin, hcount]

theorem Spins.succ_eq {hands : Nat → Hand} (hs : Spins c hands) {k q : Nat} (hq : hands k = c.handAt q)
    (hcount : Nat.count c.StopsAt q = k) : hands (k + 1) = c.handAt (Nat.nth c.StopsAt k + 1) := by
  obtain ⟨turns, r, hspin⟩ := hs.next k
  obtain ⟨turns', hspin'⟩ := spin_handAt hslots htop hi hreach q
  rw [hq] at hspin
  rw [hcount] at hspin'
  exact congrArg Prod.snd (spin_unique hspin hspin')

/-- The `k`-th spin ends at the `k`-th turn that ends one. -/
theorem Spins.eq_handAt {hands : Nat → Hand} (hs : Spins c hands) (k : Nat) :
    hands (k + 1) = c.handAt (Nat.nth c.StopsAt k + 1) := by
  have hinf := stopsAt_infinite hslots hi hreach
  induction k with
  | zero => exact hs.succ_eq hslots htop hi hreach (q := 0) hs.fresh (Nat.count_zero _)
  | succ k ih =>
    refine hs.succ_eq hslots htop hi hreach ih ?_
    rw [Nat.count_succ, if_pos (Nat.nth_mem_of_infinite hinf k), Nat.count_nth_of_infinite hinf]

/-- In any `period` consecutive spins each slot has its share. -/
theorem Spins.window {hands : Nat → Hand} (hs : Spins c hands) (a : Nat) {j : Nat} (hj : j < c.slots) :
    Nat.count (fun k => (hands (a + k + 1)).next = j + 1) c.period = c.share j := by
  have hper : ∀ q, (q + c.slots * c.levels) % c.slots = j ↔ q % c.slots = j := by
    intro q
    rw [Nat.add_mul_mod_self_left]
  have hwindow := count_window (q := fun q => q % c.slots = j) (stopsAt_infinite hslots hi hreach)
    (stopsAt_add_period hslots) hper a
  rw [count_stopsAt hslots, count_stopsAt_slot hslots hj] at hwindow
  rw [← hwindow]
  refine count_congr fun k _ => ?_
  rw [hs.eq_handAt hslots htop hi hreach, next_handAt_succ]
  omega

end Spins

end Wheel

end PredictorService.Lib
