/-
  PredictorService.Lib.Rounding — rounding a rational to a binary float and cutting one to
  an integer.

  `roundTo p` gives the float of `p` bits that is nearest, ties to the even one; the
  exponent has no bounds. `truncate` drops the fraction, as a cast to an integer does. A
  magnitude rounds to one or more from half a unit in the last place below one on
  (`roundMagnitude_lt_one_iff`), and that is where its integer part stops to be zero
  (`truncate_roundTo_eq_zero_iff`).
-/

import Mathlib.Data.Int.Log
import Mathlib.Data.Rat.Floor
import Mathlib.Tactic.Linarith
import Mathlib.Tactic.Positivity
import Mathlib.Tactic.FieldSimp

namespace PredictorService.Lib

/-- The nearest integer; of two, the even one. -/
def nearestEven (q : ℚ) : ℤ :=
  if q - ⌊q⌋ < 1 / 2 ∨ q - ⌊q⌋ = 1 / 2 ∧ Even ⌊q⌋ then ⌊q⌋ else ⌊q⌋ + 1

/-- How far apart the floats of `p` bits around `q` are. -/
def spacing (p : ℕ) (q : ℚ) : ℚ := 2 ^ (Int.log 2 q - (p - 1))

def roundMagnitude (p : ℕ) (q : ℚ) : ℚ := nearestEven (q / spacing p q) * spacing p q

def roundTo (p : ℕ) (q : ℚ) : ℚ := if q < 0 then -roundMagnitude p (-q) else roundMagnitude p q

/-- Rounding towards zero. -/
def truncate (q : ℚ) : ℤ := if q < 0 then ⌈q⌉ else ⌊q⌋

/-! ## The nearest integer -/

theorem floor_le_nearestEven (q : ℚ) : ⌊q⌋ ≤ nearestEven q := by
  unfold nearestEven
  split
  · exact le_refl _
  · exact Int.le_of_lt (Int.lt_succ _)

theorem nearestEven_le_floor_add_one (q : ℚ) : nearestEven q ≤ ⌊q⌋ + 1 := by
  unfold nearestEven
  split
  · exact Int.le_of_lt (Int.lt_succ _)
  · exact le_refl _

theorem le_nearestEven {k : ℤ} {q : ℚ} (h : k ≤ q) : k ≤ nearestEven q :=
  (Int.le_floor.mpr h).trans (floor_le_nearestEven q)

theorem nearestEven_le {k : ℤ} {q : ℚ} (h : q < k) : nearestEven q ≤ k :=
  (nearestEven_le_floor_add_one q).trans (Int.add_one_le_of_lt (Int.floor_lt.mpr h))

@[simp] theorem nearestEven_zero : nearestEven 0 = 0 := by simp [nearestEven]

@[simp] theorem nearestEven_intCast (k : ℤ) : nearestEven k = k := by simp [nearestEven]

/-- The half before an even integer goes up to it. -/
theorem nearestEven_lt_iff {k : ℤ} (hk : Even k) (q : ℚ) : nearestEven q < k ↔ q < k - 1 / 2 := by
  rcases lt_or_ge q k with hq | hq
  · have hf : ⌊q⌋ < k := Int.floor_lt.mpr hq
    rcases eq_or_ne ⌊q⌋ (k - 1) with hlast | hlast
    · -- the unit before `k`, whose lower end is odd
      have hodd : ¬ Even ⌊q⌋ := by
        rw [hlast, Int.not_even_iff_odd]
        exact hk.sub_odd odd_one
      simp only [nearestEven, hodd, and_false, or_false]
      have hcast : (⌊q⌋ : ℚ) = k - 1 := by
        rw [hlast]
        push_cast
        ring
      split
      · rename_i h
        rw [hcast] at h
        exact iff_of_true (by omega) (by linarith)
      · rename_i h
        rw [hcast] at h
        exact iff_of_false (by omega) (by linarith)
    · have hle : ⌊q⌋ + 1 < k := by omega
      have hlow : (⌊q⌋ : ℚ) + 1 + 1 ≤ k := by exact_mod_cast hle
      have hup := Int.lt_floor_add_one q
      exact iff_of_true ((nearestEven_le_floor_add_one q).trans_lt hle) (by linarith)
  · exact iff_of_false (not_lt.mpr (le_nearestEven hq)) (by linarith)

/-! ## Rounding -/

theorem spacing_pos (p : ℕ) (q : ℚ) : 0 < spacing p q := zpow_pos (by norm_num) _

/-- A float of `p` bits is `2 ^ p` spacings at most: the next power of two. -/
theorem pow_mul_spacing (p : ℕ) (q : ℚ) : (2 : ℚ) ^ p * spacing p q = 2 ^ (Int.log 2 q + 1) := by
  rw [spacing, ← zpow_natCast, ← zpow_add₀ (by norm_num)]
  congr 1
  ring

@[simp] theorem roundMagnitude_zero (p : ℕ) : roundMagnitude p 0 = 0 := by simp [roundMagnitude]

theorem roundMagnitude_nonneg {p : ℕ} {q : ℚ} (hq : 0 ≤ q) : 0 ≤ roundMagnitude p q := by
  have h : (0 : ℤ) ≤ nearestEven (q / spacing p q) :=
    le_nearestEven (by simpa using div_nonneg hq (spacing_pos p q).le)
  exact mul_nonneg (by exact_mod_cast h) (spacing_pos p q).le

/-- The next power of two bounds the result as it bounds the number. -/
theorem roundMagnitude_le_pow_log (p : ℕ) {q : ℚ} : roundMagnitude p q ≤ 2 ^ (Int.log 2 q + 1) := by
  have hs := spacing_pos p q
  have hlt : q / spacing p q < ((2 ^ p : ℤ) : ℚ) := by
    rw [div_lt_iff₀ hs]
    push_cast
    rw [pow_mul_spacing]
    exact_mod_cast Int.lt_zpow_succ_log_self (by norm_num : 1 < 2) q
  have hle : (nearestEven (q / spacing p q) : ℚ) ≤ 2 ^ p := by exact_mod_cast nearestEven_le hlt
  calc roundMagnitude p q ≤ 2 ^ p * spacing p q := mul_le_mul_of_nonneg_right hle hs.le
    _ = 2 ^ (Int.log 2 q + 1) := pow_mul_spacing p q

theorem roundMagnitude_le_pow (p : ℕ) {q : ℚ} (hq : 0 < q) {k : ℤ} (h : q < 2 ^ k) : roundMagnitude p q ≤ 2 ^ k := by
  have hlog : Int.log 2 q < k := (Int.lt_zpow_iff_log_lt (by norm_num) hq).mp (by exact_mod_cast h)
  exact (roundMagnitude_le_pow_log p).trans (zpow_le_zpow_right₀ (by norm_num) hlog)

theorem pow_le_roundMagnitude {p : ℕ} (hp : 1 ≤ p) {q : ℚ} {k : ℤ} (h : 2 ^ k ≤ q) : 2 ^ k ≤ roundMagnitude p q := by
  have hq : 0 < q := (zpow_pos (by norm_num) k).trans_le h
  have hs := spacing_pos p q
  have hlog : k ≤ Int.log 2 q := (Int.zpow_le_iff_le_log (by norm_num) hq).mp (by exact_mod_cast h)
  have hhalf : (2 : ℚ) ^ (p - 1) * spacing p q = 2 ^ Int.log 2 q := by
    rw [spacing, ← zpow_natCast, ← zpow_add₀ (by norm_num), Nat.cast_sub hp]
    congr 1
    push_cast
    ring
  have hge : ((2 ^ (p - 1) : ℤ) : ℚ) ≤ q / spacing p q := by
    rw [le_div_iff₀ hs]
    push_cast
    rw [hhalf]
    exact_mod_cast Int.zpow_log_le_self (by norm_num : 1 < 2) hq
  have hle : (2 : ℚ) ^ (p - 1) ≤ nearestEven (q / spacing p q) := by exact_mod_cast le_nearestEven hge
  calc (2 : ℚ) ^ k ≤ 2 ^ Int.log 2 q := zpow_le_zpow_right₀ (by norm_num) hlog
    _ = 2 ^ (p - 1) * spacing p q := hhalf.symm
    _ ≤ roundMagnitude p q := mul_le_mul_of_nonneg_right hle hs.le

/-- Below one, in the last binade: the last half unit rounds up. -/
theorem roundMagnitude_lt_one_of_half {p : ℕ} (hp : 1 ≤ p) {q : ℚ} (hlow : 1 / 2 ≤ q) (hup : q < 1) :
    roundMagnitude p q < 1 ↔ q < 1 - 1 / 2 ^ (p + 1) := by
  have hq : 0 < q := by linarith
  have hlog : Int.log 2 q = -1 := by
    have h1 : -1 ≤ Int.log 2 q := (Int.zpow_le_iff_le_log (by norm_num) hq).mp (by simpa using hlow)
    have h2 : Int.log 2 q < 0 := (Int.lt_zpow_iff_log_lt (by norm_num) hq).mp (by simpa using hup)
    omega
  have hpow := pow_mul_spacing p q
  rw [hlog] at hpow
  have hspace : spacing p q = 1 / 2 ^ p := by
    rw [eq_div_iff (by positivity), mul_comm, hpow]
    norm_num
  have h2p : (0 : ℚ) < 2 ^ p := by positivity
  have heven : Even (2 ^ p : ℤ) := (even_two).pow_of_ne_zero (by omega)
  have hcast : (nearestEven (q * 2 ^ p) : ℚ) < 2 ^ p ↔ nearestEven (q * 2 ^ p) < (2 : ℤ) ^ p := by
    exact_mod_cast Iff.rfl
  rw [roundMagnitude, hspace, div_div_eq_mul_div, div_one, mul_one_div, div_lt_one h2p, hcast, nearestEven_lt_iff heven]
  push_cast
  have hdiv : (1 : ℚ) / 2 ^ (p + 1) * 2 ^ p = 1 / 2 := by
    rw [pow_succ]
    field_simp
  constructor
  · intro h
    by_contra hcon
    nlinarith
  · intro h
    nlinarith

theorem roundMagnitude_lt_one_iff {p : ℕ} (hp : 1 ≤ p) {q : ℚ} (hq : 0 ≤ q) :
    roundMagnitude p q < 1 ↔ q < 1 - 1 / 2 ^ (p + 1) := by
  have hsmall : (1 : ℚ) / 2 ^ (p + 1) ≤ 1 / 4 := by
    have h4 : (4 : ℚ) ≤ 2 ^ (p + 1) := by
      calc (4 : ℚ) = 2 ^ 2 := by norm_num
        _ ≤ 2 ^ (p + 1) := pow_le_pow_right₀ (by norm_num) (by omega)
    exact one_div_le_one_div_of_le (by norm_num) h4
  have hpos : (0 : ℚ) < 1 / 2 ^ (p + 1) := by positivity
  rcases hq.eq_or_lt with rfl | hq
  · exact iff_of_true (by simp) (by linarith)
  rcases lt_or_ge q (1 / 2) with hhalf | hhalf
  · have hle : roundMagnitude p q ≤ 2 ^ (-1 : ℤ) := roundMagnitude_le_pow p hq (by simpa using hhalf)
    refine iff_of_true (hle.trans_lt (by norm_num)) (by linarith)
  rcases lt_or_ge q 1 with hone | hone
  · exact roundMagnitude_lt_one_of_half hp hhalf hone
  · have hge : (2 : ℚ) ^ (0 : ℤ) ≤ roundMagnitude p q := pow_le_roundMagnitude hp (by simpa using hone)
    exact iff_of_false (not_lt.mpr (by simpa using hge)) (by linarith)

theorem roundTo_of_nonneg (p : ℕ) {q : ℚ} (hq : 0 ≤ q) : roundTo p q = roundMagnitude p q := if_neg (not_lt.mpr hq)

theorem abs_roundTo (p : ℕ) (q : ℚ) : |roundTo p q| = roundMagnitude p |q| := by
  unfold roundTo
  split
  · rename_i h
    rw [abs_neg, abs_of_neg h, abs_of_nonneg (roundMagnitude_nonneg (by linarith))]
  · rename_i h
    have hq : 0 ≤ q := not_lt.mp h
    rw [abs_of_nonneg hq, abs_of_nonneg (roundMagnitude_nonneg hq)]

/-- An integer of `p` bits is a float of `p` bits. -/
theorem roundTo_natCast {p n : ℕ} (h : n < 2 ^ p) : roundTo p n = n := by
  rw [roundTo_of_nonneg p (Nat.cast_nonneg n)]
  rcases Nat.eq_zero_or_pos n with rfl | hpos
  · simp
  · have hlog : Nat.log 2 n < p := Nat.log_lt_of_lt_pow hpos.ne' h
    have hspace : spacing p n = 1 / 2 ^ (p - 1 - Nat.log 2 n) := by
      rw [spacing, Int.log_natCast, ← zpow_natCast, one_div, ← zpow_neg]
      congr 1
      omega
    have hint : (n : ℚ) / spacing p n = ((n * 2 ^ (p - 1 - Nat.log 2 n) : ℤ) : ℚ) := by
      rw [hspace, div_div_eq_mul_div, div_one]
      push_cast
      ring
    rw [roundMagnitude, hint, nearestEven_intCast, ← hint, div_mul_cancel₀ _ (spacing_pos p n).ne']

/-! ## The integer part -/

theorem truncate_eq_zero_iff (q : ℚ) : truncate q = 0 ↔ |q| < 1 := by
  unfold truncate
  split
  · rename_i h
    rw [Int.ceil_eq_zero_iff, abs_of_neg h, Set.mem_Ioc]
    exact ⟨fun hc => by linarith [hc.1], fun hc => ⟨by linarith, h.le⟩⟩
  · rename_i h
    have hq : 0 ≤ q := not_lt.mp h
    rw [Int.floor_eq_zero_iff, abs_of_nonneg hq, Set.mem_Ico]
    exact ⟨fun hc => hc.2, fun hc => ⟨hq, hc⟩⟩

/-- When the integer part of a rounded number is zero. -/
theorem truncate_roundTo_eq_zero_iff {p : ℕ} (hp : 1 ≤ p) (q : ℚ) :
    truncate (roundTo p q) = 0 ↔ |q| < 1 - 1 / 2 ^ (p + 1) := by
  rw [truncate_eq_zero_iff, abs_roundTo, roundMagnitude_lt_one_iff hp (abs_nonneg q)]

/-- An integer stays between the powers of two that it is between. -/
theorem ceil_roundTo_natCast {p : ℕ} (hp : 1 ≤ p) {n k : ℕ} (h : n < 2 ^ k) :
    0 ≤ ⌈roundTo p n⌉ ∧ ⌈roundTo p n⌉ ≤ 2 ^ k ∧ (⌈roundTo p n⌉ = 0 ↔ n = 0) := by
  have hn : (0 : ℚ) ≤ n := Nat.cast_nonneg n
  rw [roundTo_of_nonneg p hn]
  rcases Nat.eq_zero_or_pos n with rfl | hpos
  · simp
  · have hle : roundMagnitude p n ≤ 2 ^ (k : ℤ) := roundMagnitude_le_pow p (Nat.cast_pos.mpr hpos) (by exact_mod_cast h)
    have hge : (2 : ℚ) ^ (0 : ℤ) ≤ roundMagnitude p n := pow_le_roundMagnitude hp (by simpa using Nat.succ_le_of_lt hpos)
    have hone : 1 ≤ ⌈roundMagnitude p n⌉ := Int.one_le_ceil_iff.mpr (by linarith [zpow_zero (2 : ℚ)])
    refine ⟨by omega, Int.ceil_le.mpr (by exact_mod_cast hle), iff_of_false (by omega) (by omega)⟩

end PredictorService.Lib
