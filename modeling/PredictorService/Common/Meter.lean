/-
  PredictorService.Common.Meter — the rates of a meter (common/metrics/metrics.cc,
  metrics.h: `Meter`, `Counter`).

  The one-minute timer puts the counter in front of `history_`, which keeps one sample more
  than the largest level has minutes. The timer of a level compares the newest sample with
  the one so many minutes back. As long as the seconds of every level are an `int`, the
  samples are the newest ones whatever timer fires when, and a stored rate is the marks of
  the last minutes over their seconds (`minute_rates_iff`). For more minutes the product
  overflows as soon as the timer is set.

  The arithmetic of doubles, and of the counter, is exact; that of `int` is not, and `none`
  says that it overflows or that an index is out of bounds. The mean rate is left out.
-/

import PredictorService.Lib.FinMap
import PredictorService.Lib.Rounding
import PredictorService.Lib.Runs

namespace PredictorService.Common

open PredictorService.Lib

structure Meter where
  /-- The value of `counter_`. -/
  counter : ℤ := 0
  history : List ℤ := []
  timeLevelMin : List Int32
  minutesRate : FinMap Int32 ℚ := ∅

def TIME_LEVEL_ONE_MIN : Int32 := 1

/-- What `int` arithmetic makes of a result. -/
def int (n : ℤ) : Option ℤ := if -2147483648 ≤ n ∧ n < 2147483648 then some n else none

/-- `static_cast<size_t>` of an `int`. -/
def sizeT (n : ℤ) : ℕ := (n % 18446744073709551616).toNat

namespace Meter

/-- The constructor. -/
def make (timeLevelMin : List Int32) : Meter :=
  { timeLevelMin := if TIME_LEVEL_ONE_MIN ∈ timeLevelMin then timeLevelMin else timeLevelMin ++ [TIME_LEVEL_ONE_MIN] }

def mark (m : Meter) : Meter := { m with counter := m.counter + 1 }

/-- `history_` with the counter in front, cut to one more than the largest level. -/
def cutHistory (m : Meter) : Option (List ℤ) := do
  let history := m.counter :: m.history
  let maxTimeLevel ← (m.timeLevelMin.map Int32.toInt).max?
  let size ← int (maxTimeLevel + 1)
  return if history.length > sizeT size then history.dropLast else history

/-- The first block of `updateValue`. -/
def updateHistory (m : Meter) (timeLevel : Int32) : Option Meter :=
  if timeLevel = TIME_LEVEL_ONE_MIN then m.cutHistory.map fun history => { m with history := history } else some m

def storeRate (m : Meter) (timeLevel : Int32) (newest oldest seconds : ℤ) : Meter :=
  let minuteRate : ℚ := ((newest - oldest : ℤ) : ℚ) / (seconds : ℚ)
  { m with minutesRate := m.minutesRate.insert timeLevel (truncate (minuteRate * 1000) / 1000) }

/-- The second one. -/
def updateRate (m : Meter) (timeLevel : Int32) : Option Meter := do
  let size ← int (timeLevel.toInt + 1)
  if m.history.length ≥ sizeT size then
    let newest ← m.history[0]?
    let oldest ← m.history[sizeT timeLevel.toInt]?
    let seconds ← int (60 * timeLevel.toInt)
    return m.storeRate timeLevel newest oldest seconds
  else return m

/-- The timer is set first, for so many seconds. -/
def updateValue (m : Meter) (timeLevel : Int32) : Option Meter := do
  let _ ← int (60 * timeLevel.toInt)
  let m ← m.updateHistory timeLevel
  m.updateRate timeLevel

def init (m : Meter) : Option Meter := m.timeLevelMin.foldlM updateValue m

def getMinuteRate (m : Meter) (timeLevel : Int32) : ℚ := (m.minutesRate.lookup timeLevel).getD 0

inductive Ev where
  | mark
  /-- The timer of a level fires, or `init` comes to the level. -/
  | update (timeLevel : Int32)
  deriving DecidableEq, Repr

def step (m : Meter) : Ev → Option Meter
  | .mark => some m.mark
  | .update timeLevel => m.updateValue timeLevel

/-! ## What is counted -/

/-- The marks so far, and how many there were at each one-minute tick, newest first. -/
structure Tally where
  marks : ℕ := 0
  samples : List ℕ := []

def Tally.count (t : Tally) : Ev → Tally
  | .mark => { t with marks := t.marks + 1 }
  | .update timeLevel =>
    if timeLevel = TIME_LEVEL_ONE_MIN then { t with samples := t.marks :: t.samples } else t

def tally (es : List Ev) : Tally := es.foldl Tally.count {}

/-- The marks between the latest tick and the one so many ticks before it. -/
def marksBetween (samples : List ℕ) (timeLevel : Int32) : ℕ :=
  samples.getD 0 0 - samples.getD timeLevel.toInt.toNat 0

/-- Marks in each second of so many minutes, truncated to three decimals. -/
def rateOf (marks : ℕ) (timeLevel : Int32) : ℚ := (1000 * marks / (60 * timeLevel.toInt.toNat) : ℕ) / 1000

/-- The largest level. -/
def largest (m : Meter) : ℕ := (((m.timeLevelMin.map Int32.toInt).max?).getD 0).toNat

/-- An update stores the rate of its level once there are samples enough, and touches no
    other one. -/
structure Stores (before after : Meter) (samples : List ℕ) (timeLevel : Int32) : Prop where
  stored : timeLevel.toInt.toNat < samples.length →
    after.minutesRate = before.minutesRate.insert timeLevel (rateOf (marksBetween samples timeLevel) timeLevel) ∧
      after.getMinuteRate timeLevel = rateOf (marksBetween samples timeLevel) timeLevel
  kept : samples.length ≤ timeLevel.toInt.toNat → after.minutesRate = before.minutesRate

/-- Every run goes on; the history has the newest samples, and an update stores the rate of
    the marks. -/
def CountsMarks (timeLevelMin : List Int32) : Prop :=
  ∀ es : List Ev, (∀ timeLevel, .update timeLevel ∈ es → timeLevel ∈ (make timeLevelMin).timeLevelMin) →
    ∃ m, run step (make timeLevelMin) es = some m ∧
      m.history = ((tally es).samples.take ((make timeLevelMin).largest + 1)).map Nat.cast ∧
      ∀ es' timeLevel before, es = es' ++ [.update timeLevel] → run step (make timeLevelMin) es' = some before →
        Stores before m (tally es).samples timeLevel

/-! ## The abstract counts -/

theorem tally_snoc (es : List Ev) (e : Ev) : tally (es ++ [e]) = (tally es).count e := by
  rw [tally, List.foldl_append]
  rfl

/-- A later sample is no less than an earlier one. -/
structure Tally.Grows (t : Tally) : Prop where
  samples : t.samples.Pairwise (· ≥ ·)
  marks : ∀ s ∈ t.samples, s ≤ t.marks

theorem Tally.Grows.count {t : Tally} (h : t.Grows) (e : Ev) : (t.count e).Grows := by
  cases e with
  | mark => exact ⟨h.samples, fun s hs => Nat.le_succ_of_le (h.marks s hs)⟩
  | update timeLevel =>
    simp only [Tally.count]
    split
    · refine ⟨List.pairwise_cons.mpr ⟨h.marks, h.samples⟩, fun s hs => ?_⟩
      rcases List.mem_cons.mp hs with rfl | hs
      · exact Nat.le_refl _
      · exact h.marks s hs
    · exact h

theorem grows_tally (es : List Ev) : (tally es).Grows := by
  induction es using List.reverseRecOn with
  | nil => exact ⟨.nil, fun s hs => by cases hs⟩
  | append_singleton es e ih =>
    rw [tally_snoc]
    exact ih.count e

/-- Putting an element in front of the newest `n` and cutting to `n` gives the newest. -/
theorem cut_take {α : Type} (c : α) (l : List α) (n : ℕ) :
    (if (c :: l.take n).length > n then (c :: l.take n).dropLast else c :: l.take n) = (c :: l).take n := by
  have htake : (c :: l.take n).take n = (c :: l).take n := by
    cases n with
    | zero => rfl
    | succ n => rw [List.take_succ_cons, List.take_succ_cons, List.take_take, Nat.min_eq_left (Nat.le_succ n)]
  rw [← htake]
  rw [List.length_cons, List.length_take]
  split
  · rename_i hlong
    rw [List.dropLast_eq_take, List.length_cons, List.length_take, Nat.add_sub_cancel, Nat.min_eq_left (by omega)]
  · rename_i hshort
    refine (List.take_of_length_le ?_).symm
    rw [List.length_cons, List.length_take]
    omega

/-! ## One update -/

/-- The seconds of every level are an `int`. -/
def SecondsFit (timeLevelMin : List Int32) : Prop := ∀ timeLevel ∈ timeLevelMin, 60 * timeLevel.toInt ≤ 2147483647

theorem int_of_bounds {n : ℤ} (h0 : 0 ≤ n) (h : n ≤ 2147483647) : int n = some n := if_pos ⟨by omega, by omega⟩

theorem sizeT_of_bounds {n : ℤ} (h0 : 0 ≤ n) (h : n ≤ 2147483647) : sizeT n = n.toNat := by
  rw [sizeT, Int.emod_eq_of_lt h0 (by omega)]

/-- A level and one more, in `int` and as a size. -/
theorem succ_of_bounds {k : ℕ} (h : k ≤ 35791394) : int (k + 1) = some ((k : ℤ) + 1) ∧ sizeT (k + 1) = k + 1 := by
  refine ⟨int_of_bounds (by omega) (by omega), ?_⟩
  rw [sizeT_of_bounds (by omega) (by omega)]
  omega

/-- The levels of a meter: positive, with a minute among them. -/
structure Levels (m : Meter) : Prop where
  positive : ∀ timeLevel ∈ m.timeLevelMin, 0 < timeLevel.toInt
  fit : SecondsFit m.timeLevelMin
  minute : TIME_LEVEL_ONE_MIN ∈ m.timeLevelMin

theorem Levels.congr {m m' : Meter} (hm : Levels m) (h : m'.timeLevelMin = m.timeLevelMin) :
    Levels m' ∧ m'.largest = m.largest :=
  ⟨⟨h ▸ hm.positive, h ▸ hm.fit, h ▸ hm.minute⟩, by rw [Meter.largest, Meter.largest, h]⟩

theorem Levels.bounds {m : Meter} (hm : Levels m) {timeLevel : Int32} (h : timeLevel ∈ m.timeLevelMin) :
    0 < timeLevel.toInt ∧ timeLevel.toInt ≤ 35791394 := by
  have hfit := hm.fit timeLevel h
  exact ⟨hm.positive timeLevel h, by omega⟩

/-- The largest level is one of them. -/
theorem Levels.largest {m : Meter} (hm : Levels m) :
    (m.timeLevelMin.map Int32.toInt).max? = some (m.largest : ℤ) ∧ m.largest ≤ 35791394 ∧
      ∀ timeLevel ∈ m.timeLevelMin, timeLevel.toInt.toNat ≤ m.largest := by
  have hne : m.timeLevelMin.map Int32.toInt ≠ [] := List.ne_nil_of_mem (List.mem_map_of_mem hm.minute)
  obtain ⟨n, hn⟩ := Option.isSome_iff_exists.mp (List.isSome_max?_of_ne_nil hne)
  have hlargest : m.largest = n.toNat := by rw [Meter.largest, hn, Option.getD_some]
  obtain ⟨hmem, hle⟩ := List.max?_eq_some_iff.mp hn
  obtain ⟨timeLevel, hlevel, rfl⟩ := List.mem_map.mp hmem
  have hbounds := hm.bounds hlevel
  refine ⟨by rw [hn, hlargest]; congr 1; omega, by omega, fun timeLevel' hlevel' => ?_⟩
  have := hle timeLevel'.toInt (List.mem_map_of_mem hlevel')
  omega

/-- What the meter has when it has counted `t`. -/
structure Holds (m : Meter) (t : Tally) : Prop where
  counter : m.counter = t.marks
  history : m.history = (t.samples.take (m.largest + 1)).map Nat.cast

theorem cutHistory_eq {m : Meter} {t : Tally} (hm : Levels m) (h : Holds m t) :
    m.cutHistory = some (((t.marks :: t.samples).take (m.largest + 1)).map Nat.cast) := by
  obtain ⟨hmax, hle, -⟩ := hm.largest
  obtain ⟨hint, hsize⟩ := succ_of_bounds hle
  have hcut := cut_take (t.marks : ℤ) (t.samples.map Nat.cast) (m.largest + 1)
  -- rewriting keeps the kernel from unfolding `int`
  rw [cutHistory, hmax, h.counter, h.history, List.map_take, List.map_take, List.map_cons, ← hcut,
    Option.bind_eq_bind, Option.bind_some, hint, Option.bind_some, hsize]
  rfl

theorem updateHistory_eq {m : Meter} {t : Tally} (hm : Levels m) (h : Holds m t) (timeLevel : Int32) :
    ∃ m', m.updateHistory timeLevel = some m' ∧ m'.timeLevelMin = m.timeLevelMin ∧ m'.minutesRate = m.minutesRate ∧
      Holds m' (t.count (.update timeLevel)) := by
  by_cases hone : timeLevel = TIME_LEVEL_ONE_MIN
  · rw [updateHistory, if_pos hone, cutHistory_eq hm h, Option.map_some]
    refine ⟨_, rfl, rfl, rfl, ?_, ?_⟩
    · rw [Tally.count, if_pos hone]
      exact h.counter
    · rw [Tally.count, if_pos hone]
      rfl
  · rw [updateHistory, if_neg hone]
    refine ⟨m, rfl, rfl, rfl, ?_⟩
    rw [Tally.count, if_neg hone]
    exact h

theorem truncate_rate {a b : ℕ} (hab : b ≤ a) (n : ℕ) :
    truncate ((((a : ℤ) - b : ℤ) : ℚ) / ((60 * n : ℤ) : ℚ) * 1000) = (1000 * (a - b) / (60 * n) : ℕ) := by
  have hq : (((a : ℤ) - b : ℤ) : ℚ) / ((60 * n : ℤ) : ℚ) * 1000 = ((1000 * (a - b) : ℕ) : ℚ) / ((60 * n : ℕ) : ℚ) := by
    push_cast [Nat.cast_sub hab]
    ring
  have hnonneg : ¬ ((1000 * (a - b) : ℕ) : ℚ) / ((60 * n : ℕ) : ℚ) < 0 := not_lt.mpr (by positivity)
  rw [hq, truncate, if_neg hnonneg]
  exact Rat.floor_natCast_div_natCast _ _

/-- Where a sample of the history is among all samples. -/
theorem getElem?_history {m : Meter} {t : Tally} (h : Holds m t) {n : ℕ} (hn : n ≤ m.largest)
    (hlong : n < t.samples.length) : m.history[n]? = some ((t.samples.getD n 0 : ℕ) : ℤ) := by
  rw [h.history, List.getElem?_map, List.getElem?_take_of_lt (Nat.lt_succ_of_le hn), List.getD_eq_getElem?_getD,
    List.getElem?_eq_getElem hlong]
  rfl

/-- The rate that the history gives is that of the marks in between. -/
theorem storeRate_eq (m : Meter) {t : Tally} (hgrows : t.Grows) {timeLevel : Int32}
    (hlong : timeLevel.toInt.toNat < t.samples.length) :
    m.storeRate timeLevel (t.samples.getD 0 0 : ℕ) (t.samples.getD timeLevel.toInt.toNat 0 : ℕ)
        (60 * (timeLevel.toInt.toNat : ℤ)) =
      { m with minutesRate := m.minutesRate.insert timeLevel (rateOf (marksBetween t.samples timeLevel) timeLevel) } := by
  have hle : t.samples.getD timeLevel.toInt.toNat 0 ≤ t.samples.getD 0 0 := by
    rw [List.getD_eq_getElem?_getD, List.getD_eq_getElem?_getD, List.getElem?_eq_getElem hlong,
      List.getElem?_eq_getElem (Nat.zero_lt_of_lt hlong), Option.getD_some, Option.getD_some]
    rcases Nat.eq_zero_or_pos timeLevel.toInt.toNat with h0 | hpos
    · simp only [h0, Nat.le_refl]
    · exact List.pairwise_iff_getElem.mp hgrows.samples 0 _ _ hlong hpos
  rw [storeRate, truncate_rate hle, rateOf, marksBetween]
  rfl

theorem updateRate_eq {m : Meter} {t : Tally} (hm : Levels m) (h : Holds m t) (hgrows : t.Grows) {timeLevel : Int32}
    (hlevel : timeLevel ∈ m.timeLevelMin) :
    m.updateRate timeLevel = some (if timeLevel.toInt.toNat < t.samples.length then
      { m with minutesRate := m.minutesRate.insert timeLevel (rateOf (marksBetween t.samples timeLevel) timeLevel) }
      else m) := by
  obtain ⟨hpos, hle⟩ := hm.bounds hlevel
  have hlargest := hm.largest.2.2 timeLevel hlevel
  obtain ⟨k, hk⟩ := Int.eq_ofNat_of_zero_le (Int.le_of_lt hpos)
  have hknat : timeLevel.toInt.toNat = k := by rw [hk, Int.toNat_natCast]
  rw [hk] at hpos hle
  rw [hknat] at hlargest
  have hseconds : int (60 * (k : ℤ)) = some (60 * (k : ℤ)) := int_of_bounds (by omega) (by omega)
  obtain ⟨hint, hsize⟩ := succ_of_bounds (k := k) (by omega)
  have hindex : sizeT (k : ℤ) = k := by
    rw [sizeT_of_bounds (by omega) (by omega)]
    rfl
  have hlen : m.history.length = min (m.largest + 1) t.samples.length := by
    rw [h.history, List.length_map, List.length_take]
  rw [updateRate, hk, hint, Option.bind_eq_bind, Option.bind_some, hsize, Int.toNat_natCast]
  by_cases hlong : k < t.samples.length
  · rw [if_pos hlong, if_pos (by omega), getElem?_history h (Nat.zero_le _) (by omega), Option.bind_some, hindex,
      getElem?_history h hlargest hlong, Option.bind_some, hseconds, Option.bind_some]
    have hstored := m.storeRate_eq hgrows (hknat.symm ▸ hlong)
    rw [hknat] at hstored
    exact congrArg some hstored
  · rw [if_neg hlong, if_neg (by omega)]
    rfl

/-- An update, where the seconds of the levels are an `int`. -/
theorem updateValue_eq {m : Meter} {t : Tally} (hm : Levels m) (h : Holds m t) (hgrows : t.Grows) {timeLevel : Int32}
    (hlevel : timeLevel ∈ m.timeLevelMin) :
    ∃ m', m.updateValue timeLevel = some m' ∧ m'.timeLevelMin = m.timeLevelMin ∧
      Holds m' (t.count (.update timeLevel)) ∧ Stores m m' (t.count (.update timeLevel)).samples timeLevel := by
  obtain ⟨hpos, hle⟩ := hm.bounds hlevel
  have hseconds : int (60 * timeLevel.toInt) = some (60 * timeLevel.toInt) := int_of_bounds (by omega) (by omega)
  obtain ⟨m', hhistory, hlevels, hrates, hholds⟩ := updateHistory_eq hm h timeLevel
  have hgrows' := hgrows.count (.update timeLevel)
  have hrate := updateRate_eq (hm.congr hlevels).1 hholds hgrows' (hlevels ▸ hlevel)
  rw [updateValue, hseconds, Option.bind_eq_bind, Option.bind_some, hhistory, Option.bind_eq_bind, Option.bind_some, hrate]
  refine ⟨_, rfl, ?_⟩
  split
  · rename_i hlong
    refine ⟨hlevels, ⟨hholds.counter, ?_⟩, fun _ => ⟨?_, ?_⟩, fun hshort => absurd hlong (Nat.not_lt.mpr hshort)⟩
    · exact hholds.history
    · rw [hrates]
    · rw [getMinuteRate, FinMap.lookup_insert_ite, if_pos rfl, Option.getD_some]
  · rename_i hshort
    exact ⟨hlevels, hholds, fun hlong => absurd hlong hshort, fun _ => hrates⟩

/-! ## Whole runs -/

/-- `init` is a run of updates. -/
theorem init_eq_run (m : Meter) : m.init = run step m (m.timeLevelMin.map .update) := by
  rw [init, run, List.foldlM_map]
  rfl

theorem subset_make (timeLevelMin : List Int32) : timeLevelMin ⊆ (make timeLevelMin).timeLevelMin := by
  unfold make
  split
  · exact List.Subset.refl _
  · exact List.subset_append_left _ _

theorem levels_make {timeLevelMin : List Int32} (hpos : ∀ timeLevel ∈ timeLevelMin, 0 < timeLevel.toInt)
    (hfit : SecondsFit timeLevelMin) : Levels (make timeLevelMin) := by
  have hone : 0 < TIME_LEVEL_ONE_MIN.toInt ∧ 60 * TIME_LEVEL_ONE_MIN.toInt ≤ 2147483647 := by decide
  by_cases hmem : TIME_LEVEL_ONE_MIN ∈ timeLevelMin
  · have hlevels : (make timeLevelMin).timeLevelMin = timeLevelMin := if_pos hmem
    exact ⟨by rwa [hlevels], by rwa [hlevels], by rwa [hlevels]⟩
  · have hlevels : (make timeLevelMin).timeLevelMin = timeLevelMin ++ [TIME_LEVEL_ONE_MIN] := if_neg hmem
    refine ⟨?_, ?_, ?_⟩ <;> rw [hlevels]
    · exact List.forall_mem_append.mpr ⟨hpos, List.forall_mem_singleton.mpr hone.1⟩
    · exact List.forall_mem_append.mpr ⟨hfit, List.forall_mem_singleton.mpr hone.2⟩
    · exact List.mem_append_right _ List.mem_cons_self

/-- The events are of the meter's levels. -/
def Fires (m : Meter) (es : List Ev) : Prop := ∀ timeLevel, .update timeLevel ∈ es → timeLevel ∈ m.timeLevelMin

theorem run_holds {m : Meter} (hm : Levels m) (hstart : Holds m {}) {es : List Ev} (hes : Fires m es) :
    ∃ m', run step m es = some m' ∧ m'.timeLevelMin = m.timeLevelMin ∧ Holds m' (tally es) := by
  induction es using List.reverseRecOn with
  | nil => exact ⟨m, rfl, rfl, hstart⟩
  | append_singleton es e ih =>
    obtain ⟨u, hu, hlevels, hholds⟩ := ih fun timeLevel h => hes timeLevel (List.mem_append_left _ h)
    rw [tally_snoc]
    cases e with
    | mark =>
      refine ⟨u.mark, (run_append_some step).mpr ⟨u, hu, rfl⟩, hlevels, ?_, hholds.history⟩
      show u.counter + 1 = ((tally es).marks + 1 : ℕ)
      rw [hholds.counter, Nat.cast_add, Nat.cast_one]
    | update timeLevel =>
      have hlevel : timeLevel ∈ u.timeLevelMin := hlevels ▸ hes timeLevel (List.mem_append_right _ List.mem_cons_self)
      obtain ⟨m', hm', hsame, hholds', -⟩ := updateValue_eq (hm.congr hlevels).1 hholds (grows_tally es) hlevel
      refine ⟨m', (run_append_some step).mpr ⟨u, hu, ?_⟩, hsame.trans hlevels, hholds'⟩
      exact (run_cons_some step).mpr ⟨m', hm', rfl⟩

theorem countsMarks_of_fit {timeLevelMin : List Int32} (hm : Levels (make timeLevelMin)) : CountsMarks timeLevelMin := by
  intro es hes
  have hstart : Holds (make timeLevelMin) {} := ⟨rfl, by rw [List.take_nil]; rfl⟩
  obtain ⟨m, hrun, hlevels, hholds⟩ := run_holds hm hstart hes
  have hhistory := hholds.history
  rw [(hm.congr hlevels).2] at hhistory
  refine ⟨m, hrun, hhistory, ?_⟩
  rintro es' timeLevel before rfl hbefore
  obtain ⟨u, hu, hsame, hbase⟩ := run_holds hm hstart fun timeLevel h => hes timeLevel (List.mem_append_left _ h)
  rw [hu, Option.some_inj] at hbefore
  subst hbefore
  have hlevel : timeLevel ∈ u.timeLevelMin := hsame ▸ hes timeLevel (List.mem_append_right _ List.mem_cons_self)
  obtain ⟨m', hm', -, -, hstores⟩ := updateValue_eq (hm.congr hsame).1 hbase (grows_tally es') hlevel
  have hafter : run step (make timeLevelMin) (es' ++ [.update timeLevel]) = some m' :=
    (run_append_some step).mpr ⟨u, hu, (run_cons_some step).mpr ⟨m', hm', rfl⟩⟩
  rw [hrun, Option.some_inj] at hafter
  rw [tally_snoc, hafter]
  exact hstores

/-- The first update of a level computes its seconds. -/
theorem fit_of_countsMarks {timeLevelMin : List Int32} (h : CountsMarks timeLevelMin) : SecondsFit timeLevelMin := by
  intro timeLevel hlevel
  obtain ⟨m, hrun, -⟩ := h [.update timeLevel] fun timeLevel' hmem => by
    cases List.mem_singleton.mp hmem
    exact subset_make timeLevelMin hlevel
  obtain ⟨u, hu, -⟩ := (run_cons_some step).mp hrun
  obtain ⟨seconds, hseconds, -⟩ := Option.bind_eq_some_iff.mp hu
  obtain ⟨hbounds, -⟩ := guard_some.mp hseconds
  omega

/-- The rates count the marks exactly where the seconds of every level are an `int`. -/
theorem minute_rates_iff (timeLevelMin : List Int32) (hpos : ∀ timeLevel ∈ timeLevelMin, 0 < timeLevel.toInt) :
    CountsMarks timeLevelMin ↔ SecondsFit timeLevelMin :=
  ⟨fit_of_countsMarks, fun hfit => countsMarks_of_fit (levels_make hpos hfit)⟩

/-- The levels that a meter has by default. -/
theorem minute_rates_default : CountsMarks [1, 5, 15] := by
  have hlevels : ∀ timeLevel ∈ [(1 : Int32), 5, 15], 0 < timeLevel.toInt ∧ 60 * timeLevel.toInt ≤ 2147483647 := by
    refine List.forall_mem_cons.mpr ⟨by decide, List.forall_mem_cons.mpr ⟨by decide, ?_⟩⟩
    exact List.forall_mem_singleton.mpr (by decide)
  exact (minute_rates_iff [1, 5, 15] fun timeLevel h => (hlevels timeLevel h).1).mpr fun timeLevel h =>
    (hlevels timeLevel h).2

/-- The seconds of so many minutes are no `int`, and the timer cannot be set. -/
theorem seconds_overflow :
    int (60 * (35791395 : Int32).toInt) = none ∧ (make [35791395]).init = none ∧ ¬ CountsMarks [35791395] := by
  refine ⟨by decide, rfl, fun h => ?_⟩
  have hfit := fit_of_countsMarks h 35791395 List.mem_cons_self
  exact absurd hfit (by decide)

end Meter

end PredictorService.Common
