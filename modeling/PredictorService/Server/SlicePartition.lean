/-
  PredictorService.Server.SlicePartition — the ranges that `split_slice` appends
  (common/util.cc).

  The ranges have `avg` items each, and one more range takes what the division leaves. Since
  `avg` is more than `total_num / max_thread_num`, there are fewer than `max_thread_num` full
  ranges (`fullSlices_lt`). The one sum that could wrap is that of `avg` itself, and only for
  a `total_num` of `UINT32_MAX`; every other one stays within `total_num`
  (`slices_partition`).
-/

import PredictorService.Server.RouterDispatch

namespace PredictorService.Server.PredictorRouter

open PredictorService.Lib

/-- `split_slice` with the vector that it appends to. -/
def appendSlices (sliceVec : List Range) (totalNum minItemNumPerThread maxThreadNum : UInt32) : Bool × List Range :=
  match splitSlice totalNum minItemNumPerThread maxThreadNum with
  | none => (false, sliceVec)
  | some ranges => (true, sliceVec ++ ranges)

section

variable {m : Type → Type} [Monad m] (add : UInt32 → UInt32 → m UInt32)

/-- The loop with its counter, for any way of adding. -/
def sliceLoopBy (avg : UInt32) : Nat → UInt32 → UInt32 → m (List Range × UInt32)
  | 0, _, tmpIndex => pure ([], tmpIndex)
  | n + 1, i, tmpIndex => do
    let last ← add tmpIndex avg
    let i ← add i 1
    let rest ← sliceLoopBy avg n i last
    return (⟨tmpIndex, last⟩ :: rest.1, rest.2)

/-- `split_slice` for any way of adding. -/
def splitSliceBy (totalNum minItemNumPerThread maxThreadNum : UInt32) : m (Option (List Range)) :=
  if maxThreadNum = 0 ∨ minItemNumPerThread = 0 then pure none
  else do
    let avg ← add (totalNum / maxThreadNum) 1
    let avg := if avg < minItemNumPerThread then minItemNumPerThread else avg
    let rest ← sliceLoopBy add avg (totalNum / avg).toNat 0 0
    return some (if rest.2 < totalNum then rest.1 ++ [⟨rest.2, totalNum⟩] else rest.1)

end

/-- An addition that is written down. -/
def recordedAdd (a b : UInt32) : StateM (List (UInt32 × UInt32)) UInt32 := fun l => (a + b, l ++ [(a, b)])

/-- The unsigned additions of a call. -/
def sliceAdditions (totalNum minItemNumPerThread maxThreadNum : UInt32) : List (UInt32 × UInt32) :=
  (splitSliceBy recordedAdd totalNum minItemNumPerThread maxThreadNum []).2

/-- Contiguous, disjoint and non-empty ranges from 0 to `total`, at most `max` of them, all
    but possibly the last of one size, which is at least `min`. -/
structure ExactPartition (total min max : UInt32) (ranges : List Range) : Prop where
  contiguous : Covers ranges 0 total.toNat
  disjoint : ranges.Pairwise fun r r' => r.last.toNat ≤ r'.first.toNat
  nonempty : ∀ r ∈ ranges, r.first.toNat < r.last.toNat
  count : ranges.length ≤ max.toNat
  sizes : ∃ size, min.toNat ≤ size ∧ ∀ r ∈ ranges.dropLast, r.last.toNat = r.first.toNat + size

/-! ## The loop -/

theorem length_sliceLoop (avg : UInt32) (n : Nat) (tmpIndex : UInt32) : (sliceLoop avg n tmpIndex).1.length = n := by
  induction n generalizing tmpIndex with
  | zero => rfl
  | succ n ih => exact congrArg (· + 1) (ih (tmpIndex + avg))

/-- What the loop adds up, round by round. -/
def loopAdditions (avg : UInt32) : Nat → UInt32 → UInt32 → List (UInt32 × UInt32)
  | 0, _, _ => []
  | n + 1, i, tmpIndex => (tmpIndex, avg) :: (i, 1) :: loopAdditions avg n (i + 1) (tmpIndex + avg)

theorem sliceLoopBy_recordedAdd (avg : UInt32) (n : Nat) (i tmpIndex : UInt32) (l : List (UInt32 × UInt32)) :
    sliceLoopBy recordedAdd avg n i tmpIndex l = (sliceLoop avg n tmpIndex, l ++ loopAdditions avg n i tmpIndex) := by
  induction n generalizing i tmpIndex l with
  | zero => exact congrArg (Prod.mk _) (List.append_nil l).symm
  | succ n ih =>
    show (fun r : (List Range × UInt32) × List (UInt32 × UInt32) =>
        ((⟨tmpIndex, tmpIndex + avg⟩ :: r.1.1, r.1.2), r.2))
      (sliceLoopBy recordedAdd avg n (i + 1) (tmpIndex + avg) (l ++ [(tmpIndex, avg)] ++ [(i, 1)])) = _
    rw [ih]
    simp [sliceLoop, loopAdditions]

/-- Writing the additions down changes nothing. -/
theorem splitSliceBy_recordedAdd (total min max : UInt32) :
    (splitSliceBy recordedAdd total min max []).1 = splitSlice total min max := by
  unfold splitSliceBy splitSlice
  split
  · rfl
  · show (fun r : (List Range × UInt32) × List (UInt32 × UInt32) =>
        some (if r.1.2 < total then r.1.1 ++ [⟨r.1.2, total⟩] else r.1.1))
      (sliceLoopBy recordedAdd (sliceSize total min max) (total / sliceSize total min max).toNat 0 0
        [(total / max, 1)]) = _
    rw [sliceLoopBy_recordedAdd]

theorem sliceAdditions_eq {total min max : UInt32} (hmin : min ≠ 0) (hmax : max ≠ 0) :
    sliceAdditions total min max = (total / max, 1) ::
      loopAdditions (sliceSize total min max) (total / sliceSize total min max).toNat 0 0 := by
  unfold sliceAdditions splitSliceBy
  rw [if_neg (not_or.mpr ⟨hmax, hmin⟩)]
  show (sliceLoopBy recordedAdd (sliceSize total min max) (total / sliceSize total min max).toNat 0 0
    [(total / max, 1)]).2 = _
  rw [sliceLoopBy_recordedAdd]
  rfl

/-- No sum of the loop wraps where its end is in range. -/
theorem loopAdditions_exact (avg : UInt32) (n : Nat) (i tmpIndex : UInt32) (hi : i.toNat + n < 2 ^ 32)
    (h : tmpIndex.toNat + n * avg.toNat < 2 ^ 32) :
    ∀ p ∈ loopAdditions avg n i tmpIndex, p.1.toNat + p.2.toNat < 2 ^ 32 := by
  induction n generalizing i tmpIndex with
  | zero => simp [loopAdditions]
  | succ n ih =>
    rw [Nat.succ_mul] at h
    have hone : (1 : UInt32).toNat = 1 := rfl
    have hadd : (tmpIndex + avg).toNat = tmpIndex.toNat + avg.toNat := toNat_add_of_lt (by omega)
    have hsucc : (i + 1).toNat = i.toNat + 1 := toNat_add_of_lt (by omega)
    intro p hp
    rcases List.mem_cons.mp hp with rfl | hp
    · show tmpIndex.toNat + avg.toNat < 2 ^ 32
      omega
    rcases List.mem_cons.mp hp with rfl | hp
    · show i.toNat + (1 : UInt32).toNat < 2 ^ 32
      omega
    · exact ih (i + 1) (tmpIndex + avg) (by omega) (by omega) p hp

/-! ## The ranges -/

section
variable {total min max : UInt32}

theorem min_le_sliceSize : min.toNat ≤ (sliceSize total min max).toNat := by
  simp only [sliceSize]
  split
  · exact Nat.le_refl _
  · rename_i hle
    exact UInt32.not_lt.mp hle

/-- The size is more than the quotient, where the sum does not wrap. -/
theorem div_lt_sliceSize (htotal : total.toNat + 1 < 2 ^ 32) : total.toNat / max.toNat < (sliceSize total min max).toNat := by
  have hdiv := Nat.div_le_self total.toNat max.toNat
  have hone : (1 : UInt32).toNat = 1 := rfl
  have hsum : (total / max + 1).toNat = total.toNat / max.toNat + 1 := by
    rw [← UInt32.toNat_div] at hdiv ⊢
    exact toNat_add_of_lt (by omega)
  simp only [sliceSize]
  split
  · rename_i hlt
    have hlt' : (total / max + 1).toNat < min.toNat := hlt
    omega
  · omega

theorem fullSlices_lt (hmin : min ≠ 0) (hmax : max ≠ 0) (htotal : total.toNat + 1 < 2 ^ 32) :
    (total / sliceSize total min max).toNat < max.toNat := by
  have hpos : 0 < max.toNat := Nat.pos_of_ne_zero fun h0 => hmax (UInt32.toNat.inj h0)
  rw [UInt32.toNat_div, Nat.div_lt_iff_lt_mul (sliceSize_pos hmin), Nat.mul_comm, ← Nat.div_lt_iff_lt_mul hpos]
  exact div_lt_sliceSize htotal

theorem fullSlices_mul_le (total min max : UInt32) :
    (total / sliceSize total min max).toNat * (sliceSize total min max).toNat ≤ total.toNat := by
  rw [UInt32.toNat_div]
  exact Nat.div_mul_le_self _ _

theorem sliceAdditions_exact (hmin : min ≠ 0) (hmax : max ≠ 0) (htotal : total.toNat + 1 < 2 ^ 32) :
    ∀ p ∈ sliceAdditions total min max, p.1.toNat + p.2.toNat < 2 ^ 32 := by
  intro p hp
  have hzero : (0 : UInt32).toNat = 0 := rfl
  rw [sliceAdditions_eq hmin hmax] at hp
  rcases List.mem_cons.mp hp with rfl | hp
  · have hdiv := Nat.div_le_self total.toNat max.toNat
    show (total / max).toNat + (1 : UInt32).toNat < 2 ^ 32
    rw [UInt32.toNat_div]
    exact Nat.lt_of_le_of_lt (Nat.add_le_add_right hdiv 1) htotal
  · have hfull := fullSlices_lt hmin hmax htotal
    have hmul := fullSlices_mul_le total min max
    have hlt := max.toNat_lt
    exact loopAdditions_exact _ _ 0 0 (by omega) (by omega) p hp

/-- The last range may be the short one that the loop leaves. -/
theorem splitSlice_shape {ranges : List Range} (h : splitSlice total min max = some ranges) :
    let full := (sliceLoop (sliceSize total min max) (total / sliceSize total min max).toNat 0).1
    ranges = full ∨ ∃ r, ranges = full ++ [r] := by
  simp only [splitSlice] at h
  split at h
  · cases h
  cases h
  split
  · exact .inr ⟨_, rfl⟩
  · exact .inl rfl

theorem splitSlice_count {ranges : List Range} (hmin : min ≠ 0) (hmax : max ≠ 0) (htotal : total.toNat + 1 < 2 ^ 32)
    (h : splitSlice total min max = some ranges) : ranges.length ≤ max.toNat := by
  have hfull := fullSlices_lt hmin hmax htotal
  rcases splitSlice_shape h with rfl | ⟨r, rfl⟩
  · rw [length_sliceLoop]
    exact Nat.le_of_lt hfull
  · rw [List.length_append, length_sliceLoop]
    exact hfull

theorem splitSlice_sizes {ranges : List Range} (h : splitSlice total min max = some ranges) :
    ∀ r ∈ ranges.dropLast, r.last.toNat = r.first.toNat + (sliceSize total min max).toNat := by
  have hmul := fullSlices_mul_le total min max
  have hlt := total.toNat_lt
  have hzero : (0 : UInt32).toNat = 0 := rfl
  have huniform := sliceLoop_uniform (sliceSize total min max) (total / sliceSize total min max).toNat 0 (by omega)
  intro r hr
  rcases splitSlice_shape h with rfl | ⟨last, rfl⟩
  · exact huniform r (List.mem_of_mem_dropLast hr)
  · rw [List.dropLast_concat] at hr
    exact huniform r hr

theorem splitSlice_partition {ranges : List Range} (hmin : min ≠ 0) (hmax : max ≠ 0) (htotal : total.toNat + 1 < 2 ^ 32)
    (h : splitSlice total min max = some ranges) : ExactPartition total min max ranges where
  contiguous := splitSlice_covers h
  disjoint := (splitSlice_covers h).pairwise
  nonempty := fun r hr => (splitSlice_within h r hr).1
  count := splitSlice_count hmin hmax htotal h
  sizes := ⟨(sliceSize total min max).toNat, min_le_sliceSize, splitSlice_sizes h⟩

end

/-- Slicing is an exact partition, and none of its sums wraps: those that are written down
    by a call which is otherwise the same. -/
theorem slices_partition (total min max : UInt32) (sliceVec : List Range) :
    (min ≠ 0 → max ≠ 0 → total.toNat ≤ 2 ^ 32 - 2 →
      (∃ ranges, appendSlices sliceVec total min max = (true, sliceVec ++ ranges) ∧
        ExactPartition total min max ranges) ∧
      ∀ p ∈ sliceAdditions total min max, p.1.toNat + p.2.toNat < 2 ^ 32) ∧
    (min = 0 ∨ max = 0 → appendSlices sliceVec total min max = (false, sliceVec)) ∧
    (splitSliceBy recordedAdd total min max []).1 = splitSlice total min max := by
  refine ⟨fun hmin hmax hle => ?_, fun h => ?_, splitSliceBy_recordedAdd total min max⟩
  · have htotal : total.toNat + 1 < 2 ^ 32 := by omega
    obtain ⟨ranges, hr⟩ := Option.isSome_iff_exists.mp (splitSlice_isSome.mpr ⟨hmin, hmax⟩)
    refine ⟨⟨ranges, ?_, splitSlice_partition hmin hmax htotal hr⟩, sliceAdditions_exact hmin hmax htotal⟩
    simp only [appendSlices, hr]
  · have hnone : splitSlice total min max = none := if_pos h.symm
    simp only [appendSlices, hnone]

/-- The remainder is a range of its own. -/
theorem slices_partition_ten :
    appendSlices [] 10 2 3 = (true, [⟨0, 4⟩, ⟨4, 8⟩, ⟨8, 10⟩]) ∧
      (∃ ranges, appendSlices [] 10 2 3 = (true, [] ++ ranges) ∧ ExactPartition 10 2 3 ranges) ∧
      appendSlices [⟨0, 1⟩] 10 0 3 = (false, [⟨0, 1⟩]) :=
  ⟨by decide +kernel, ((slices_partition 10 2 3 []).1 (by decide) (by decide) (by decide)).1,
    (slices_partition 10 0 3 [⟨0, 1⟩]).2.1 (.inl rfl)⟩

end PredictorService.Server.PredictorRouter
