/-
  PredictorService.Server.SplitRequest — what splitting a request keeps.

  The ranges of `split_slice` follow each other and end at the item count (`Covers`), so
  the slices hold every item (`flatMap_sliceItems`). Combining the responses takes, for a
  model and an item, the first result there is (`resultOf_combine`). When the result of an
  item depends only on the item and the common features, it does not matter which slice
  brings it, nor when.
-/

import PredictorService.Lib.MachineInts
import PredictorService.Server.ModelManagerProofs
import PredictorService.Server.PredictorRouter

namespace PredictorService.Server.PredictorRouter

open Std (ExtTreeMap)
open PredictorService.Lib
open PredictorService.Lib.Futures

variable {F R V : Type}

/-! ## Ranges -/

/-- The ranges follow each other from `a` to `b`. -/
def Covers : List Range → Nat → Nat → Prop
  | [], a, b => a = b
  | r :: rs, a, b => r.first.toNat = a ∧ a ≤ r.last.toNat ∧ Covers rs r.last.toNat b

theorem Covers.le {rs : List Range} {a b : Nat} (h : Covers rs a b) : a ≤ b := by
  induction rs generalizing a with
  | nil => exact Nat.le_of_eq h
  | cons r rs ih => exact Nat.le_trans h.2.1 (ih h.2.2)

theorem Covers.snoc {rs : List Range} {a b : Nat} {r : Range} (h : Covers rs a b) (hr : r.first.toNat = b)
    (hle : b ≤ r.last.toNat) : Covers (rs ++ [r]) a r.last.toNat := by
  induction rs generalizing a with
  | nil =>
    cases h
    exact ⟨hr, hle, rfl⟩
  | cons r' rs ih => exact ⟨h.1, h.2.1, ih h.2.2⟩

theorem sliceLoop_covers (avg : UInt32) (n : Nat) (tmpIndex : UInt32)
    (h : tmpIndex.toNat + n * avg.toNat < 2 ^ 32) :
    Covers (sliceLoop avg n tmpIndex).1 tmpIndex.toNat (sliceLoop avg n tmpIndex).2.toNat ∧
      (sliceLoop avg n tmpIndex).2.toNat = tmpIndex.toNat + n * avg.toNat := by
  induction n generalizing tmpIndex with
  | zero => simp [sliceLoop, Covers]
  | succ n ih =>
    rw [Nat.succ_mul] at h
    have hadd : (tmpIndex + avg).toNat = tmpIndex.toNat + avg.toNat := toNat_add_of_lt (by omega)
    obtain ⟨hcov, hend⟩ := ih (tmpIndex + avg) (by omega)
    refine ⟨⟨rfl, ?_, hcov⟩, ?_⟩
    · show tmpIndex.toNat ≤ (tmpIndex + avg).toNat
      omega
    · show (sliceLoop avg n (tmpIndex + avg)).2.toNat = _
      rw [hend, Nat.succ_mul]
      omega

theorem sliceSize_pos {total min max : UInt32} (h : min ≠ 0) : 0 < (sliceSize total min max).toNat := by
  have hmin : 0 < min.toNat := Nat.pos_of_ne_zero fun h0 => h (UInt32.toNat.inj h0)
  simp only [sliceSize]
  split
  · exact hmin
  · rename_i hle
    exact Nat.lt_of_lt_of_le hmin (UInt32.not_lt.mp hle)

theorem splitSlice_covers {total min max : UInt32} {rs : List Range} (h : splitSlice total min max = some rs) :
    Covers rs 0 total.toNat := by
  simp only [splitSlice] at h
  split at h
  · cases h
  rename_i hne
  have hpos : 0 < (sliceSize total min max).toNat := sliceSize_pos fun h0 => hne (.inr h0)
  generalize sliceSize total min max = avg at h hpos
  have hdiv : (total / avg).toNat * avg.toNat ≤ total.toNat := by
    rw [UInt32.toNat_div]
    exact Nat.div_mul_le_self _ _
  have htotal := total.toNat_lt
  have h0 : (0 : UInt32).toNat = 0 := rfl
  obtain ⟨hcov, hend⟩ := sliceLoop_covers avg (total / avg).toNat 0 (by omega)
  cases h
  split
  · rename_i hlt
    exact hcov.snoc rfl (Nat.le_of_lt hlt)
  · rename_i hge
    have hle : total.toNat ≤ (sliceLoop avg (total / avg).toNat 0).2.toNat := UInt32.not_lt.mp hge
    have heq : (sliceLoop avg (total / avg).toNat 0).2.toNat = total.toNat := by omega
    rw [← heq]
    exact hcov

/-- The slices of consecutive ranges are consecutive. -/
theorem flatMap_sliceItems {rs : List Range} {a b : Nat} (h : Covers rs a b) {A : Type} (l : List (Int64 × A)) :
    rs.flatMap (sliceItems l) = (l.drop a).take (b - a) := by
  induction rs generalizing a with
  | nil =>
    cases h
    simp
  | cons r rs ih =>
    obtain ⟨rfl, hle, hrest⟩ := h
    rw [List.flatMap_cons, ih hrest, sliceItems]
    have hsplit : b - r.first.toNat = (r.last.toNat - r.first.toNat) + (b - r.last.toNat) := by
      have := hrest.le
      omega
    rw [hsplit, List.take_add, List.drop_drop]
    congr 3
    omega

/-- Every item stands in some slice. -/
theorem exists_slice {flags : Flags} {items : ExtTreeMap Int64 F} {ranges : List Range}
    (hsplit : splitRanges flags items.size = some ranges) (hsize : items.size < 2 ^ 32) {id : Int64} {x : F}
    (hx : items[id]? = some x) : ∃ range ∈ ranges, (id, x) ∈ sliceItems items.toList range := by
  unfold splitRanges at hsplit
  split at hsplit
  · cases hsplit
  have hcov := splitSlice_covers hsplit
  have hlen : (UInt32.ofNat items.size).toNat = items.toList.length := by
    rw [UInt32.toNat_ofNat', ExtTreeMap.length_toList]
    exact Nat.mod_eq_of_lt hsize
  have hall := flatMap_sliceItems hcov items.toList
  rw [hlen, Nat.sub_zero, List.drop_zero, List.take_length] at hall
  have hmem : (id, x) ∈ ranges.flatMap (sliceItems items.toList) := by
    rw [hall]
    exact ExtTreeMap.mem_toList_iff_getElem?_eq_some.mpr hx
  exact List.mem_flatMap.mp hmem

theorem mem_of_mem_sliceItems {l : List (Int64 × F)} {range : Range} {x : Int64 × F} (h : x ∈ sliceItems l range) :
    x ∈ l := List.mem_of_mem_drop (List.mem_of_mem_take h)

theorem exists_index_of_mem_sliceItems {l : List (Int64 × F)} {range : Range} {x : Int64 × F}
    (h : x ∈ sliceItems l range) : ∃ k, range.first.toNat ≤ k ∧ k < range.last.toNat ∧ l[k]? = some x := by
  obtain ⟨k, hk⟩ := List.mem_iff_getElem?.mp h
  rw [sliceItems, List.getElem?_take, List.getElem?_drop] at hk
  split at hk
  · exact ⟨range.first.toNat + k, by omega, by omega, hk⟩
  · cases hk

/-- The items of a slice are those of its range. -/
theorem getElem?_sliceRequest {request : MultiPredictRequest F} {range : Range} {id : Int64} {x : F} :
    (sliceRequest request range).singleRequest.itemFeatures[id]? = some x ↔
      (id, x) ∈ sliceItems request.singleRequest.itemFeatures.toList range := by
  refine emplaceAll_eq_some_iff ?_
  intro p hp q hq
  exact functional_toList _ p (mem_of_mem_sliceItems hp) q (mem_of_mem_sliceItems hq)

/-! ## Combining -/

/-- The result of an item under a model. -/
def resultOf (m : ExtTreeMap String (PredictResponse R)) (n : String) (id : Int64) : Option R :=
  m[n]?.bind (·.resultsMap[id]?)

/-- The results of a model. -/
def resultsOf (m : ExtTreeMap String (PredictResponse R)) (n : String) : Option (ExtTreeMap Int64 R) :=
  m[n]?.map fun r => r.resultsMap

/-- What one entry of a response has for it. -/
def entryResult (n : String) (id : Int64) (p : String × PredictResponse R) : Option R :=
  if p.1 = n then p.2.resultsMap[id]? else none

theorem getElem?_combineModelResponse (m : ExtTreeMap String (PredictResponse R)) (p : String × PredictResponse R)
    (n : String) :
    (combineModelResponse m p)[n]? =
      if p.1 = n then
        some ⟨p.2.reqId, emplaceAll (m.getD n ⟨"", ∅⟩).resultsMap p.2.resultsMap.toList⟩
      else m[n]? := by
  simp only [combineModelResponse, ExtTreeMap.getElem?_insert, Std.compare_eq_iff_eq]
  split
  · rename_i h
    subst h
    rfl
  · rfl

theorem resultOf_combineModelResponse (m : ExtTreeMap String (PredictResponse R)) (p : String × PredictResponse R)
    (n : String) (id : Int64) :
    resultOf (combineModelResponse m p) n id = (resultOf m n id).or (entryResult n id p) := by
  simp only [resultOf, entryResult, getElem?_combineModelResponse]
  split
  · rw [Option.bind_some, getElem?_emplaceAll_toList, ExtTreeMap.getD_eq_getD_getElem?]
    cases m[n]? <;> simp
  · simp

theorem resultOf_combine (m : ExtTreeMap String (PredictResponse R)) (l : List (String × PredictResponse R))
    (n : String) (id : Int64) :
    resultOf (l.foldl combineModelResponse m) n id = (resultOf m n id).or (l.findSome? (entryResult n id)) := by
  induction l generalizing m with
  | nil => simp
  | cons p l ih =>
    rw [List.foldl_cons, ih, resultOf_combineModelResponse, List.findSome?_cons]
    cases resultOf m n id <;> cases entryResult n id p <;> rfl

theorem mem_combine {m : ExtTreeMap String (PredictResponse R)} {l : List (String × PredictResponse R)} {n : String} :
    n ∈ l.foldl combineModelResponse m ↔ n ∈ m ∨ n ∈ l.map (·.1) := by
  induction l generalizing m with
  | nil => simp
  | cons p l ih =>
    rw [List.foldl_cons, ih]
    simp only [combineModelResponse, ExtTreeMap.mem_insert, Std.compare_eq_iff_eq, List.map_cons, List.mem_cons]
    grind

/-- The entries of the responses that arrived. -/
def answered (futs : List (Except Exn (MultiPredictResponse R))) : List (String × PredictResponse R) :=
  futs.flatMap fun fut =>
    match fut with
    | .ok slice => slice.modelResponses.toList
    | .error _ => []

theorem combined_modelResponses (combined : MultiPredictResponse R) (futs : List (Except Exn (MultiPredictResponse R))) :
    (getAndCombineMultiPredictResponse combined futs).modelResponses =
      (answered futs).foldl combineModelResponse combined.modelResponses := by
  induction futs generalizing combined with
  | nil => rfl
  | cons fut futs ih =>
    rw [getAndCombineMultiPredictResponse, List.foldl_cons]
    refine (ih _).trans ?_
    cases fut with
    | error e => rfl
    | ok slice =>
      have hcons : answered (.ok slice :: futs) = slice.modelResponses.toList ++ answered futs := rfl
      rw [hcons, List.foldl_append]
      show (answered futs).foldl combineModelResponse (if slice.modelResponses.isEmpty then combined
        else combineMultiPredictResponse combined slice).modelResponses = _
      by_cases he : slice.modelResponses.isEmpty
      · have hnil : slice.modelResponses.toList = [] := by simpa using he
        rw [if_pos he, hnil, List.foldl_nil]
      · rw [if_neg he]
        rfl

/-! ## The tasks of the slices -/

theorem checkResults_ok_iff {vs : List (Try Exn Bool)} :
    checkResults vs = .ok () ↔ ∀ v ∈ vs, v.hasException = false := by
  induction vs with
  | nil => simp [checkResults]
  | cons v vs ih =>
    cases v with
    | ok a =>
      show checkResults vs = .ok () ↔ _
      rw [ih]
      simp
    | error e =>
      have herr : checkResults (.error e :: vs) = .error e := rfl
      simp [herr]

/-- The send of a slice throws. -/
def Throws (request : MultiPredictRequest F) (range : Range) (w : Network F R) : Prop :=
  ∃ e, w (sliceRequest request range) = .threw e

theorem sendSlice_hasException {request : MultiPredictRequest F} {range : Range} {w : Network F R} :
    (sendSlice request range w).hasException = false ↔ ¬ Throws request range w := by
  unfold sendSlice Throws
  split <;> simp [*]

theorem mem_sliceFuture {request : MultiPredictRequest F} {range : Range} {w : Network F R}
    {fut : Except Exn (MultiPredictResponse R)} :
    fut ∈ sliceFuture request range w ↔ w (sliceRequest request range) = .future fut := by
  unfold sliceFuture
  split
  · rename_i h
    rw [h, List.mem_singleton, Sent.future.injEq]
    exact eq_comm
  · rename_i hne
    simp only [List.not_mem_nil, false_iff]
    exact hne fut

/-- What is left once all slices' tasks have completed. -/
def combineSlices (request : MultiPredictRequest F) (futs : List (Except Exn (MultiPredictResponse R))) :
    MultiPredictResponse R :=
  let response := getAndCombineMultiPredictResponse {} futs
  if request.singleRequest.itemFeatures.size = 0 then response else touchModels response request.modelNames

section Split

variable {services : Option (ExtTreeMap String String)} {flags : Flags} {send : Network F R}
  {request request' : MultiPredictRequest F} {ranges : List Range} {ws : List (Network F R)}
  {completed : List (Nat × Network F R)}

/-- The request is split into these ranges, with its service's name in it. -/
structure Splits (services : Option (ExtTreeMap String String)) (flags : Flags) (request request' : MultiPredictRequest F)
    (ranges : List Range) : Prop where
  routed : routed services request = some request'
  predicts : isFeatureRecord request' = false
  ranges : splitRanges flags request'.singleRequest.itemFeatures.size = some ranges

variable (send) in
/-- The call ends when the slices' tasks have completed. -/
theorem split_ends (hs : Splits services flags request request' ranges) (hc : Completes ranges ws completed) :
    ∃ result, multiPredictSplitRequest services flags send request completed = some result := by
  have hbatch := run_perm (sendSlice request') (sliceFuture request') ranges hc
  simp only [multiPredictSplitRequest, hs.routed, hs.predicts, hs.ranges, hbatch, Option.bind_eq_bind, Option.bind_some,
    collectAll_all, Bool.false_eq_true, if_false]
  exact ⟨_, rfl⟩

theorem split_ok_iff (hs : Splits services flags request request' ranges) (hc : Completes ranges ws completed)
    {out : MultiPredictResponse R} :
    multiPredictSplitRequest services flags send request completed = some (.ok out) ↔
      (∀ p ∈ ranges.zip ws, ¬ Throws request' p.1 p.2) ∧
      out = combineSlices request' (completed.flatMap (pushedBy (sliceFuture request') ranges)) := by
  have hbatch := run_perm (sendSlice request') (sliceFuture request') ranges hc
  simp only [multiPredictSplitRequest, hs.routed, hs.predicts, hs.ranges, hbatch, Option.bind_eq_bind, Option.bind_some,
    collectAll_all, Bool.false_eq_true, if_false]
  have hcheck : checkResults (outcomes (sendSlice request') ranges ws) = .ok () ↔
      ∀ p ∈ ranges.zip ws, ¬ Throws request' p.1 p.2 := by
    rw [checkResults_ok_iff, forall_outcomes]
    simp only [sendSlice_hasException]
  rw [← hcheck]
  cases checkResults (outcomes (sendSlice request') ranges ws) with
  | error e => simp [bind, Except.bind, pure]
  | ok u =>
    simp only [bind, Except.bind, pure, Except.pure, true_and, combineSlices]
    split <;> simp [eq_comm]

end Split

/-! ## Results of the combined response -/

theorem exists_entryResult {m : ExtTreeMap String (PredictResponse R)} {n : String} {id : Int64} {x : R} :
    (∃ p ∈ m.toList, entryResult n id p = some x) ↔ resultOf m n id = some x := by
  simp only [entryResult, resultOf, Option.bind_eq_some_iff]
  constructor
  · intro h
    obtain ⟨p, hp, hx⟩ := h
    split at hx
    · rename_i hn
      subst hn
      exact ⟨p.2, ExtTreeMap.mem_toList_iff_getElem?_eq_some.mp hp, hx⟩
    · cases hx
  · intro h
    obtain ⟨r, hr, hx⟩ := h
    exact ⟨(n, r), ExtTreeMap.mem_toList_iff_getElem?_eq_some.mpr hr, by simpa using hx⟩

theorem exists_answered {futs : List (Except Exn (MultiPredictResponse R))} {n : String} {id : Int64} {x : R} :
    (∃ p ∈ answered futs, entryResult n id p = some x) ↔
      ∃ slice, .ok slice ∈ futs ∧ resultOf slice.modelResponses n id = some x := by
  simp only [answered, List.mem_flatMap]
  constructor
  · intro h
    obtain ⟨p, ⟨fut, hfut, hp⟩, hx⟩ := h
    cases fut with
    | error e => simp at hp
    | ok slice => exact ⟨slice, hfut, exists_entryResult.mp ⟨p, hp, hx⟩⟩
  · intro h
    obtain ⟨slice, hslice, hx⟩ := h
    obtain ⟨p, hp, hx⟩ := exists_entryResult.mpr hx
    exact ⟨p, ⟨_, hslice, hp⟩, hx⟩

theorem touchModels_modelResponses (response : MultiPredictResponse R) (names : List String) :
    (touchModels response names).modelResponses = emplaceAll response.modelResponses (names.map fun n => (n, ⟨"", ∅⟩)) := by
  simp only [touchModels, emplaceAll, List.foldl_map]

/-- An entry without results has none. -/
theorem resultOf_touchModels (response : MultiPredictResponse R) (names : List String) (n : String) (id : Int64) :
    resultOf (touchModels response names).modelResponses n id = resultOf response.modelResponses n id := by
  rw [resultOf, touchModels_modelResponses, getElem?_emplaceAll, resultOf]
  cases hm : response.modelResponses[n]? with
  | some r => rfl
  | none =>
    rw [Option.none_or]
    cases hf : (names.map fun n => (n, (⟨"", ∅⟩ : PredictResponse R))).find? fun p => p.1 = n with
    | none => rfl
    | some p =>
      obtain ⟨_, -, rfl⟩ := List.mem_map.mp (List.mem_of_find?_eq_some hf)
      simp

/-- The combined response has the first result that there is. -/
theorem resultOf_combineSlices_eq (request : MultiPredictRequest F) (futs : List (Except Exn (MultiPredictResponse R)))
    (n : String) (id : Int64) :
    resultOf (combineSlices request futs).modelResponses n id = (answered futs).findSome? (entryResult n id) := by
  have hempty : resultOf (∅ : ExtTreeMap String (PredictResponse R)) n id = none := by simp [resultOf]
  have hall : resultOf (getAndCombineMultiPredictResponse {} futs).modelResponses n id =
      (answered futs).findSome? (entryResult n id) := by
    rw [combined_modelResponses, resultOf_combine, hempty, Option.none_or]
  simp only [combineSlices]
  split
  · exact hall
  · rw [resultOf_touchModels, hall]

theorem exists_of_resultOf_combineSlices {request : MultiPredictRequest F}
    {futs : List (Except Exn (MultiPredictResponse R))} {n : String} {id : Int64} {x : R}
    (h : resultOf (combineSlices request futs).modelResponses n id = some x) :
    ∃ slice, .ok slice ∈ futs ∧ resultOf slice.modelResponses n id = some x := by
  rw [resultOf_combineSlices_eq] at h
  exact exists_answered.mp (List.exists_of_findSome?_eq_some h)

/-- When the responses that arrived agree on a result, the combined response has it iff one
    of them does. -/
theorem resultOf_combineSlices {request : MultiPredictRequest F} {futs : List (Except Exn (MultiPredictResponse R))}
    {n : String} {id : Int64} {y : R}
    (hagree : ∀ slice, .ok slice ∈ futs → ∀ x, resultOf slice.modelResponses n id = some x → x = y) {x : R} :
    resultOf (combineSlices request futs).modelResponses n id = some x ↔
      ∃ slice, .ok slice ∈ futs ∧ resultOf slice.modelResponses n id = some x := by
  refine ⟨exists_of_resultOf_combineSlices, fun hx => ?_⟩
  obtain ⟨p, hp, hpx⟩ := exists_answered.mpr hx
  obtain ⟨slice, hslice, hres⟩ := hx
  rw [resultOf_combineSlices_eq]
  cases hf : (answered futs).findSome? (entryResult n id) with
  | none => rw [List.findSome?_eq_none_iff.mp hf p hp] at hpx; cases hpx
  | some z =>
    obtain ⟨slice', hslice', hres'⟩ := exists_answered.mp (List.exists_of_findSome?_eq_some hf)
    rw [hagree slice hslice x hres, hagree slice' hslice' z hres']

theorem mem_names_of_combineSlices {request : MultiPredictRequest F}
    {futs : List (Except Exn (MultiPredictResponse R))}
    (hnames : ∀ slice, .ok slice ∈ futs → ∀ n ∈ slice.modelResponses, n ∈ request.modelNames) {n : String}
    (hn : n ∈ (combineSlices request futs).modelResponses) : n ∈ request.modelNames := by
  have hcomb : n ∈ (getAndCombineMultiPredictResponse {} futs).modelResponses → n ∈ request.modelNames := by
    rw [combined_modelResponses, mem_combine]
    intro h
    rcases h with hn | hn
    · simp at hn
    · obtain ⟨p, hp, rfl⟩ := List.mem_map.mp hn
      obtain ⟨fut, hfut, hp⟩ := List.mem_flatMap.mp hp
      cases fut with
      | error e => simp at hp
      | ok slice =>
        refine hnames slice hfut p.1 ?_
        rw [ExtTreeMap.mem_iff_isSome_getElem?, ExtTreeMap.mem_toList_iff_getElem?_eq_some.mp hp]
        rfl
  unfold combineSlices at hn
  split at hn
  · exact hcomb hn
  · rw [touchModels_modelResponses, mem_emplaceAll] at hn
    rcases hn with hn | hn
    · exact hcomb hn
    · simpa using hn

theorem mem_combineSlices {request : MultiPredictRequest F} {futs : List (Except Exn (MultiPredictResponse R))}
    (hitems : 0 < request.singleRequest.itemFeatures.size)
    (hnames : ∀ slice, .ok slice ∈ futs → ∀ n ∈ slice.modelResponses, n ∈ request.modelNames) {n : String} :
    n ∈ (combineSlices request futs).modelResponses ↔ n ∈ request.modelNames := by
  refine ⟨mem_names_of_combineSlices hnames, ?_⟩
  intro hn
  have hne : request.singleRequest.itemFeatures.size ≠ 0 := by omega
  rw [combineSlices, if_neg hne, touchModels_modelResponses, mem_emplaceAll]
  right
  simpa using hn

/-! ## Agreement with the simple forward -/

/-- The backend answers every model it is asked for, and the result of an item depends on
    the item and the common features. -/
structure PerItem (backend : MultiPredictRequest F → MultiPredictResponse R) (f : String → F → F → Option R) : Prop where
  names : ∀ request n, n ∈ (backend request).modelResponses ↔ n ∈ request.modelNames
  results : ∀ request n id, n ∈ request.modelNames → resultOf (backend request).modelResponses n id =
    request.singleRequest.itemFeatures[id]?.bind fun x => f n x request.singleRequest.commonFeatures

/-- A call that succeeds brings the backend's response. -/
def Answers (backend : MultiPredictRequest F → MultiPredictResponse R) (w : Network F R) : Prop :=
  ∀ request response, w request = .future (.ok response) → response = backend request

/-- Every call succeeds. -/
def succeeding (backend : MultiPredictRequest F → MultiPredictResponse R) : Network F R :=
  fun request => .future (.ok (backend request))

section Agreement

variable {backend : MultiPredictRequest F → MultiPredictResponse R} {f : String → F → F → Option R}
  {request : MultiPredictRequest F} {range : Range} {n : String} {id : Int64} {x : R}

theorem PerItem.mem_of_result (hb : PerItem backend f) (h : resultOf (backend request).modelResponses n id = some x) :
    n ∈ request.modelNames := by
  obtain ⟨r, hr, -⟩ := Option.bind_eq_some_iff.mp h
  rw [← hb.names, ExtTreeMap.mem_iff_isSome_getElem?, hr]
  rfl

/-- A slice has the results of its own items. -/
theorem PerItem.slice_result (hb : PerItem backend f) :
    resultOf (backend (sliceRequest request range)).modelResponses n id = some x ↔
      n ∈ request.modelNames ∧ ∃ y, (id, y) ∈ sliceItems request.singleRequest.itemFeatures.toList range ∧
        f n y request.singleRequest.commonFeatures = some x := by
  constructor
  · intro h
    have hn := hb.mem_of_result h
    rw [hb.results _ _ _ hn, Option.bind_eq_some_iff] at h
    obtain ⟨y, hy, hx⟩ := h
    exact ⟨hn, y, getElem?_sliceRequest.mp hy, hx⟩
  · intro h
    obtain ⟨hn, y, hy, hx⟩ := h
    rw [hb.results (sliceRequest request range) n id hn, getElem?_sliceRequest.mpr hy]
    exact hx

/-- So a slice agrees with the whole request. -/
theorem PerItem.slice_agrees (hb : PerItem backend f)
    (h : resultOf (backend (sliceRequest request range)).modelResponses n id = some x) :
    resultOf (backend request).modelResponses n id = some x := by
  obtain ⟨hn, y, hy, hx⟩ := hb.slice_result.mp h
  rw [hb.results request n id hn, ExtTreeMap.mem_toList_iff_getElem?_eq_some.mp (mem_of_mem_sliceItems hy)]
  exact hx

variable {services : Option (ExtTreeMap String String)} {flags : Flags} {send : Network F R}
  {request' : MultiPredictRequest F} {ranges : List Range} {ws : List (Network F R)}
  {completed : List (Nat × Network F R)}

/-- The responses that arrived. -/
theorem mem_futs (hc : Completes ranges ws completed) (hans : ∀ w ∈ ws, Answers backend w)
    {slice : MultiPredictResponse R} :
    .ok slice ∈ completed.flatMap (pushedBy (sliceFuture request) ranges) ↔
      ∃ p ∈ ranges.zip ws, p.2 (sliceRequest request p.1) = .future (.ok slice) ∧
        slice = backend (sliceRequest request p.1) := by
  rw [mem_pushed _ _ hc]
  simp only [mem_sliceFuture]
  constructor
  · intro h
    obtain ⟨p, hp, hfut⟩ := h
    exact ⟨p, hp, hfut, hans p.2 (List.of_mem_zip hp).2 _ _ hfut⟩
  · intro h
    obtain ⟨p, hp, hfut, -⟩ := h
    exact ⟨p, hp, hfut⟩

/-- The combined response has an entry for each model, and the results of the slices that
    succeeded. -/
theorem combineSlices_spec (hb : PerItem backend f) (hc : Completes ranges ws completed)
    (hans : ∀ w ∈ ws, Answers backend w) (hitems : 0 < request.singleRequest.itemFeatures.size)
    {out : MultiPredictResponse R}
    (hout : out = combineSlices request (completed.flatMap (pushedBy (sliceFuture request) ranges))) :
    (∀ n, n ∈ out.modelResponses ↔ n ∈ request.modelNames) ∧
      ∀ n id x, resultOf out.modelResponses n id = some x ↔
        ∃ p ∈ ranges.zip ws, ∃ slice, p.2 (sliceRequest request p.1) = .future (.ok slice) ∧
          resultOf slice.modelResponses n id = some x := by
  subst hout
  refine ⟨fun n => mem_combineSlices hitems ?_, ?_⟩
  · intro slice hslice n hn
    obtain ⟨p, -, -, rfl⟩ := (mem_futs hc hans).mp hslice
    exact (hb.names (sliceRequest request p.1) n).mp hn
  · intro n id x
    have hfuts : (∃ slice, .ok slice ∈ completed.flatMap (pushedBy (sliceFuture request) ranges) ∧
        resultOf slice.modelResponses n id = some x) ↔
        ∃ p ∈ ranges.zip ws, ∃ slice, p.2 (sliceRequest request p.1) = .future (.ok slice) ∧
          resultOf slice.modelResponses n id = some x := by
      simp only [mem_futs hc hans]
      constructor
      · intro h
        obtain ⟨slice, ⟨p, hp, hfut, -⟩, hx⟩ := h
        exact ⟨p, hp, slice, hfut, hx⟩
      · intro h
        obtain ⟨p, hp, slice, hfut, hx⟩ := h
        exact ⟨slice, ⟨p, hp, hfut, hans p.2 (List.of_mem_zip hp).2 _ _ hfut⟩, hx⟩
    rw [← hfuts]
    by_cases hsome : ∃ y, resultOf (backend request).modelResponses n id = some y
    · obtain ⟨y, hy⟩ := hsome
      refine resultOf_combineSlices (y := y) ?_
      intro slice hslice z hz
      obtain ⟨p, -, -, rfl⟩ := (mem_futs hc hans).mp hslice
      have := hb.slice_agrees hz
      rw [hy] at this
      exact (Option.some_inj.mp this).symm
    · refine resultOf_combineSlices (y := x) ?_
      intro slice hslice z hz
      obtain ⟨p, -, -, rfl⟩ := (mem_futs hc hans).mp hslice
      exact absurd ⟨z, hb.slice_agrees hz⟩ hsome

theorem resultsOf_eq {m m' : ExtTreeMap String (PredictResponse R)} {n : String} (hmem : n ∈ m ↔ n ∈ m')
    (hres : ∀ id, resultOf m n id = resultOf m' n id) : resultsOf m n = resultsOf m' n := by
  unfold resultOf at hres
  unfold resultsOf
  rw [ExtTreeMap.mem_iff_isSome_getElem?, ExtTreeMap.mem_iff_isSome_getElem?] at hmem
  cases hm : m[n]? with
  | none =>
    cases hm' : m'[n]? with
    | none => rfl
    | some r' => simp [hm, hm'] at hmem
  | some r =>
    cases hm' : m'[n]? with
    | none => simp [hm, hm'] at hmem
    | some r' =>
      simp only [hm, hm', Option.bind_some] at hres
      rw [Option.map_some, Option.map_some, ExtTreeMap.ext_getElem? hres]

theorem routed_some (h : routed services request = some request') :
    ∃ option, setRequestOptionPredictorServiceName services request.requestOption request.modelNames = some option ∧
      request' = { request with requestOption := option } := by
  obtain ⟨option, hoption, rfl⟩ := Option.map_eq_some_iff.mp h
  exact ⟨option, hoption, rfl⟩

/-- Routing sets the service's name and nothing else. -/
theorem routed_keeps (h : routed services request = some request') :
    request'.singleRequest = request.singleRequest ∧ request'.modelNames = request.modelNames := by
  obtain ⟨option, -, rfl⟩ := routed_some h
  exact ⟨rfl, rfl⟩

/-- Setting the service's name twice is setting it once. -/
theorem setRequestOption_idem {option option' : RequestOption} {names : List String}
    (h : setRequestOptionPredictorServiceName services option names = some option') :
    setRequestOptionPredictorServiceName services option' names = some option' := by
  cases names with
  | nil => cases h
  | cons modelName names =>
    cases services with
    | none => cases h
    | some services =>
      simp only [setRequestOptionPredictorServiceName] at h ⊢
      cases hs : services[modelName]? with
      | none =>
        simp only [hs] at h ⊢
        split at h
        · cases h
        · cases h
          simpa
      | some service =>
        simp only [hs] at h ⊢
        split at h
        · cases h
        · cases h
          simpa

theorem routed_idem (h : routed services request = some request') : routed services request' = some request' := by
  obtain ⟨option, hoption, rfl⟩ := routed_some h
  simp [routed, setRequestOption_idem hoption]

theorem answers_succeeding : Answers backend (succeeding backend) := by
  intro request response h
  cases h
  rfl

/-- Where the request is split and every slice succeeds, the results are those of the
    whole request. -/
theorem split_agrees_of_splits (hb : PerItem backend f) (hs : Splits services flags request request' ranges)
    (hitems : 0 < request.singleRequest.itemFeatures.size) (hsize : request.singleRequest.itemFeatures.size < 2 ^ 32)
    (hc : Completes ranges (List.replicate ranges.length (succeeding backend)) completed) :
    ∃ out, multiPredictSplitRequest services flags send request completed = some (.ok out) ∧
      ∀ n, resultsOf out.modelResponses n = resultsOf (backend request').modelResponses n := by
  have hsingle := (routed_keeps hs.routed).1
  have hnet : ∀ w ∈ List.replicate ranges.length (succeeding backend), w = succeeding backend :=
    fun w hw => List.eq_of_mem_replicate hw
  have hans : ∀ w ∈ List.replicate ranges.length (succeeding backend), Answers backend w :=
    fun w hw => hnet w hw ▸ answers_succeeding
  rw [← hsingle] at hitems hsize
  obtain ⟨hnames, hres⟩ := combineSlices_spec hb hc hans hitems rfl
  refine ⟨_, (split_ok_iff hs hc).mpr ⟨?_, rfl⟩, fun n => resultsOf_eq ?_ fun id => Option.ext fun x => ?_⟩
  · intro p hp h
    obtain ⟨e, he⟩ := h
    rw [hnet p.2 (List.of_mem_zip hp).2] at he
    cases he
  · rw [hnames, hb.names]
  · rw [hres]
    constructor
    · intro h
      obtain ⟨p, hp, slice, hslice, hx⟩ := h
      rw [hans p.2 (List.of_mem_zip hp).2 _ _ hslice] at hx
      exact hb.slice_agrees hx
    · intro hx
      have hn := hb.mem_of_result hx
      rw [hb.results request' n id hn, Option.bind_eq_some_iff] at hx
      obtain ⟨y, hy, hx⟩ := hx
      -- the item stands in some slice, and that slice's call succeeded
      obtain ⟨range, hrange, hmem⟩ := exists_slice hs.ranges hsize hy
      obtain ⟨i, hi⟩ := List.mem_iff_getElem?.mp hrange
      have hlt := (List.getElem?_eq_some_iff.mp hi).1
      have hzip : (range, succeeding backend) ∈ ranges.zip (List.replicate ranges.length (succeeding backend)) :=
        List.mem_iff_getElem?.mpr ⟨i, List.getElem?_zip_eq_some.mpr ⟨hi, by simp [hlt]⟩⟩
      exact ⟨_, hzip, _, rfl, hb.slice_result.mpr ⟨hn, y, hmem, hx⟩⟩

theorem split_agrees (hb : PerItem backend f) (hitems : 0 < request.singleRequest.itemFeatures.size)
    (hsize : request.singleRequest.itemFeatures.size < 2 ^ 32)
    (hc : Completes (sliceTasks services flags request)
      (List.replicate (sliceTasks services flags request).length (succeeding backend)) completed) :
    ∃ out out', multiPredictSplitRequest services flags (succeeding backend) request completed = some (.ok out) ∧
      multiPredictSimpleForward services (succeeding backend) request = .ok out' ∧
      ∀ n, resultsOf out.modelResponses n = resultsOf out'.modelResponses n := by
  cases hr : routed services request with
  | none => exact ⟨{}, {}, by simp [multiPredictSplitRequest, hr], by simp [multiPredictSimpleForward, hr], fun _ => rfl⟩
  | some request' =>
    by_cases hf : isFeatureRecord request'
    · refine ⟨{}, {}, ?_, ?_, fun _ => rfl⟩
      · simp [multiPredictSplitRequest, hr, hf, sendFeatureRecordRequest, succeeding]
      · simp [multiPredictSimpleForward, hr, hf, sendFeatureRecordRequest, succeeding]
    · have hsimple : ∀ r, routed services r = some request' →
          multiPredictSimpleForward services (succeeding backend) r = .ok (backend request') := by
        intro r hr
        simp [multiPredictSimpleForward, hr, hf, succeeding]
      cases hsplit : splitRanges flags request'.singleRequest.itemFeatures.size with
      | none =>
        refine ⟨backend request', backend request', ?_, hsimple _ hr, fun _ => rfl⟩
        simp [multiPredictSplitRequest, hr, hf, hsplit, hsimple _ (routed_idem hr)]
      | some ranges =>
        have htasks : sliceTasks services flags request = ranges := by simp [sliceTasks, hr, hf, hsplit]
        rw [htasks] at hc
        obtain ⟨out, hout, hres⟩ := split_agrees_of_splits hb ⟨hr, by simpa using hf, hsplit⟩ hitems hsize hc
        exact ⟨out, _, hout, hsimple _ hr, hres⟩

end Agreement

/-! ## A backend for examples -/

/-- The result of an item is the item. -/
def echo (request : MultiPredictRequest F) : MultiPredictResponse F :=
  { reqId := request.reqId
    modelResponses := emplaceAll ∅ (request.modelNames.map fun n =>
      (n, { reqId := request.reqId, resultsMap := request.singleRequest.itemFeatures })) }

theorem perItem_echo : PerItem (echo (F := F)) fun _ x _ => some x where
  names request n := by simp [echo, mem_emplaceAll]
  results request n id hn := by
    have hentry : (echo request).modelResponses[n]? =
        some { reqId := request.reqId, resultsMap := request.singleRequest.itemFeatures } := by
      refine (emplaceAll_eq_some_iff ?_).mpr (List.mem_map.mpr ⟨n, hn, rfl⟩)
      intro p hp q hq _
      obtain ⟨_, -, rfl⟩ := List.mem_map.mp hp
      obtain ⟨_, -, rfl⟩ := List.mem_map.mp hq
      rfl
    rw [resultOf, hentry]
    simp

/-- Two items, which are cut into two slices. -/
def twoItems : MultiPredictRequest Unit :=
  { reqId := "r", modelNames := ["tf_ctr_v1"], context := some ∅
    singleRequest := { itemFeatures := {(1, ()), (2, ())}, commonFeatures := () } }

def oneService : Option (ExtTreeMap String String) := some {("tf_ctr_v1", "ctr_service")}

def onePerSlice : Flags := { minItemsPerSlice := 1, maxItemsPerSlice := 1 }

/-- The request as it is sent. -/
def twoItemsRouted : MultiPredictRequest Unit := { twoItems with requestOption := { predictorServiceName := "ctr_service" } }

theorem twoItems_splits : Splits oneService onePerSlice twoItems twoItemsRouted [⟨0, 1⟩, ⟨1, 2⟩] where
  routed := by decide
  predicts := by decide
  ranges := by decide

theorem answers_pair {bad : Network Unit Unit} (hbad : ∀ request response, bad request ≠ .future (.ok response)) :
    ∀ w ∈ [bad, succeeding echo], Answers echo w := by
  intro w hw request response hfut
  rcases List.mem_pair.mp hw with rfl | rfl
  · exact absurd hfut (hbad request response)
  · exact answers_succeeding request response hfut

/-! ## Failing slices -/

/-- Splitting agrees with the simple forward where every call succeeds. Where some slices
    fail, the results of the others are combined, and every model has an entry, exactly
    when no slice fails by an exception of its send. -/
theorem split_combines_iff :
    (∀ (services : Option (ExtTreeMap String String)) (flags : Flags) (request : MultiPredictRequest F)
      (backend : MultiPredictRequest F → MultiPredictResponse R) (f : String → F → F → Option R)
      (completed : List (Nat × Network F R)), PerItem backend f →
      0 < request.singleRequest.itemFeatures.size → request.singleRequest.itemFeatures.size < 2 ^ 32 →
      Completes (sliceTasks services flags request)
        (List.replicate (sliceTasks services flags request).length (succeeding backend)) completed →
      ∃ out out', multiPredictSplitRequest services flags (succeeding backend) request completed = some (.ok out) ∧
        multiPredictSimpleForward services (succeeding backend) request = .ok out' ∧
        ∀ n, resultsOf out.modelResponses n = resultsOf out'.modelResponses n) ∧
    ∀ (services : Option (ExtTreeMap String String)) (flags : Flags) (send : Network F R)
      (request request' : MultiPredictRequest F) (ranges : List Range)
      (backend : MultiPredictRequest F → MultiPredictResponse R) (f : String → F → F → Option R)
      (ws : List (Network F R)) (completed : List (Nat × Network F R)),
      Splits services flags request request' ranges → PerItem backend f → (∀ w ∈ ws, Answers backend w) →
      0 < request.singleRequest.itemFeatures.size → Completes ranges ws completed →
      ((∃ out, multiPredictSplitRequest services flags send request completed = some (.ok out) ∧
          (∀ n, n ∈ out.modelResponses ↔ n ∈ request.modelNames) ∧
          ∀ n id x, resultOf out.modelResponses n id = some x ↔
            ∃ p ∈ ranges.zip ws, ∃ slice, p.2 (sliceRequest request' p.1) = .future (.ok slice) ∧
              resultOf slice.modelResponses n id = some x) ↔
        ∀ p ∈ ranges.zip ws, ¬ Throws request' p.1 p.2) := by
  refine ⟨?_, ?_⟩
  · intro services flags request backend f completed hb hitems hsize hc
    exact split_agrees hb hitems hsize hc
  · intro services flags send request request' ranges backend f ws completed hs hb hans hitems hc
    obtain ⟨hsingle, hnames⟩ := routed_keeps hs.routed
    rw [← hsingle] at hitems
    rw [← hnames]
    constructor
    · intro h
      obtain ⟨out, hout, -⟩ := h
      exact ((split_ok_iff hs hc).mp hout).1
    · intro hthrow
      exact ⟨_, (split_ok_iff hs hc).mpr ⟨hthrow, rfl⟩, combineSlices_spec hb hc hans hitems rfl⟩

theorem split_combines_two :
    (∃ out out', multiPredictSplitRequest oneService onePerSlice (succeeding echo) twoItems
        [(1, succeeding echo), (0, succeeding echo)] = some (.ok out) ∧
      multiPredictSimpleForward oneService (succeeding echo) twoItems = .ok out' ∧
      ∀ n, resultsOf out.modelResponses n = resultsOf out'.modelResponses n) ∧
    ∃ out, multiPredictSplitRequest oneService onePerSlice (succeeding echo) twoItems
        [(1, succeeding echo), (0, fun _ => .refused)] = some (.ok out) ∧
      ∀ n, n ∈ out.modelResponses ↔ n ∈ ["tf_ctr_v1"] := by
  refine ⟨?_, ?_⟩
  · exact split_combines_iff.1 oneService onePerSlice twoItems echo _ [(1, succeeding echo), (0, succeeding echo)]
      perItem_echo (by decide) (by decide) ⟨by decide, List.Perm.swap _ _ _⟩
  · obtain ⟨out, hout, hnames, -⟩ := (split_combines_iff.2 oneService onePerSlice (succeeding echo) twoItems
      twoItemsRouted _ echo _ [fun _ => .refused, succeeding echo] [(1, succeeding echo), (0, fun _ => .refused)]
      twoItems_splits perItem_echo (answers_pair nofun) (by decide)
      ⟨by decide, List.Perm.swap _ _ _⟩).mpr (by simp [Throws, succeeding])
    exact ⟨out, hout, hnames⟩

/-- The send of one slice throws, and nothing of the other slice is returned. -/
theorem throwing_slice_loses_response :
    ¬ ∀ (services : Option (ExtTreeMap String String)) (flags : Flags) (send : Network Unit Unit)
      (request request' : MultiPredictRequest Unit) (ranges : List Range)
      (backend : MultiPredictRequest Unit → MultiPredictResponse Unit) (f : String → Unit → Unit → Option Unit)
      (ws : List (Network Unit Unit)) (completed : List (Nat × Network Unit Unit)),
      Splits services flags request request' ranges → PerItem backend f → (∀ w ∈ ws, Answers backend w) →
      0 < request.singleRequest.itemFeatures.size → Completes ranges ws completed →
      ∃ out, multiPredictSplitRequest services flags send request completed = some (.ok out) ∧
        ∀ n, n ∈ out.modelResponses ↔ n ∈ request.modelNames := by
  intro h
  obtain ⟨out, hout, -⟩ := h oneService onePerSlice (succeeding echo) twoItems twoItemsRouted _ echo _
    [fun _ => .threw "folly::ConversionError", succeeding echo]
    [(1, succeeding echo), (0, fun _ => .threw "folly::ConversionError")] twoItems_splits perItem_echo (answers_pair nofun)
    (by decide)
    ⟨by decide, List.Perm.swap _ _ _⟩
  have hthrow : multiPredictSplitRequest oneService onePerSlice (succeeding echo) twoItems
      [(1, succeeding echo), (0, fun _ => .threw "folly::ConversionError")] =
      some (.error "folly::ConversionError") := by decide
  rw [hthrow] at hout
  cases hout

end PredictorService.Server.PredictorRouter
