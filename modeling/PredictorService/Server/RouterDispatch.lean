/-
  PredictorService.Server.RouterDispatch — what the router does with a request
  (`PredictorRouter::predict` and `multiPredict`), and how large its slices are.

  (1) Dispatch. A request without a context is forwarded. Otherwise the context's
  `router_op` says what to do, and it is read through the iterator that `find` returned,
  which is the end when there is no such key. An operation that is not known is dropped.
  So exactly one way of forwarding is taken, and nothing is read through the end, iff there
  is no context or its `router_op` is a known operation (`dispatches_iff`).

  (2) Slices. With `n / max + 1` threads a slice has `n / threads + 1` items, and that is at
  most `max` (`size_le_max`), so the slices of a request are as small as the flag asks for
  (`splitRanges_tiles`).
-/

import PredictorService.Server.ParallelPredict

namespace PredictorService.Server

open Std (ExtTreeMap)
open PredictorService.Lib

variable {F R A : Type}

structure PredictRequests (F : Type) where
  reqs : List (PredictRequest F) := []
  requestOption : RequestOption := {}
  context : Option Context := none
  deriving DecidableEq

structure PredictResponses (R : Type) where
  resps : List (PredictResponse R) := []
  deriving DecidableEq

namespace PredictorRouter

/-! ## (1) Dispatch -/

def ROUTER_OP : String := "router_op"
def SIMPLE_FORWARD : String := "SimpleForward"
def SPLIT_REQUEST : String := "SplitRequest"

/-- `multiPredict` over what its two ways of forwarding do; `skip` where it calls neither,
    `none` when `router_op_iter->second` is read through the end. -/
def multiPredictVia (simpleForward splitRequest : MultiPredictRequest F → A) (skip : A)
    (request : MultiPredictRequest F) : Option A :=
  match request.context with
  | none => some (simpleForward request)
  | some context => do
    let routerOp ← context[ROUTER_OP]?
    if routerOp = SIMPLE_FORWARD then return simpleForward request
    else if routerOp = SPLIT_REQUEST then return splitRequest request
    else return skip

/-- `predict` over its one way of forwarding. -/
def predictVia (simpleForward : PredictRequests F → A) (skip : A) (requests : PredictRequests F) : Option A :=
  match requests.context with
  | none => some (simpleForward requests)
  | some context => do
    let routerOp ← context[ROUTER_OP]?
    if routerOp = SIMPLE_FORWARD then return simpleForward requests
    else return skip

/-- To be implemented, as the source says: the responses stay as they were given. -/
def predictSimpleForward (_ : PredictRequests F) : PredictResponses R := {}

def predict (requests : PredictRequests F) : Option (PredictResponses R) :=
  predictVia predictSimpleForward {} requests

/-- The inner `none` while a slice's task is pending. -/
def multiPredict (services : Option (ExtTreeMap String String)) (flags : Flags) (send : Network F R)
    (request : MultiPredictRequest F) (completed : List (Nat × Network F R)) :
    Option (Option (Except Exn (MultiPredictResponse R))) :=
  multiPredictVia (fun request => some (multiPredictSimpleForward services send request))
    (fun request => multiPredictSplitRequest services flags send request completed) (some (.ok {})) request

inductive MultiPredictCall where
  | multiPredictSimpleForward
  | multiPredictSplitRequest
  deriving DecidableEq, Repr

inductive PredictCall where
  | predictSimpleForward
  deriving DecidableEq, Repr

/-- The calls that `multiPredict` makes, each with the request it is handed. -/
def multiPredictCalls (request : MultiPredictRequest F) : Option (List (MultiPredictCall × MultiPredictRequest F)) :=
  multiPredictVia (fun request => [(.multiPredictSimpleForward, request)])
    (fun request => [(.multiPredictSplitRequest, request)]) [] request

def predictCalls (requests : PredictRequests F) : Option (List (PredictCall × PredictRequests F)) :=
  predictVia (fun requests => [(.predictSimpleForward, requests)]) [] requests

/-- The operation a context asks for is one of these. -/
def Asks (known : List String) (context : Option Context) : Prop :=
  ∀ given, context = some given → ∃ op ∈ known, given[ROUTER_OP]? = some op

theorem multiPredictVia_known (simpleForward splitRequest : MultiPredictRequest F → A) (skip : A)
    {request : MultiPredictRequest F} (h : Asks [SIMPLE_FORWARD, SPLIT_REQUEST] request.context) :
    multiPredictVia simpleForward splitRequest skip request = some (simpleForward request) ∨
      multiPredictVia simpleForward splitRequest skip request = some (splitRequest request) := by
  unfold multiPredictVia
  cases hc : request.context with
  | none => exact .inl rfl
  | some context =>
    obtain ⟨op, hmem, hop⟩ := h context hc
    simp only [List.mem_cons, List.not_mem_nil, or_false] at hmem
    rcases hmem with rfl | rfl
    · left
      simp [hop]
    · right
      simp [hop, show SPLIT_REQUEST ≠ SIMPLE_FORWARD by decide]

/-- Without a known operation nothing is called, where the read succeeds at all. -/
theorem multiPredictVia_unknown (simpleForward splitRequest : MultiPredictRequest F → A) (skip : A)
    {request : MultiPredictRequest F} (h : ¬ Asks [SIMPLE_FORWARD, SPLIT_REQUEST] request.context) :
    multiPredictVia simpleForward splitRequest skip request = none ∨
      multiPredictVia simpleForward splitRequest skip request = some skip := by
  unfold multiPredictVia
  unfold Asks at h
  push Not at h
  obtain ⟨context, hc, hop⟩ := h
  rw [hc]
  cases hget : context[ROUTER_OP]? with
  | none => simp [hget]
  | some op =>
    have h1 : op ≠ SIMPLE_FORWARD := fun e => hop SIMPLE_FORWARD (by simp) (by rw [hget, e])
    have h2 : op ≠ SPLIT_REQUEST := fun e => hop SPLIT_REQUEST (by simp) (by rw [hget, e])
    simp [hget, h1, h2]

theorem predictVia_known (simpleForward : PredictRequests F → A) (skip : A) {requests : PredictRequests F}
    (h : Asks [SIMPLE_FORWARD] requests.context) :
    predictVia simpleForward skip requests = some (simpleForward requests) := by
  unfold predictVia
  cases hc : requests.context with
  | none => rfl
  | some context =>
    obtain ⟨op, hmem, hop⟩ := h context hc
    cases List.mem_singleton.mp hmem
    simp [hop]

theorem predictVia_unknown (simpleForward : PredictRequests F → A) (skip : A) {requests : PredictRequests F}
    (h : ¬ Asks [SIMPLE_FORWARD] requests.context) :
    predictVia simpleForward skip requests = none ∨ predictVia simpleForward skip requests = some skip := by
  unfold predictVia
  unfold Asks at h
  push Not at h
  obtain ⟨context, hc, hop⟩ := h
  rw [hc]
  cases hget : context[ROUTER_OP]? with
  | none => simp [hget]
  | some op =>
    have h1 : op ≠ SIMPLE_FORWARD := fun e => hop SIMPLE_FORWARD (by simp) (by rw [hget, e])
    simp [hget, h1]

/-- Exactly one call is made, and nothing is read through the end, iff the context is absent
    or asks for an operation that the function knows. -/
theorem dispatches_iff (request : MultiPredictRequest F) (requests : PredictRequests F) :
    ((∃ call, multiPredictCalls request = some [(call, request)]) ↔
        Asks [SIMPLE_FORWARD, SPLIT_REQUEST] request.context) ∧
      ((∃ call, predictCalls requests = some [(call, requests)]) ↔ Asks [SIMPLE_FORWARD] requests.context) := by
  refine ⟨⟨fun ⟨call, hcall⟩ => ?_, fun h => ?_⟩, ⟨fun ⟨call, hcall⟩ => ?_, fun h => ?_⟩⟩
  · by_contra h
    rcases multiPredictVia_unknown _ _ _ h with hn | hs
    · cases hn.symm.trans hcall
    · cases hs.symm.trans hcall
  · rcases multiPredictVia_known _ _ _ h with hf | hs
    · exact ⟨.multiPredictSimpleForward, hf⟩
    · exact ⟨.multiPredictSplitRequest, hs⟩
  · by_contra h
    rcases predictVia_unknown _ _ h with hn | hs
    · cases hn.symm.trans hcall
    · cases hs.symm.trans hcall
  · exact ⟨.predictSimpleForward, predictVia_known _ _ h⟩

/-- A context that has other keys only, and one with an operation that is not known. -/
def withContext (context : Context) : MultiPredictRequest Unit :=
  { singleRequest := { commonFeatures := () }, context := some context }

/-- The end is read through; an unknown operation is dropped. -/
theorem context_without_op_not_dispatched :
    multiPredictCalls (withContext {("trace_id", "17")}) = none ∧
      predictCalls ({ context := some {("trace_id", "17")} } : PredictRequests Unit) = none ∧
      multiPredictCalls (withContext {("router_op", "Mirror")}) = some [] := by
  refine ⟨?_, ?_, ?_⟩ <;> decide +kernel

/-! ## (2) The sizes of the slices -/

/-- No range is empty or longer than `k`. -/
def Within (k : Nat) (rs : List Range) : Prop := ∀ r ∈ rs, r.first.toNat < r.last.toNat ∧ r.last.toNat ≤ r.first.toNat + k

/-- Ranges that follow each other do not overlap. -/
theorem Covers.pairwise {rs : List Range} {a b : Nat} (h : Covers rs a b) :
    rs.Pairwise fun r r' => r.last.toNat ≤ r'.first.toNat := by
  have hfirst : ∀ {rs : List Range} {a b : Nat}, Covers rs a b → ∀ r ∈ rs, a ≤ r.first.toNat := by
    intro rs
    induction rs with
    | nil => simp
    | cons r rs ih =>
      intro a b h r' hr'
      rcases List.mem_cons.mp hr' with rfl | hr'
      · exact Nat.le_of_eq h.1.symm
      · have hle := ih h.2.2 r' hr'
        have hr := h.2.1
        omega
  induction rs generalizing a with
  | nil => exact .nil
  | cons r rs ih => exact .cons (hfirst h.2.2) (ih h.2.2)

/-- The ranges of a request do not overlap. -/
theorem splitRanges_disjoint {flags : Flags} {n : Nat} {ranges : List Range} (h : splitRanges flags n = some ranges) :
    ranges.Pairwise fun r r' => r.last.toNat ≤ r'.first.toNat := by
  unfold splitRanges at h
  split at h
  · cases h
  · exact (splitSlice_covers h).pairwise

/-- The loop makes slices of one size. -/
theorem sliceLoop_uniform (avg : UInt32) (n : Nat) (tmpIndex : UInt32)
    (h : tmpIndex.toNat + n * avg.toNat < 2 ^ 32) :
    ∀ r ∈ (sliceLoop avg n tmpIndex).1, r.last.toNat = r.first.toNat + avg.toNat := by
  induction n generalizing tmpIndex with
  | zero => simp [sliceLoop]
  | succ n ih =>
    rw [Nat.succ_mul] at h
    have hadd : (tmpIndex + avg).toNat = tmpIndex.toNat + avg.toNat := toNat_add_of_lt (by omega)
    intro r hr
    rcases List.mem_cons.mp hr with rfl | hr
    · exact hadd
    · exact ih (tmpIndex + avg) (by omega) r hr

theorem sliceLoop_within {avg : UInt32} (havg : 0 < avg.toNat) (n : Nat) (tmpIndex : UInt32)
    (h : tmpIndex.toNat + n * avg.toNat < 2 ^ 32) : Within avg.toNat (sliceLoop avg n tmpIndex).1 := by
  intro r hr
  have hsize := sliceLoop_uniform avg n tmpIndex h r hr
  omega

/-- No slice is empty, and none is longer than `avg`: the last one is what the division leaves. -/
theorem splitSlice_within {total min max : UInt32} {rs : List Range} (h : splitSlice total min max = some rs) :
    Within (sliceSize total min max).toNat rs := by
  simp only [splitSlice] at h
  split at h
  · cases h
  rename_i hne
  have hpos : 0 < (sliceSize total min max).toNat := sliceSize_pos fun h0 => hne (.inr h0)
  generalize sliceSize total min max = avg at h hpos ⊢
  have hdiv : (total / avg).toNat * avg.toNat ≤ total.toNat := by
    rw [UInt32.toNat_div]
    exact Nat.div_mul_le_self _ _
  have htotal := total.toNat_lt
  have h0 : (0 : UInt32).toNat = 0 := rfl
  have hloop := sliceLoop_within hpos (total / avg).toNat 0 (by omega)
  obtain ⟨-, hend⟩ := sliceLoop_covers avg (total / avg).toNat 0 (by omega)
  cases h
  split
  · rename_i hlt
    intro r hr
    rcases List.mem_append.mp hr with hr | hr
    · exact hloop r hr
    · cases List.mem_singleton.mp hr
      have hrest : total.toNat < ((total / avg).toNat + 1) * avg.toNat := by
        rw [UInt32.toNat_div, Nat.mul_comm]
        exact Nat.lt_mul_div_succ _ hpos
      rw [Nat.succ_mul] at hrest
      have hlt' : (sliceLoop avg (total / avg).toNat 0).2.toNat < total.toNat := hlt
      refine ⟨hlt', ?_⟩
      show total.toNat ≤ (sliceLoop avg (total / avg).toNat 0).2.toNat + avg.toNat
      omega
  · exact hloop

/-- The two divisions: `n / max + 1` threads get at most `max` items each. -/
theorem size_le_max (n : Nat) {max : Nat} (hmax : 0 < max) : n / (n / max + 1) + 1 ≤ max := by
  have hlt : n < max * (n / max + 1) := Nat.lt_mul_div_succ n hmax
  exact (Nat.div_lt_iff_lt_mul (Nat.succ_pos _)).mpr hlt

theorem sliceSize_le {total min threads : UInt32} {max : Nat} (hthreads : threads.toNat = total.toNat / max + 1)
    (hmin : min.toNat ≤ max) (hmax : max < 4294967296) (hpos : 0 < max) : (sliceSize total min threads).toNat ≤ max := by
  have hsize : (total / threads + 1).toNat = total.toNat / (total.toNat / max + 1) + 1 := by
    have hle := size_le_max total.toNat hpos
    rw [UInt32.toNat_add, UInt32.toNat_div, hthreads]
    exact Nat.mod_eq_of_lt (Nat.lt_of_le_of_lt hle hmax)
  simp only [sliceSize]
  split
  · exact hmin
  · rw [hsize]
    exact size_le_max total.toNat hpos

/-- What `unsigned` keeps of a flag that fits. -/
theorem toNat_flag {a : Int64} (h0 : 0 ≤ a.toInt) (h : a.toInt < 4294967296) :
    a.toUInt64.toUInt32.toNat = a.toInt.toNat ∧ a.toUInt64.toNat = a.toInt.toNat := by
  have h64 : a.toUInt64.toNat = a.toInt.toNat := Int64.toNat_toUInt64_of_le (Int64.le_iff_toInt_le.mpr h0)
  refine ⟨?_, h64⟩
  rw [UInt64.toNat_toUInt32, h64]
  exact Nat.mod_eq_of_lt (by omega)

theorem toNat_threads {n : Nat} (hn : n < 4294967295) (max : UInt64) :
    (UInt64.ofNat n / max + 1).toUInt32.toNat = n / max.toNat + 1 := by
  have hn64 : n % 2 ^ 64 = n := Nat.mod_eq_of_lt (by omega)
  have hdiv : n / max.toNat ≤ n := Nat.div_le_self _ _
  have hone : (1 : UInt64).toNat = 1 := rfl
  rw [UInt64.toNat_toUInt32, UInt64.toNat_add, UInt64.toNat_div, UInt64.toNat_ofNat', hn64, hone]
  generalize n / max.toNat = threads at hdiv ⊢
  omega

/-- The ranges follow each other from 0 to `n`, do not overlap, are not empty, and hold at
    most `max_items_per_slice` items each. -/
theorem splitRanges_tiles {flags : Flags} {n : Nat} (hn : n < 2 ^ 32 - 1) (hmin : 1 ≤ flags.minItemsPerSlice.toInt)
    (hle : flags.minItemsPerSlice.toInt ≤ flags.maxItemsPerSlice.toInt) (hmax : flags.maxItemsPerSlice.toInt < 2 ^ 32) :
    ∃ ranges, splitRanges flags n = some ranges ∧ Covers ranges 0 n ∧
      (ranges.Pairwise fun r r' => r.last.toNat ≤ r'.first.toNat) ∧
      Within flags.maxItemsPerSlice.toInt.toNat ranges := by
  obtain ⟨hmin32, -⟩ := toNat_flag (a := flags.minItemsPerSlice) (by omega) (by omega)
  obtain ⟨-, hmax64⟩ := toNat_flag (a := flags.maxItemsPerSlice) (by omega) (by omega)
  have htotal : (UInt32.ofNat n).toNat = n := by
    rw [UInt32.toNat_ofNat']
    exact Nat.mod_eq_of_lt (by omega)
  have hthreads : (UInt64.ofNat n / flags.maxItemsPerSlice.toUInt64 + 1).toUInt32.toNat =
      (UInt32.ofNat n).toNat / flags.maxItemsPerSlice.toInt.toNat + 1 := by
    rw [toNat_threads (by omega), hmax64, htotal]
  have hmin0 : flags.minItemsPerSlice.toUInt64.toUInt32 ≠ 0 := by
    intro h0
    rw [h0] at hmin32
    have h00 : (0 : UInt32).toNat = 0 := rfl
    omega
  have hthreads0 : (UInt64.ofNat n / flags.maxItemsPerSlice.toUInt64 + 1).toUInt32 ≠ 0 := by
    intro h0
    rw [h0] at hthreads
    exact Nat.succ_ne_zero _ hthreads.symm
  obtain ⟨ranges, hr⟩ := Option.isSome_iff_exists.mp (splitSlice_isSome.mpr ⟨hmin0, hthreads0⟩)
  have hcov : Covers ranges 0 n := by
    have hcov := splitSlice_covers hr
    rwa [htotal] at hcov
  have hwithin := splitSlice_within hr
  have hsize : (sliceSize _ flags.minItemsPerSlice.toUInt64.toUInt32 _).toNat ≤ _ :=
    sliceSize_le hthreads (by omega) (by omega) (by omega)
  refine ⟨ranges, ?_, hcov, hcov.pairwise, fun r hr => ?_⟩
  · have hpos : ¬ flags.maxItemsPerSlice ≤ 0 := by
      rw [Int64.le_iff_toInt_le]
      have h00 : (0 : Int64).toInt = 0 := rfl
      omega
    rw [splitRanges, if_neg hpos]
    exact hr
  · have hr := hwithin r hr
    exact ⟨hr.1, Nat.le_trans hr.2 (Nat.add_le_add_left hsize _)⟩

/-- At `n = 2 * max`, on the boundary of the first division. -/
theorem splitRanges_tiles_hundred :
    splitRanges {} 100 = some [⟨0, 34⟩, ⟨34, 68⟩, ⟨68, 100⟩] ∧
      ∃ ranges, splitRanges {} 100 = some ranges ∧ Covers ranges 0 100 ∧
        (ranges.Pairwise fun r r' => r.last.toNat ≤ r'.first.toNat) ∧ Within 50 ranges :=
  ⟨by decide +kernel, @splitRanges_tiles {} 100 (by omega) (by decide) (by decide)
    (show (50 : Int) < 2 ^ 32 by omega)⟩

end PredictorRouter

end PredictorService.Server
