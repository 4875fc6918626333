/-
  PredictorService.Server.SelfForward — the services that the router sends a request to.

  The router is a service itself, and a request that it sent to its own name would come
  back to it. `setRequestOptionPredictorServiceName` refuses such a request, and every way
  of forwarding goes through it, the split one twice where it falls back to the simple one.
  So no RPC carries the router's name (`never_forwards_to_itself`), also when the map from
  models to services is replaced between the two reads.

  `simpleForwardRpcs` and `splitRequestRpcs` are the requests that are handed to
  `future_multi_predict`. They are all that the forwards ask the network for
  (`simpleForward_congr`, `splitRequest_congr`), and each of them is asked for
  (`simpleForward_threw`, `split_ok_iff`).
-/

import PredictorService.Server.SplitRequest

namespace PredictorService.Server.PredictorRouter

open Std (ExtTreeMap)
open PredictorService.Lib
open PredictorService.Lib.Futures

variable {F R : Type}

def PREDICTOR_ROUTER_SERVICE_NAME : String := "predictor_router_service"

/-! ## RPCs -/

def featureRecordRpcs (request : MultiPredictRequest F) : List (MultiPredictRequest F) := [request]

def simpleForwardRpcs (services : Option (ExtTreeMap String String)) (request : MultiPredictRequest F) :
    List (MultiPredictRequest F) :=
  match routed services request with
  | none => []
  | some request => if isFeatureRecord request then featureRecordRpcs request else [request]

/-- The fallback reads the map again: `reloaded` is what it finds. -/
def splitRequestRpcs (services reloaded : Option (ExtTreeMap String String)) (flags : Flags)
    (request : MultiPredictRequest F) : List (MultiPredictRequest F) :=
  match routed services request with
  | none => []
  | some request =>
    if isFeatureRecord request then featureRecordRpcs request
    else
      match splitRanges flags request.singleRequest.itemFeatures.size with
      | none => simpleForwardRpcs reloaded request
      | some ranges => ranges.map (sliceRequest request)

section Asked

variable {services : Option (ExtTreeMap String String)} {flags : Flags} {send send' : Network F R}
  {request : MultiPredictRequest F}

theorem simpleForward_congr (h : ∀ rpc ∈ simpleForwardRpcs services request, send rpc = send' rpc) :
    multiPredictSimpleForward services send request = multiPredictSimpleForward services send' request := by
  unfold simpleForwardRpcs featureRecordRpcs at h
  unfold multiPredictSimpleForward sendFeatureRecordRequest
  cases hr : routed services request with
  | none => rfl
  | some request' =>
    have hsend : send request' = send' request' := h request' (by simp [hr])
    simp only [hsend]

/-- A call that throws ends the simple forward. -/
theorem simpleForward_threw {rpc : MultiPredictRequest F} (hrpc : rpc ∈ simpleForwardRpcs services request) {e : Exn}
    (h : send rpc = .threw e) : multiPredictSimpleForward services send request = .error e := by
  unfold simpleForwardRpcs featureRecordRpcs at hrpc
  unfold multiPredictSimpleForward sendFeatureRecordRequest
  cases hr : routed services request with
  | none => simp [hr] at hrpc
  | some request' =>
    obtain rfl : rpc = request' := by simpa [hr] using hrpc
    simp only [h]
    split <;> rfl

/-- Tasks of slices that see networks which agree on the slices end the same. -/
theorem run_slices_congr {ranges : List Range} {completed completed' : List (Nat × Network F R)}
    (h : List.Forall₂ (fun e e' => e.1 = e'.1 ∧ ∀ range ∈ ranges, e.2 (sliceRequest request range) =
      e'.2 (sliceRequest request range)) completed completed') (b : Batch (Except Exn (MultiPredictResponse R)) Exn Bool) :
    run (complete (sendSlice request) (sliceFuture request) ranges) b completed =
      run (complete (sendSlice request) (sliceFuture request) ranges) b completed' := by
  induction h generalizing b with
  | nil => rfl
  | @cons e e' _ _ he _ ih =>
    obtain ⟨hi, hw⟩ := he
    have hstep : complete (sendSlice request) (sliceFuture request) ranges b e =
        complete (sendSlice request) (sliceFuture request) ranges b e' := by
      unfold complete
      rw [hi]
      cases hq : ranges[e'.1]? with
      | none => rfl
      | some range =>
        have hsame := hw range (List.mem_of_getElem? hq)
        have hvalue : sendSlice request range e.2 = sendSlice request range e'.2 := by
          rw [sendSlice, sendSlice, hsame]
        have hfuture : sliceFuture request range e.2 = sliceFuture request range e'.2 := by
          rw [sliceFuture, sliceFuture, hsame]
        cases hb : b.slots[e'.1]? with
        | none => rfl
        | some slot =>
          cases slot with
          | none => simp only [hvalue, hfuture]
          | some _ => rfl
    rw [run_cons, run_cons, hstep]
    exact congrArg _ (funext fun b => ih b)

theorem splitRequest_congr {completed completed' : List (Nat × Network F R)}
    (h : ∀ rpc ∈ splitRequestRpcs services services flags request, send rpc = send' rpc)
    (hc : List.Forall₂ (fun e e' => e.1 = e'.1 ∧ ∀ rpc ∈ splitRequestRpcs services services flags request,
      e.2 rpc = e'.2 rpc) completed completed') :
    multiPredictSplitRequest services flags send request completed =
      multiPredictSplitRequest services flags send' request completed' := by
  unfold splitRequestRpcs at h hc
  unfold multiPredictSplitRequest
  cases hr : routed services request with
  | none => rfl
  | some request' =>
    simp only [hr] at h hc ⊢
    by_cases hf : isFeatureRecord request' = true
    · have hsend : send request' = send' request' := h request' (by simp [hf, featureRecordRpcs])
      simp only [hf, if_true, sendFeatureRecordRequest, hsend]
    · simp only [if_neg hf] at h hc ⊢
      cases hs : splitRanges flags request'.singleRequest.itemFeatures.size with
      | none =>
        simp only [hs] at h
        exact congrArg some (simpleForward_congr h)
      | some ranges =>
        simp only [hs, List.forall_mem_map] at hc
        simp only [run_slices_congr hc]

end Asked

/-! ## Their service -/

/-- The service of the first model, or what the option says. -/
def serviceFor (services : Option (ExtTreeMap String String)) (request : MultiPredictRequest F) : String :=
  ((services.bind fun services => request.modelNames.head?.bind (services[·]?)).getD
    request.requestOption.predictorServiceName)

theorem routed_name {services : Option (ExtTreeMap String String)} {request request' : MultiPredictRequest F}
    (h : routed services request = some request') :
    request'.requestOption.predictorServiceName ≠ PREDICTOR_ROUTER_SERVICE_NAME ∧
      request'.requestOption.predictorServiceName = serviceFor services request := by
  obtain ⟨option, hoption, rfl⟩ := Option.map_eq_some_iff.mp h
  unfold setRequestOptionPredictorServiceName at hoption
  unfold serviceFor
  split at hoption
  · cases hoption
  · cases hoption
  · rename_i modelName _ services' hnames
    simp only [hnames, Option.bind_some, List.head?_cons]
    cases hs : services'[modelName]? <;> simp only [hs] at hoption <;> split at hoption <;> cases hoption
    · exact ⟨‹_›, rfl⟩
    · exact ⟨‹_›, rfl⟩

theorem mem_simpleForwardRpcs {services : Option (ExtTreeMap String String)} {request rpc : MultiPredictRequest F} :
    rpc ∈ simpleForwardRpcs services request ↔ routed services request = some rpc := by
  unfold simpleForwardRpcs featureRecordRpcs
  cases routed services request with
  | none => simp
  | some request' =>
    simp only [ite_self, List.mem_singleton, Option.some_inj]
    exact eq_comm

/-- A split request's RPC carries the option of the request as it was routed, or as its
    fallback routed it again. -/
theorem option_of_mem_splitRequestRpcs {services reloaded : Option (ExtTreeMap String String)} {flags : Flags}
    {request rpc : MultiPredictRequest F} (h : rpc ∈ splitRequestRpcs services reloaded flags request) :
    ∃ request', routed services request = some request' ∧
      (rpc.requestOption = request'.requestOption ∨ routed reloaded request' = some rpc) := by
  unfold splitRequestRpcs at h
  cases hr : routed services request with
  | none => simp [hr] at h
  | some request' =>
    simp only [hr] at h
    refine ⟨request', rfl, ?_⟩
    split at h
    · rw [List.mem_singleton.mp h]
      exact .inl rfl
    · split at h
      · exact .inr (mem_simpleForwardRpcs.mp h)
      · obtain ⟨range, -, rfl⟩ := List.mem_map.mp h
        exact .inl rfl

/-- The forwards ask the network for these RPCs only. None carries the router's name; its name
    is that of the first model's service, or the original one, where the map that is read
    again may have another. -/
theorem never_forwards_to_itself (services : Option (ExtTreeMap String String)) (flags : Flags)
    (request : MultiPredictRequest F) :
    (∀ rpc ∈ simpleForwardRpcs services request ++ splitRequestRpcs services services flags request,
      rpc.requestOption.predictorServiceName ≠ PREDICTOR_ROUTER_SERVICE_NAME ∧
        rpc.requestOption.predictorServiceName = serviceFor services request) ∧
    (∀ reloaded, ∀ rpc ∈ splitRequestRpcs services reloaded flags request,
      rpc.requestOption.predictorServiceName ≠ PREDICTOR_ROUTER_SERVICE_NAME ∧
        ∃ request', routed services request = some request' ∧
          (rpc.requestOption.predictorServiceName = serviceFor services request ∨
            rpc.requestOption.predictorServiceName = serviceFor reloaded request')) ∧
    (∀ send send' : Network F R, (∀ rpc ∈ simpleForwardRpcs services request, send rpc = send' rpc) →
      multiPredictSimpleForward services send request = multiPredictSimpleForward services send' request) ∧
    ∀ (send send' : Network F R) (completed completed' : List (Nat × Network F R)),
      (∀ rpc ∈ splitRequestRpcs services services flags request, send rpc = send' rpc) →
      List.Forall₂ (fun e e' => e.1 = e'.1 ∧ ∀ rpc ∈ splitRequestRpcs services services flags request,
        e.2 rpc = e'.2 rpc) completed completed' →
      multiPredictSplitRequest services flags send request completed =
        multiPredictSplitRequest services flags send' request completed' := by
  refine ⟨fun rpc hrpc => ?_, fun reloaded rpc hrpc => ?_, fun send send' h => simpleForward_congr h,
    fun send send' completed completed' h hc => splitRequest_congr h hc⟩
  · rcases List.mem_append.mp hrpc with hrpc | hrpc
    · exact routed_name (mem_simpleForwardRpcs.mp hrpc)
    · obtain ⟨request', hr, hoption | hagain⟩ := option_of_mem_splitRequestRpcs hrpc
      · rw [hoption]
        exact routed_name hr
      · rw [routed_idem hr] at hagain
        cases hagain
        exact routed_name hr
  · obtain ⟨request', hr, hoption | hagain⟩ := option_of_mem_splitRequestRpcs hrpc
    · rw [hoption]
      exact ⟨(routed_name hr).1, request', hr, .inl (routed_name hr).2⟩
    · exact ⟨(routed_name hagain).1, request', hr, .inr (routed_name hagain).2⟩

end PredictorService.Server.PredictorRouter
