/-
  PredictorService.Sdk.RouterNetwork — a router that sends with the client library.

  The router calls `future_multi_predict` for each slice of a request, on the thread pool,
  and gets the futures when all calls have been made (predictor_router.cc). The library
  retries until it has found a server, sends once, and turns an RPC that fails into an empty
  response. Where a client cannot be made the call throws, which is read with the results of
  the tasks and ends the whole request.

  - `sdkNetwork_future_iff`, `sdkNetwork_threw_iff`: a slice brings results iff the first
    server that is found for it answers, and throws iff its first client cannot be made.
  - `router_end_to_end`: a split request is answered iff no slice throws. Then every model has
    an entry, and the results are those of the slices that were answered.
-/

import PredictorService.Sdk.EndToEnd
import PredictorService.Server.SplitRequest

namespace PredictorService.Sdk

open Std (ExtTreeMap)
open PredictorService.FeatureMaster
open PredictorService.Lib
open PredictorService.Lib.Futures
open PredictorService.Server
open PredictorService.Server.PredictorRouter
open PredictorService.Server.PredictorServiceSvIf
open PredictorService.ServiceRouter (ThriftRetryOption)

variable {Dbl R V : Type}

/-- What each attempt of a `future_multi_predict` comes to once its future is got. -/
abbrev SliceWire (Dbl R : Type) := Wire (MultiPredictRequest (Features Dbl)) (MultiPredictResponse R)

/-- `PredictorClientSDK::future_multi_predict` as the router calls it. -/
def sdkNetwork (retry : ThriftRetryOption) (fuel : Nat) (wire : SliceWire Dbl R) : Network (Features Dbl) R :=
  fun request =>
    match futureMultiPredict retry (fun i call => (wire i call).started) fuel request with
    | none => .refused
    | some called =>
      match called.result with
      | .error message => .threw message
      | .ok (true, some fut) => .future (.ok fut.get)
      | .ok (true, none) => .noFuture
      | .ok (false, _) => .refused

section Network

variable {retry : ThriftRetryOption} {fuel : Nat} {wire : SliceWire Dbl R}
  {request : MultiPredictRequest (Features Dbl)} {response : MultiPredictResponse R}

/-- The RPC of a request. -/
def callOf (request : MultiPredictRequest (Features Dbl)) : RpcCall (MultiPredictRequest (Features Dbl)) :=
  thriftCall request.requestOption request

/-- The first server that is found answers with this response. -/
def Answered (retry : ThriftRetryOption) (wire : SliceWire Dbl R) (request : MultiPredictRequest (Features Dbl))
    (response : MultiPredictResponse R) : Prop :=
  ∃ i, NoneBefore retry (fun i => wire i (callOf request)) i ∧ (wire i (callOf request)).left = some response

/-- The first client that is not missing cannot be made. -/
def ClientThrows (retry : ThriftRetryOption) (wire : SliceWire Dbl R) (request : MultiPredictRequest (Features Dbl))
    (message : String) : Prop :=
  ∃ i, NoneBefore retry (fun i => wire i (callOf request)) i ∧ (wire i (callOf request)).client = .threw message

/-- Each attempt has one end. -/
theorem NoneBefore.unique {attempts : Nat → Attempt (MultiPredictResponse R)} {i j : Nat}
    (hi : NoneBefore retry attempts i) (hj : NoneBefore retry attempts j) (hci : (attempts i).client ≠ .none)
    (hcj : (attempts j).client ≠ .none) : i = j := by
  rcases Nat.lt_trichotomy i j with hlt | heq | hgt
  · exact absurd (hj.first i hlt) hci
  · exact heq
  · exact absurd (hi.first j hgt) hcj

theorem client_ne_none_of_left {a : Attempt (MultiPredictResponse R)} (h : a.left = some response) :
    a.client ≠ .none := by
  intro hc
  rw [Attempt.left, hc] at h
  cases h

theorem Answered.unique {response' : MultiPredictResponse R} (h : Answered retry wire request response)
    (h' : Answered retry wire request response') : response = response' := by
  obtain ⟨i, hi, hleft⟩ := h
  obtain ⟨j, hj, hleft'⟩ := h'
  obtain rfl := hi.unique hj (client_ne_none_of_left hleft) (client_ne_none_of_left hleft')
  exact Option.some.inj (hleft.symm.trans hleft')

variable (wire request) in
/-- The three ways a slice's call goes. -/
theorem sdkNetwork_cases (hfuel : retry.connectionRetry < fuel) :
    (NoClient retry (fun i => wire i (callOf request)) ∧ sdkNetwork retry fuel wire request = .refused) ∨
    ∃ i, NoneBefore retry (fun i => wire i (callOf request)) i ∧
      ((∃ message, (wire i (callOf request)).client = .threw message ∧
        sdkNetwork retry fuel wire request = .threw message) ∨
      ∃ address fut, (wire i (callOf request)).client = .found address ∧
        sdkNetwork retry fuel wire request = .future (.ok (MultiPredictResponseFuture.get fut)) ∧
        fut.fut = (wire i (callOf request)).rpc.future) := by
  rcases exists_noneBefore retry (fun i => wire i (callOf request)) with hnone | ⟨i, hbefore, hclient⟩
  · have hcall : rpc retry (fun i call => (wire i call).started) fuel (callOf request) = some ⟨.ok none, []⟩ :=
      call_of_noClient hnone.started hfuel
    refine .inl ⟨hnone, ?_⟩
    rw [sdkNetwork, futureMultiPredict, ← callOf, hcall]
    rfl
  refine .inr ⟨i, hbefore, ?_⟩
  cases hc : (wire i (callOf request)).client with
  | none => exact absurd hc hclient
  | threw message =>
    have hcall : rpc retry (fun i call => (wire i call).started) fuel (callOf request) = some ⟨.error message, []⟩ :=
      call_of_threw hbefore.started hfuel hc
    refine .inl ⟨message, rfl, ?_⟩
    rw [sdkNetwork, futureMultiPredict, ← callOf, hcall]
    rfl
  | found address =>
    have hcall : rpc retry (fun i call => (wire i call).started) fuel (callOf request) =
        some ⟨.ok (some (wire i (callOf request)).rpc.future), (wire i (callOf request)).started.sent⟩ :=
      call_of_found hbefore.started hfuel (Attempt.left_started hc)
    refine .inr ⟨address, { fut := (wire i (callOf request)).rpc.future, reqId := request.reqId
                            serviceName := request.requestOption.predictorServiceName
                            requestType := getRequestType request.singleRequest.context
                            modelNames := request.modelNames, channel := request.singleRequest.channel }, rfl, ?_, rfl⟩
    rw [sdkNetwork, futureMultiPredict, ← callOf, hcall]
    rfl

theorem sdkNetwork_threw_iff (hfuel : retry.connectionRetry < fuel) {message : Exn} :
    sdkNetwork retry fuel wire request = .threw message ↔ ClientThrows retry wire request message := by
  rcases sdkNetwork_cases wire request hfuel with
    ⟨hnone, hsent⟩ | ⟨i, hbefore, ⟨message', hc, hsent⟩ | ⟨address, fut, hc, hsent, -⟩⟩
  · rw [hsent]
    refine ⟨nofun, fun ⟨i, hi, hc⟩ => ?_⟩
    rw [hnone i hi.connections hi.timeouts] at hc
    cases hc
  · rw [hsent]
    constructor
    · rintro ⟨⟩
      exact ⟨i, hbefore, hc⟩
    · rintro ⟨j, hj, hcj⟩
      obtain rfl := hbefore.unique hj (by rw [hc]; nofun) (by rw [hcj]; nofun)
      rw [hc] at hcj
      cases hcj
      rfl
  · rw [hsent]
    refine ⟨nofun, fun ⟨j, hj, hcj⟩ => ?_⟩
    obtain rfl := hbefore.unique hj (by rw [hc]; nofun) (by rw [hcj]; nofun)
    rw [hc] at hcj
    cases hcj

/-- An RPC that fails leaves an empty response. -/
theorem sdkNetwork_future (hfuel : retry.connectionRetry < fuel)
    (h : sdkNetwork retry fuel wire request = .future (.ok response)) :
    response.modelResponses.isEmpty ∨ Answered retry wire request response := by
  rcases sdkNetwork_cases wire request hfuel with
    ⟨-, hsent⟩ | ⟨i, hbefore, ⟨message, hc, hsent⟩ | ⟨address, fut, hc, hsent, hfut⟩⟩
  · rw [hsent] at h
    cases h
  · rw [hsent] at h
    cases h
  · rw [hsent] at h
    cases h
    cases hleft : (wire i (callOf request)).left with
    | none =>
      obtain ⟨e, he⟩ := Attempt.future_of_left_none hc hleft
      rw [MultiPredictResponseFuture.get, hfut, he]
      exact .inl rfl
    | some answer =>
      rw [MultiPredictResponseFuture.get, hfut, Attempt.future_of_left hleft]
      dsimp only
      split
      · exact .inl rfl
      · exact .inr ⟨i, hbefore, hleft⟩

theorem sdkNetwork_future_iff (hfuel : retry.connectionRetry < fuel) (hne : response.modelResponses.isEmpty = false) :
    sdkNetwork retry fuel wire request = .future (.ok response) ↔ Answered retry wire request response := by
  constructor
  · intro h
    exact (sdkNetwork_future hfuel h).resolve_left (by simp [hne])
  · rintro ⟨i, hi, hleft⟩
    have hclient := client_ne_none_of_left hleft
    rcases sdkNetwork_cases wire request hfuel with
      ⟨hnone, -⟩ | ⟨j, hj, ⟨message, hc, -⟩ | ⟨address, fut, hc, hsent, hfut⟩⟩
    · exact absurd (hnone i hi.connections hi.timeouts) hclient
    · obtain rfl := hi.unique hj hclient (by simp [hc])
      rw [Attempt.left, hc] at hleft
      cases hleft
    · obtain rfl := hi.unique hj hclient (by simp [hc])
      rw [hsent, MultiPredictResponseFuture.get, hfut, Attempt.future_of_left hleft]
      simp [hne]

end Network

/-! ## The router -/

section Router

variable {retry : ThriftRetryOption} {fuel : Nat} {services : Option (ExtTreeMap String String)} {flags : Flags}
  {request request' : MultiPredictRequest (Features Dbl)} {ranges : List Range} {wires : List (SliceWire Dbl R)}
  {completed : List (Nat × Network (Features Dbl) R)}

/-- What a server answers is about the models and items that it is asked for. -/
def KeepsToRequest (wire : SliceWire Dbl R) : Prop :=
  ∀ i call response, (wire i call).left = some response →
    (∀ n ∈ response.modelResponses, n ∈ call.request.modelNames) ∧
      ∀ n id x, resultOf response.modelResponses n id = some x → id ∈ call.request.singleRequest.itemFeatures

/-- The slice was answered with this response. -/
def SliceAnswered (retry : ThriftRetryOption) (request : MultiPredictRequest (Features Dbl))
    (p : Range × SliceWire Dbl R) (response : MultiPredictResponse R) : Prop :=
  Answered retry p.2 (sliceRequest request p.1) response

theorem resultOf_isEmpty {m : ExtTreeMap String (PredictResponse R)} (h : m.isEmpty) (n : String) (id : Int64) :
    resultOf m n id = none := by
  rw [ExtTreeMap.isEmpty_iff.mp h]
  simp [resultOf]

theorem not_isEmpty_of_resultOf {m : ExtTreeMap String (PredictResponse R)} {n : String} {id : Int64} {x : R}
    (h : resultOf m n id = some x) : m.isEmpty = false := by
  rw [Bool.eq_false_iff]
  intro hempty
  rw [resultOf_isEmpty hempty] at h
  cases h

/-- An item stands in one slice. -/
theorem slice_unique {l : List (Int64 × Features Dbl)} (hkeys : (l.map (·.1)).Nodup)
    (hdisjoint : ranges.Pairwise fun r r' => r.last.toNat ≤ r'.first.toNat) {id : Int64} {y y' : Features Dbl}
    {p p' : Range × SliceWire Dbl R} (hp : p ∈ ranges.zip wires) (hp' : p' ∈ ranges.zip wires)
    (hy : (id, y) ∈ sliceItems l p.1) (hy' : (id, y') ∈ sliceItems l p'.1) : p = p' := by
  obtain ⟨k, hfirst, hlast, hk⟩ := exists_index_of_mem_sliceItems hy
  obtain ⟨k', hfirst', hlast', hk'⟩ := exists_index_of_mem_sliceItems hy'
  obtain rfl : k = k' := by
    refine (List.getElem?_inj ?_ hkeys).mp ?_
    · rw [List.length_map]
      exact (List.getElem?_eq_some_iff.mp hk).1
    · rw [List.getElem?_map, List.getElem?_map, hk, hk']
      rfl
  obtain ⟨i, hi⟩ := List.mem_iff_getElem?.mp hp
  obtain ⟨j, hj⟩ := List.mem_iff_getElem?.mp hp'
  obtain ⟨hri, -⟩ := List.getElem?_zip_eq_some.mp hi
  obtain ⟨hrj, -⟩ := List.getElem?_zip_eq_some.mp hj
  obtain ⟨hilt, hri⟩ := List.getElem?_eq_some_iff.mp hri
  obtain ⟨hjlt, hrj⟩ := List.getElem?_eq_some_iff.mp hrj
  rcases Nat.lt_trichotomy i j with hlt | rfl | hgt
  · have hle := List.pairwise_iff_getElem.mp hdisjoint i j hilt hjlt hlt
    rw [hri, hrj] at hle
    omega
  · exact Option.some.inj (hi.symm.trans hj)
  · have hle := List.pairwise_iff_getElem.mp hdisjoint j i hjlt hilt hgt
    rw [hri, hrj] at hle
    omega

/-- The responses that are got: empty ones, and those of the slices that were answered. -/
theorem mem_futures (hfuel : retry.connectionRetry < fuel)
    (hc : Completes ranges (wires.map (sdkNetwork retry fuel)) completed) {slice : MultiPredictResponse R}
    (h : .ok slice ∈ completed.flatMap (pushedBy (sliceFuture request) ranges)) :
    slice.modelResponses.isEmpty ∨ ∃ p ∈ ranges.zip wires, SliceAnswered retry request p slice := by
  rw [mem_pushed _ _ hc] at h
  obtain ⟨p, hp, hfut⟩ := h
  rw [List.zip_map_right] at hp
  obtain ⟨⟨range, wire⟩, hmem, rfl⟩ := List.mem_map.mp hp
  exact (sdkNetwork_future hfuel (mem_sliceFuture.mp hfut)).imp id fun hanswered => ⟨(range, wire), hmem, hanswered⟩

theorem mem_futures_of_answered (hfuel : retry.connectionRetry < fuel)
    (hc : Completes ranges (wires.map (sdkNetwork retry fuel)) completed) {p : Range × SliceWire Dbl R}
    (hp : p ∈ ranges.zip wires) {response : MultiPredictResponse R} (hanswered : SliceAnswered retry request p response)
    (hne : response.modelResponses.isEmpty = false) :
    .ok response ∈ completed.flatMap (pushedBy (sliceFuture request) ranges) := by
  rw [mem_pushed _ _ hc]
  refine ⟨(p.1, sdkNetwork retry fuel p.2), ?_, mem_sliceFuture.mpr ((sdkNetwork_future_iff hfuel hne).mpr hanswered)⟩
  rw [List.zip_map_right]
  exact List.mem_map.mpr ⟨p, hp, rfl⟩

/-- Two slices that were answered do not have results of one item. -/
theorem sliceAnswered_agree (hkeeps : ∀ wire ∈ wires, KeepsToRequest wire)
    (hdisjoint : ranges.Pairwise fun r r' => r.last.toNat ≤ r'.first.toNat) {p p' : Range × SliceWire Dbl R}
    (hp : p ∈ ranges.zip wires) (hp' : p' ∈ ranges.zip wires) {response response' : MultiPredictResponse R}
    (h : SliceAnswered retry request p response) (h' : SliceAnswered retry request p' response') {n : String}
    {id : Int64} {x x' : R} (hx : resultOf response.modelResponses n id = some x)
    (hx' : resultOf response'.modelResponses n id = some x') : x = x' := by
  have hitem : ∀ {q : Range × SliceWire Dbl R} {answer : MultiPredictResponse R} {z : R}, q ∈ ranges.zip wires →
      SliceAnswered retry request q answer → resultOf answer.modelResponses n id = some z →
      ∃ y, (id, y) ∈ sliceItems request.singleRequest.itemFeatures.toList q.1 := by
    rintro q answer z hq ⟨i, -, hleft⟩ hz
    have hmem := (hkeeps q.2 (List.of_mem_zip hq).2 i _ answer hleft).2 n id z hz
    rw [ExtTreeMap.mem_iff_isSome_getElem?, Option.isSome_iff_exists] at hmem
    obtain ⟨y, hy⟩ := hmem
    exact ⟨y, getElem?_sliceRequest.mp hy⟩
  obtain ⟨y, hy⟩ := hitem hp h hx
  obtain ⟨y', hy'⟩ := hitem hp' h' hx'
  obtain rfl := slice_unique (nodup_keys_toList _) hdisjoint hp hp' hy hy'
  obtain rfl := h.unique h'
  exact Option.some.inj (hx.symm.trans hx')

/-- The results that are combined are those of the slices that were answered. -/
theorem combineSlices_answered (hfuel : retry.connectionRetry < fuel) (hkeeps : ∀ wire ∈ wires, KeepsToRequest wire)
    (hdisjoint : ranges.Pairwise fun r r' => r.last.toNat ≤ r'.first.toNat)
    (hc : Completes ranges (wires.map (sdkNetwork retry fuel)) completed)
    (hitems : 0 < request.singleRequest.itemFeatures.size) {out : MultiPredictResponse R}
    (hout : out = combineSlices request (completed.flatMap (pushedBy (sliceFuture request) ranges))) :
    (∀ n, n ∈ out.modelResponses ↔ n ∈ request.modelNames) ∧
      ∀ n id x, resultOf out.modelResponses n id = some x ↔ ∃ p ∈ ranges.zip wires, ∃ response,
        SliceAnswered retry request p response ∧ resultOf response.modelResponses n id = some x := by
  subst hout
  have hfuts : ∀ slice, .ok slice ∈ completed.flatMap (pushedBy (sliceFuture request) ranges) →
      slice.modelResponses.isEmpty ∨ ∃ p ∈ ranges.zip wires, SliceAnswered retry request p slice :=
    fun slice hslice => mem_futures hfuel hc hslice
  refine ⟨fun n => mem_combineSlices hitems ?_, fun n id x => ?_⟩
  · intro slice hslice n hn
    rcases hfuts slice hslice with hempty | ⟨p, hp, i, -, hleft⟩
    · rw [ExtTreeMap.isEmpty_iff.mp hempty] at hn
      exact absurd hn ExtTreeMap.not_mem_empty
    · exact (hkeeps p.2 (List.of_mem_zip hp).2 i _ slice hleft).1 n hn
  · -- any two responses that have a result of the item agree
    have hof : ∀ slice, .ok slice ∈ completed.flatMap (pushedBy (sliceFuture request) ranges) → ∀ z,
        resultOf slice.modelResponses n id = some z → ∃ p ∈ ranges.zip wires, SliceAnswered retry request p slice :=
      fun slice hslice z hz => (hfuts slice hslice).resolve_left (by simp [not_isEmpty_of_resultOf hz])
    constructor
    · intro hx
      obtain ⟨slice, hslice, hx⟩ := exists_of_resultOf_combineSlices hx
      obtain ⟨p, hp, hanswered⟩ := hof slice hslice x hx
      exact ⟨p, hp, slice, hanswered, hx⟩
    · rintro ⟨p, hp, response, hanswered, hx⟩
      refine (resultOf_combineSlices (y := x) fun slice hslice z hz => ?_).mpr
        ⟨response, mem_futures_of_answered hfuel hc hp hanswered (not_isEmpty_of_resultOf hx), hx⟩
      obtain ⟨p', hp', hanswered'⟩ := hof slice hslice z hz
      exact sliceAnswered_agree hkeeps hdisjoint hp' hp hanswered' hanswered hz hx

end Router

/-- A router whose slices are sent by the client library. -/
theorem router_end_to_end {c : Config Dbl} (hmode : c.workMode = ROUTER_MODE)
    {env : Env (Features Dbl) (PredictResults Dbl) V} {request request' : MultiPredictRequest (Features Dbl)}
    {context : Context} (hcontext : request.context = some context) (hop : context[ROUTER_OP]? = some SPLIT_REQUEST)
    {ranges : List Range} (hs : Splits env.services env.flags request request' ranges)
    (hitems : 0 < request.singleRequest.itemFeatures.size)
    {retry : ThriftRetryOption} {fuel : Nat} (hfuel : retry.connectionRetry < fuel)
    {wires : List (SliceWire Dbl (PredictResults Dbl))} (hkeeps : ∀ wire ∈ wires, KeepsToRequest wire)
    (hc : Completes ranges (wires.map (sdkNetwork retry fuel)) env.slices) :
    ∃ served, PredictorServiceSvIf.multiPredict c env request = some (some served) ∧
      ((∃ out, served.result = .ok out) ↔ ∀ p ∈ ranges.zip wires, ∀ message,
        ¬ ClientThrows retry p.2 (sliceRequest request' p.1) message) ∧
      ∀ out, served.result = .ok out →
        (∀ n, n ∈ out.modelResponses ↔ n ∈ request.modelNames) ∧
        ∀ n id x, resultOf out.modelResponses n id = some x ↔ ∃ p ∈ ranges.zip wires, ∃ response,
          SliceAnswered retry request' p response ∧ resultOf response.modelResponses n id = some x := by
  obtain ⟨hsingle, hnames⟩ := routed_keeps hs.routed
  rw [← hsingle] at hitems
  rw [← hnames]
  have hdisjoint : ranges.Pairwise fun r r' => r.last.toNat ≤ r'.first.toNat := splitRanges_disjoint hs.ranges
  have hthrows : (∀ p ∈ ranges.zip (wires.map (sdkNetwork retry fuel)), ¬ Throws request' p.1 p.2) ↔
      ∀ p ∈ ranges.zip wires, ∀ message, ¬ ClientThrows retry p.2 (sliceRequest request' p.1) message := by
    simp only [List.zip_map_right, List.forall_mem_map, Throws, Prod.map_fst, Prod.map_snd, id, not_exists,
      sdkNetwork_threw_iff hfuel]
  have hroute : PredictorRouter.multiPredict env.services env.flags env.send request env.slices =
      some (multiPredictSplitRequest env.services env.flags env.send request env.slices) := by
    have hne : SPLIT_REQUEST ≠ SIMPLE_FORWARD := by decide
    simp [PredictorRouter.multiPredict, multiPredictVia, hcontext, hop, hne]
  obtain ⟨result, hresult⟩ := split_ends env.send hs hc
  refine ⟨{ result }, ?_, ?_, fun out hout => ?_⟩
  · rw [PredictorServiceSvIf.multiPredict, if_pos hmode, hroute, hresult]
    rfl
  · rw [← hthrows]
    constructor
    · rintro ⟨out, hout⟩
      exact ((split_ok_iff hs hc).mp (hresult.trans (congrArg some hout))).1
    · intro hno
      exact ⟨_, Option.some.inj (hresult.symm.trans ((split_ok_iff hs hc).mpr ⟨hno, rfl⟩))⟩
  · obtain ⟨-, heq⟩ := (split_ok_iff hs hc).mp (hresult.trans (congrArg some hout))
    exact combineSlices_answered hfuel hkeeps hdisjoint hc hitems heq

/-! ## An example -/

/-- Every model gives every item a `ctr`. -/
def everyCtr (request : MultiPredictRequest (Features Nat)) : MultiPredictResponse (PredictResults Nat) :=
  { reqId := request.reqId
    modelResponses := emplaceAll ∅ (request.modelNames.map fun n =>
      (n, { reqId := request.reqId, resultsMap := request.singleRequest.itemFeatures.map fun _ _ => ⟨{("ctr", 7)}⟩ })) }

theorem getElem?_everyCtr {request : MultiPredictRequest (Features Nat)} {n : String}
    (hn : n ∈ request.modelNames) : (everyCtr request).modelResponses[n]? = some
      { reqId := request.reqId, resultsMap := request.singleRequest.itemFeatures.map fun _ _ => ⟨{("ctr", 7)}⟩ } := by
  refine (emplaceAll_eq_some_iff ?_).mpr (List.mem_map.mpr ⟨n, hn, rfl⟩)
  intro p hp q hq _
  obtain ⟨_, -, rfl⟩ := List.mem_map.mp hp
  obtain ⟨_, -, rfl⟩ := List.mem_map.mp hq
  rfl

theorem everyCtr_keepsToRequest (request : MultiPredictRequest (Features Nat)) :
    (∀ n ∈ (everyCtr request).modelResponses, n ∈ request.modelNames) ∧
      ∀ n id x, resultOf (everyCtr request).modelResponses n id = some x →
        id ∈ request.singleRequest.itemFeatures := by
  have hnames : ∀ n ∈ (everyCtr request).modelResponses, n ∈ request.modelNames := by
    intro n hn
    simpa [everyCtr, mem_emplaceAll] using hn
  refine ⟨hnames, fun n id x hx => ?_⟩
  obtain ⟨r, hr, hx⟩ := Option.bind_eq_some_iff.mp hx
  have hn : n ∈ request.modelNames := hnames n (ExtTreeMap.mem_iff_isSome_getElem?.mpr (by rw [hr]; rfl))
  rw [getElem?_everyCtr hn] at hr
  cases hr
  rw [ExtTreeMap.mem_iff_isSome_getElem?]
  cases h : request.singleRequest.itemFeatures[id]? with
  | none => simp [h] at hx
  | some y => rfl

/-- No server is found at first. -/
def lateServer : SliceWire Nat (PredictResults Nat)
  | 0, _ => { client := .none, rpc := .unknownException }
  | _, call => { client := .found {}, rpc := .returned (everyCtr call.request) }

def brokenServer : SliceWire Nat (PredictResults Nat) :=
  fun _ _ => { client := .found {}, rpc := .transportException true }

/-- Two items, which are cut into two slices. -/
def twoItemsSplit : MultiPredictRequest (Features Nat) :=
  { reqId := "r", modelNames := ["tf_ctr_v1"], context := some {(ROUTER_OP, SPLIT_REQUEST)}
    singleRequest := { itemFeatures := {(1, []), (2, [])}, commonFeatures := [] } }

/-- The second slice is the first to be sent. -/
def splitEnv : Env (Features Nat) (PredictResults Nat) Unit where
  services := oneService
  flags := onePerSlice
  send := fun _ => .refused
  slices := [(1, sdkNetwork retryOnce 2 lateServer), (0, sdkNetwork retryOnce 2 brokenServer)]

theorem twoItemsSplit_splits : Splits splitEnv.services splitEnv.flags twoItemsSplit
    { twoItemsSplit with requestOption := { predictorServiceName := "ctr_service" } } [⟨0, 1⟩, ⟨1, 2⟩] where
  routed := by decide
  predicts := by decide
  ranges := by decide

theorem router_end_to_end_two :
    ∃ served out,
      PredictorServiceSvIf.multiPredict { everyRequest with workMode := ROUTER_MODE } splitEnv twoItemsSplit =
        some (some served) ∧ served.result = .ok out ∧
      (∀ n, n ∈ out.modelResponses ↔ n ∈ ["tf_ctr_v1"]) ∧
      resultOf out.modelResponses "tf_ctr_v1" 2 = some ⟨{("ctr", 7)}⟩ := by
  have hkeeps : ∀ wire ∈ [brokenServer, lateServer], KeepsToRequest wire := by
    intro wire hwire i call response hleft
    rcases List.mem_pair.mp hwire with rfl | rfl
    · cases hleft
    · cases i with
      | zero => cases hleft
      | succ i =>
        cases hleft
        exact everyCtr_keepsToRequest call.request
  have hmade : ∀ p ∈ ([⟨0, 1⟩, ⟨1, 2⟩] : List Range).zip [brokenServer, lateServer], ∀ message,
      ¬ ClientThrows retryOnce p.2 (sliceRequest
        { twoItemsSplit with requestOption := { predictorServiceName := "ctr_service" } } p.1) message := by
    rintro p hp message ⟨i, -, hc⟩
    rcases List.mem_pair.mp hp with rfl | rfl
    · cases hc
    · cases i <;> cases hc
  have hfuel : retryOnce.connectionRetry < (2 : Nat) := by decide
  obtain ⟨served, hserved, hanswers, hresults⟩ :=
    router_end_to_end (c := { everyRequest with workMode := ROUTER_MODE }) rfl rfl (by decide) twoItemsSplit_splits
      (by decide) hfuel hkeeps ⟨by decide, List.Perm.swap _ _ _⟩
  obtain ⟨out, hout⟩ := hanswers.mpr hmade
  refine ⟨served, out, hserved, hout, (hresults out hout).1, ((hresults out hout).2 _ _ _).mpr ?_⟩
  -- the slice of the item is answered at the second attempt
  refine ⟨(⟨1, 2⟩, lateServer), by simp, _, ⟨1, ⟨fun j hj => ?_, by decide, by decide⟩, rfl⟩, by decide⟩
  obtain rfl : j = 0 := by omega
  rfl

end PredictorService.Sdk
