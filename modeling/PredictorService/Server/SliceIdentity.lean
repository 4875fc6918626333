/-
  PredictorService.Server.SliceIdentity — what a slice keeps of its request.

  A slice is built field by field. Of `single_request` it takes the common features and its
  items; the request id, the channel, the model name and the context stay behind. The ids
  in the responses do not suffer from it, because the server overwrites
  `single_request.req_id` with the id of the whole request before it predicts
  (`served_reqId`). So a slice is its request but for the items exactly when there is
  nothing to leave behind (`slice_keeps_identity_iff`).
-/

import PredictorService.Server.SplitRequest

namespace PredictorService.Server.PredictorRouter

open Std (ExtTreeMap)
open PredictorService.Lib
open PredictorService.Lib.Futures
open PredictorService.Server.ModelManager (rounds dispatched multiPredict_ok_iff mem_multiPredictAnswers
  multiPredictAnswers_reqId)

variable {F R V : Type}

/-! ## The server at the other end -/

/-- `response` is what the server may return for `request`. -/
def Served (V : Type) (request : MultiPredictRequest F) (response : MultiPredictResponse R) : Prop :=
  ∃ (moments : Nat → ModelManager.Moment) (ws : List (World F R V)) (completed : List (Nat × World F R V)),
    Completes (dispatched id (rounds moments (Service.setSingleReqId request).modelNames)) ws completed ∧
      Service.multiPredict request moments completed = some (.ok response)

/-- Every call succeeds, and is answered by a server. -/
def ServedNetwork (V : Type) (w : Network F R) : Prop :=
  ∀ request, ∃ response, w request = .future (.ok response) ∧ Served V request response

/-- The server answers every model it is asked for. -/
theorem mem_served {request : MultiPredictRequest F} {response : MultiPredictResponse R}
    (h : Served V request response) {n : String} : n ∈ response.modelResponses ↔ n ∈ request.modelNames := by
  obtain ⟨moments, ws, completed, hc, hrun⟩ := h
  obtain ⟨hok, rfl⟩ := (multiPredict_ok_iff hc).mp hrun
  rw [mem_emplaceAll, mem_multiPredictAnswers hc hok]
  simp [Service.setSingleReqId]

/-- The id of each response is that of the whole request. -/
theorem served_reqId {request : MultiPredictRequest F} {response : MultiPredictResponse R}
    (h : Served V request response) {n : String} {r : PredictResponse R} (hr : response.modelResponses[n]? = some r) :
    r.reqId = request.reqId := by
  obtain ⟨moments, ws, completed, hc, hrun⟩ := h
  obtain ⟨-, rfl⟩ := (multiPredict_ok_iff hc).mp hrun
  rw [getElem?_emplaceAll] at hr
  simp only [ExtTreeMap.getElem?_empty, Option.none_or, Option.map_eq_some_iff] at hr
  obtain ⟨a, ha, rfl⟩ := hr
  exact multiPredictAnswers_reqId (List.mem_of_find?_eq_some ha)

/-! ## The ids of the combined response -/

/-- Entries with one id combine to entries with that id. -/
theorem reqId_combine {l : List (String × PredictResponse R)} {m : ExtTreeMap String (PredictResponse R)} {reqId : String}
    (hl : ∀ p ∈ l, p.2.reqId = reqId) (hm : ∀ (n : String) (r : PredictResponse R), m[n]? = some r → r.reqId = reqId) :
    ∀ (n : String) (r : PredictResponse R), (l.foldl combineModelResponse m)[n]? = some r → r.reqId = reqId := by
  induction l generalizing m with
  | nil => exact hm
  | cons p l ih =>
    refine ih (fun q hq => hl q (List.mem_cons_of_mem _ hq)) ?_
    intro n r hr
    rw [getElem?_combineModelResponse] at hr
    split at hr
    · cases hr
      exact hl p List.mem_cons_self
    · exact hm n r hr

section Split

variable {services : Option (ExtTreeMap String String)} {flags : Flags} {send : Network F R}
  {request request' : MultiPredictRequest F} {ranges : List Range} {ws : List (Network F R)}
  {completed : List (Nat × Network F R)}

theorem mem_answered_served (hw : ∀ w ∈ ws, ServedNetwork V w) (hc : Completes ranges ws completed)
    {p : String × PredictResponse R}
    (hp : p ∈ answered (completed.flatMap (pushedBy (sliceFuture request) ranges))) : p.2.reqId = request.reqId := by
  obtain ⟨fut, hfut, hp⟩ := List.mem_flatMap.mp hp
  obtain ⟨q, hq, hsent⟩ := (mem_pushed _ _ hc).mp hfut
  obtain ⟨response, hresp, hserved⟩ := hw q.2 (List.of_mem_zip hq).2 (sliceRequest request q.1)
  rw [mem_sliceFuture, hresp] at hsent
  cases hsent
  exact served_reqId hserved (ExtTreeMap.mem_toList_iff_getElem?_eq_some.mp hp)

/-- Where some slice is sent, its response has all models. -/
theorem mem_combined_served (hw : ∀ w ∈ ws, ServedNetwork V w) (hc : Completes ranges ws completed)
    (hne : ranges ≠ []) {n : String} (hn : n ∈ request.modelNames) :
    n ∈ (answered (completed.flatMap (pushedBy (sliceFuture request) ranges))).foldl combineModelResponse ∅ := by
  rw [mem_combine]
  right
  cases hzip : ranges.zip ws with
  | nil =>
    have hlen := congrArg List.length hzip
    rw [List.length_zip, hc.1, Nat.min_self, List.length_nil, List.length_eq_zero_iff] at hlen
    exact absurd hlen hne
  | cons q _ =>
    have hq : q ∈ ranges.zip ws := by simp [hzip]
    obtain ⟨response, hresp, hserved⟩ := hw q.2 (List.of_mem_zip hq).2 (sliceRequest request q.1)
    have hmem : n ∈ response.modelResponses := (mem_served hserved).mpr hn
    obtain ⟨r, hr⟩ := Option.isSome_iff_exists.mp (ExtTreeMap.mem_iff_isSome_getElem?.mp hmem)
    refine List.mem_map.mpr ⟨(n, r), List.mem_flatMap.mpr ⟨.ok response, ?_, ?_⟩, rfl⟩
    · exact (mem_pushed _ _ hc).mpr ⟨q, hq, mem_sliceFuture.mpr hresp⟩
    · exact ExtTreeMap.mem_toList_iff_getElem?_eq_some.mpr hr

/-- So the entries of the combined response have the request's id. -/
theorem reqId_combineSlices (hw : ∀ w ∈ ws, ServedNetwork V w) (hc : Completes ranges ws completed)
    (hne : ranges = [] → request.singleRequest.itemFeatures.size = 0) {n : String} {r : PredictResponse R}
    (hr : (combineSlices request (completed.flatMap (pushedBy (sliceFuture request) ranges))).modelResponses[n]? = some r) :
    r.reqId = request.reqId := by
  have hcomb : ∀ r, ((answered (completed.flatMap (pushedBy (sliceFuture request) ranges))).foldl combineModelResponse
      ∅)[n]? = some r → r.reqId = request.reqId :=
    reqId_combine (fun p hp => mem_answered_served hw hc hp) (by simp) n
  unfold combineSlices at hr
  split at hr
  · rw [combined_modelResponses] at hr
    exact hcomb r hr
  · rename_i hitems
    rw [touchModels_modelResponses, getElem?_emplaceAll, combined_modelResponses] at hr
    by_cases hn : n ∈ request.modelNames
    · have hmem := mem_combined_served hw hc (fun h => hitems (hne h)) hn
      obtain ⟨r', hr'⟩ := Option.isSome_iff_exists.mp (ExtTreeMap.mem_iff_isSome_getElem?.mp hmem)
      rw [hr', Option.some_or] at hr
      exact hcomb r (hr'.trans hr)
    · have hfind : (request.modelNames.map fun n => (n, (⟨"", ∅⟩ : PredictResponse R))).find? (fun p => p.1 = n) = none := by
        rw [List.find?_eq_none]
        intro p hp
        obtain ⟨m, hm, rfl⟩ := List.mem_map.mp hp
        simp only [decide_eq_true_eq]
        intro heq
        subst heq
        exact hn hm
      rw [hfind, Option.map_none, Option.or_none] at hr
      exact hcomb r hr

end Split

/-! ## The fields of a slice -/

/-- `slice` is `request` but for the items. -/
def SameButItems (slice request : MultiPredictRequest F) : Prop :=
  { slice with singleRequest :=
      { slice.singleRequest with itemFeatures := request.singleRequest.itemFeatures } } = request

instance [DecidableEq F] (slice request : MultiPredictRequest F) : Decidable (SameButItems slice request) := by
  unfold SameButItems
  infer_instance

/-- What a slice leaves behind has its default. -/
def NothingLeftBehind (single : PredictRequest F) : Prop :=
  single.reqId = "" ∧ single.channel = "" ∧ single.modelName = "" ∧ single.context = none

theorem sameButItems_iff {request : MultiPredictRequest F} {range : Range} :
    SameButItems (sliceRequest request range) request ↔ NothingLeftBehind request.singleRequest := by
  obtain ⟨reqId, modelNames, ⟨singleReqId, channel, modelName, items, common, context'⟩, option, context⟩ := request
  simp only [SameButItems, sliceRequest, NothingLeftBehind, MultiPredictRequest.mk.injEq, PredictRequest.mk.injEq,
    true_and, and_true]
  simp only [eq_comm]

/-- No range is made only for no items. -/
theorem size_eq_zero_of_nil {flags : Flags} {size : Nat} (h : splitRanges flags size = some []) (hsize : size < 2 ^ 32) :
    size = 0 := by
  unfold splitRanges at h
  split at h
  · cases h
  · have hcov : 0 = (UInt32.ofNat size).toNat := splitSlice_covers h
    rw [UInt32.toNat_ofNat', Nat.mod_eq_of_lt hsize] at hcov
    exact hcov.symm

/-- Splitting makes ranges of what there is. -/
theorem ranges_ne_nil {flags : Flags} {size : Nat} {ranges : List Range} (h : splitRanges flags size = some ranges)
    (hsize : size < 2 ^ 32) (hpos : 0 < size) : ranges ≠ [] := by
  intro heq
  subst heq
  have := size_eq_zero_of_nil h hsize
  omega

theorem ranges_eq_nil {flags : Flags} {ranges : List Range} (h : splitRanges flags 0 = some ranges) : ranges = [] := by
  unfold splitRanges splitSlice at h
  split at h
  · cases h
  · split at h
    · cases h
    · cases h
      simp [sliceLoop]

/-- The responses have the ids of a simple forward. -/
theorem ids_agree {services : Option (ExtTreeMap String String)} {flags : Flags} {send : Network F R}
    {request request' : MultiPredictRequest F} {ranges : List Range} {ws : List (Network F R)}
    {completed : List (Nat × Network F R)} (hs : Splits services flags request request' ranges)
    (hsize : request'.singleRequest.itemFeatures.size < 2 ^ 32) (hsend : ServedNetwork V send)
    (hw : ∀ w ∈ ws, ServedNetwork V w) (hc : Completes ranges ws completed) :
    ∃ out out', multiPredictSplitRequest services flags send request completed = some (.ok out) ∧
      multiPredictSimpleForward services send request = .ok out' ∧
      ∀ (n : String) (r : PredictResponse R), out.modelResponses[n]? = some r →
        ∃ r', out'.modelResponses[n]? = some r' ∧ r.reqId = r'.reqId := by
  obtain ⟨out', hout', hserved⟩ := hsend request'
  have hthrow : ∀ p ∈ ranges.zip ws, ¬ Throws request' p.1 p.2 := by
    intro p hp h
    obtain ⟨e, he⟩ := h
    obtain ⟨response, hresp, -⟩ := hw p.2 (List.of_mem_zip hp).2 (sliceRequest request' p.1)
    rw [he] at hresp
    cases hresp
  refine ⟨_, out', (split_ok_iff hs hc).mpr ⟨hthrow, rfl⟩, ?_, ?_⟩
  · simp [multiPredictSimpleForward, hs.routed, hs.predicts, hout']
  · intro n r hr
    have hnil : ranges = [] → request'.singleRequest.itemFeatures.size = 0 := by
      intro heq
      subst heq
      exact size_eq_zero_of_nil hs.ranges hsize
    have hn : n ∈ request'.modelNames := by
      refine mem_names_of_combineSlices ?_ (ExtTreeMap.mem_iff_isSome_getElem?.mpr (by rw [hr]; rfl))
      intro slice hslice m hm
      obtain ⟨q, hq, hsent⟩ := (mem_pushed _ _ hc).mp hslice
      obtain ⟨response, hresp, hserved⟩ := hw q.2 (List.of_mem_zip hq).2 (sliceRequest request' q.1)
      rw [mem_sliceFuture, hresp] at hsent
      cases hsent
      exact (mem_served hserved).mp hm
    obtain ⟨r', hr'⟩ := Option.isSome_iff_exists.mp
      (ExtTreeMap.mem_iff_isSome_getElem?.mp ((mem_served hserved).mpr hn))
    exact ⟨r', hr', (reqId_combineSlices hw hc hnil hr).trans (served_reqId hserved hr').symm⟩

/-- Every slice is its request but for the items, and the responses have the ids of a simple
    forward, exactly when there are no items or nothing is left behind. -/
theorem slice_keeps_identity_iff (services : Option (ExtTreeMap String String)) (flags : Flags)
    (request request' : MultiPredictRequest F) (ranges : List Range) (hs : Splits services flags request request' ranges)
    (hsize : request.singleRequest.itemFeatures.size < 2 ^ 32) :
    ((∀ range ∈ ranges, SameButItems (sliceRequest request' range) request') ∧
      ∀ (send : Network F R) (ws : List (Network F R)) (completed : List (Nat × Network F R)),
        ServedNetwork V send → (∀ w ∈ ws, ServedNetwork V w) → Completes ranges ws completed →
        ∃ out out', multiPredictSplitRequest services flags send request completed = some (.ok out) ∧
          multiPredictSimpleForward services send request = .ok out' ∧
          ∀ (n : String) (r : PredictResponse R), out.modelResponses[n]? = some r →
            ∃ r', out'.modelResponses[n]? = some r' ∧ r.reqId = r'.reqId) ↔
      request.singleRequest.itemFeatures.size = 0 ∨ NothingLeftBehind request.singleRequest := by
  have hsingle := (routed_keeps hs.routed).1
  have hranges := hs.ranges
  rw [← hsingle] at hsize ⊢
  constructor
  · intro h
    obtain ⟨hsame, -⟩ := h
    by_cases hzero : request'.singleRequest.itemFeatures.size = 0
    · exact .inl hzero
    · obtain ⟨range, hrange⟩ := List.exists_mem_of_ne_nil _ (ranges_ne_nil hranges hsize (by omega))
      exact .inr (sameButItems_iff.mp (hsame range hrange))
  · intro h
    refine ⟨?_, fun send ws completed hsend hw hc => ids_agree hs hsize hsend hw hc⟩
    intro range hrange
    rcases h with hzero | hdefault
    · rw [hzero] at hranges
      rw [ranges_eq_nil hranges] at hrange
      cases hrange
    · exact sameButItems_iff.mpr hdefault

/-! ## A server without models -/

/-- It answers every model without results. -/
def bareResponse (request : MultiPredictRequest F) : MultiPredictResponse R :=
  { reqId := request.reqId
    modelResponses := emplaceAll ∅ (request.modelNames.map fun n => (n, { reqId := request.reqId })) }

theorem singlePredict_bare (n : String) (request : PredictRequest F) :
    ModelManager.singlePredict (fun _ => none : World F R V) n request = .ok (n, { reqId := request.reqId }) := by
  have hnone : ModelFramework.getModelFramework (fun _ => none : World F R V) n = none := by
    simp [ModelFramework.getModelFramework]
  simp only [ModelManager.singlePredict, hnone]
  split <;> rfl

theorem outcomes_bare (names : List String) (request : PredictRequest F) :
    outcomes (fun n w => ModelManager.singlePredict w n request) names
        (List.replicate names.length (fun _ => none : World F R V)) =
      names.map fun n => .ok (n, { reqId := request.reqId }) := by
  induction names with
  | nil => rfl
  | cons n names ih =>
    rw [List.length_cons, List.replicate_succ, outcomes, List.zipWith_cons_cons, singlePredict_bare, List.map_cons]
    exact congrArg _ ih

/-- Without a downgrade map every round makes a task. -/
theorem dispatched_bare (names : List String) : dispatched id (rounds (fun _ => {}) names) = names := by
  have hkeep : ∀ r ∈ rounds (fun _ => ({} : ModelManager.Moment)) names,
      (!ModelManager.shouldDowngradeModel r.2 (id r.1)) = true := by
    intro r hr
    obtain ⟨x, -, rfl⟩ := List.mem_map.mp hr
    rfl
  rw [dispatched, List.filter_eq_self.mpr hkeep, ModelManager.map_fst_rounds]

theorem served_bare (request : MultiPredictRequest F) : Served V request (bareResponse request : MultiPredictResponse R) := by
  have hout : ModelManager.multiPredictOutcomes (Service.setSingleReqId request) (fun _ => {})
      (List.replicate request.modelNames.length (fun _ => none : World F R V)) =
        request.modelNames.map fun n => .ok (n, { reqId := request.reqId }) := by
    rw [ModelManager.multiPredictOutcomes, dispatched_bare]
    exact outcomes_bare request.modelNames _
  have hdown : ModelManager.downgraded id (rounds (fun _ => {}) (Service.setSingleReqId request).modelNames) = [] := by
    rw [ModelManager.downgraded, List.map_eq_nil_iff, List.filter_eq_nil_iff]
    intro r hr
    obtain ⟨x, -, rfl⟩ := List.mem_map.mp hr
    simp [ModelManager.shouldDowngradeModel]
  have hc : Completes (dispatched id (rounds (fun _ => {}) (Service.setSingleReqId request).modelNames))
      (List.replicate request.modelNames.length (fun _ => none : World F R V)) (completions _) :=
    ⟨by rw [dispatched_bare, List.length_replicate]; rfl, List.Perm.refl _⟩
  refine ⟨_, _, _, hc, (multiPredict_ok_iff hc).mpr ⟨?_, ?_⟩⟩
  · rw [hout]
    simp
  · rw [ModelManager.multiPredictAnswers, hout, ModelManager.downgradeAnswers, hdown]
    simp [bareResponse, values, Except.toOption, Service.setSingleReqId, List.filterMap_map, Function.comp_def]

def bareNetwork : Network F R := fun request => .future (.ok (bareResponse request))

theorem slice_keeps_identity_two :
    (∀ range ∈ [⟨0, 1⟩, ⟨1, 2⟩], SameButItems (sliceRequest twoItemsRouted range) twoItemsRouted) ∧
    ∃ out out' : MultiPredictResponse Unit, multiPredictSplitRequest oneService onePerSlice bareNetwork twoItems
        [(1, bareNetwork), (0, bareNetwork)] = some (.ok out) ∧
      multiPredictSimpleForward oneService bareNetwork twoItems = .ok out' ∧
      ∀ (n : String) (r : PredictResponse Unit), out.modelResponses[n]? = some r →
        ∃ r', out'.modelResponses[n]? = some r' ∧ r.reqId = r'.reqId := by
  obtain ⟨hsame, hids⟩ := (slice_keeps_identity_iff (R := Unit) (V := Unit) oneService onePerSlice twoItems twoItemsRouted
    _ twoItems_splits (by decide)).mpr (.inr ⟨rfl, rfl, rfl, rfl⟩)
  have hw : ServedNetwork Unit (bareNetwork : Network Unit Unit) := fun request => ⟨_, rfl, served_bare request⟩
  refine ⟨hsame, hids bareNetwork [bareNetwork, bareNetwork] _ hw ?_ ⟨rfl, List.Perm.swap _ _ _⟩⟩
  intro w hmem
  rcases List.mem_pair.mp hmem with rfl | rfl <;> exact hw

/-- The slices of a request with a channel lose it. -/
theorem slice_loses_channel :
    ¬ ∀ (services : Option (ExtTreeMap String String)) (flags : Flags) (request request' : MultiPredictRequest Unit)
      (ranges : List Range), Splits services flags request request' ranges →
      ∀ range ∈ ranges, SameButItems (sliceRequest request' range) request' := by
  intro h
  let single := { twoItems.singleRequest with reqId := "r", channel := "hot-feed" }
  have hs : Splits oneService onePerSlice { twoItems with singleRequest := single }
      { twoItemsRouted with singleRequest := single } [⟨0, 1⟩, ⟨1, 2⟩] := ⟨by decide, by decide, by decide⟩
  exact absurd (h _ _ _ _ _ hs ⟨0, 1⟩ (by decide)) (by decide)

end PredictorService.Server.PredictorRouter
