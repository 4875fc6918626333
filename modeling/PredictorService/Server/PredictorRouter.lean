/-
  PredictorService.Server.PredictorRouter — forwarding a multi-predict request
  (predictor/server/router/predictor_router.cc, common/util.cc).

  In router mode a request is forwarded as it is (`multiPredictSimpleForward`), or its
  items are cut into slices, one task of `getHeavyTasksThreadPool` sends each slice, and
  the responses are combined (`multiPredictSplitRequest`). A task appends its RPC's future
  to a vector that the tasks share, so the vector is in the order of completion.

  What the network does is outside: `send` says what comes of one call of
  `future_multi_predict`, and a completion carries the `Network` its task saw. A call that
  throws ends the simple forward, and ends a slice's task; the loop over the tasks' results
  reads `v.value()` also of such a task.

  `Service.multiPredict` is the server at the other end (predictor_service.cc), on top of
  `ModelManager`. Metrics, logs and snapshots are left out.
-/

import PredictorService.Lib.Emplace
import PredictorService.Server.ModelManager

namespace PredictorService.Server

open Std (ExtTreeMap)
open PredictorService.Lib (run emplaceAll)
open PredictorService.Lib.Futures (Try start complete collectAll)

variable {F R V : Type}

/-- The server gives `single_request` the id of the whole request. -/
def Service.setSingleReqId (request : MultiPredictRequest F) : MultiPredictRequest F :=
  { request with singleRequest := { request.singleRequest with reqId := request.reqId } }

/-- `PredictorService::multiPredict` in server mode. -/
def Service.multiPredict (request : MultiPredictRequest F) (moments : Nat → ModelManager.Moment)
    (completed : List (Nat × World F R V)) : Option (Except Exn (MultiPredictResponse R)) :=
  ModelManager.multiPredict (Service.setSingleReqId request) moments completed

/-! ## Slices (common/util.cc) -/

structure Range where
  first : UInt32
  last : UInt32
  deriving DecidableEq, Repr

/-- The loop of `split_slice`: `n` ranges of `avg` items from `tmpIndex` on, and where they
    end. -/
def sliceLoop (avg : UInt32) : Nat → UInt32 → List Range × UInt32
  | 0, tmpIndex => ([], tmpIndex)
  | n + 1, tmpIndex =>
    let rest := sliceLoop avg n (tmpIndex + avg)
    (⟨tmpIndex, tmpIndex + avg⟩ :: rest.1, rest.2)

/-- `avg` in `split_slice`. -/
def sliceSize (totalNum minItemNumPerThread maxThreadNum : UInt32) : UInt32 :=
  let avg := totalNum / maxThreadNum + 1
  if avg < minItemNumPerThread then minItemNumPerThread else avg

/-- `none` when it returns false. -/
def splitSlice (totalNum minItemNumPerThread maxThreadNum : UInt32) : Option (List Range) :=
  if maxThreadNum = 0 ∨ minItemNumPerThread = 0 then none
  else
    let avg := sliceSize totalNum minItemNumPerThread maxThreadNum
    let sliceNum := totalNum / avg
    let (slices, tmpIndex) := sliceLoop avg sliceNum.toNat 0
    some (if tmpIndex < totalNum then slices ++ [⟨tmpIndex, totalNum⟩] else slices)

namespace PredictorRouter

structure Flags where
  minItemsPerSlice : Int64 := 1
  maxItemsPerSlice : Int64 := 50
  deriving DecidableEq, Repr

/-- What comes of one call of `future_multi_predict`. -/
inductive Sent (R : Type) where
  | threw (e : Exn)
  /-- It returned false. -/
  | refused
  | noFuture
  /-- A future, with what its `get()` returns or throws. -/
  | future (result : Except Exn (MultiPredictResponse R))

abbrev Network (F R : Type) := MultiPredictRequest F → Sent R

/-! ## Routing -/

/-- `services` is `global_model_service_map_`; `none` when the function returns false. -/
def setRequestOptionPredictorServiceName (services : Option (ExtTreeMap String String)) (option : RequestOption)
    (modelNames : List String) : Option RequestOption :=
  match modelNames, services with
  | [], _ => none
  | _, none => none
  | modelName :: _, some services =>
    let option :=
      match services[modelName]? with
      | some service => { option with predictorServiceName := service }
      | none => option
    if option.predictorServiceName = "predictor_router_service" then none else some option

/-- The request with its service's name, as both ways of forwarding work on it. -/
def routed (services : Option (ExtTreeMap String String)) (request : MultiPredictRequest F) :
    Option (MultiPredictRequest F) :=
  (setRequestOptionPredictorServiceName services request.requestOption request.modelNames).map fun option =>
    { request with requestOption := option }

def isFeatureRecord (request : MultiPredictRequest F) : Bool :=
  (request.singleRequest.context.bind (·["request_type"]?)) = some "feature_record"

def sendFeatureRecordRequest (send : Network F R) (request : MultiPredictRequest F) : Except Exn Unit :=
  match send request with
  | .threw e => .error e
  | _ => .ok ()

/-- The response stays as it was given, empty, wherever nothing is written to it. -/
def multiPredictSimpleForward (services : Option (ExtTreeMap String String)) (send : Network F R)
    (request : MultiPredictRequest F) : Except Exn (MultiPredictResponse R) :=
  match routed services request with
  | none => .ok {}
  | some request =>
    if isFeatureRecord request then do
      sendFeatureRecordRequest send request
      return {}
    else
      match send request with
      | .threw e => .error e
      | .refused => .ok {}
      | .noFuture => .ok {}
      | .future (.ok response) => .ok response
      -- caught
      | .future (.error _) => .ok {}

/-! ## Splitting -/

/-- The ranges of a request's items; `none` when it is forwarded whole. The sizes are
    truncated to `unsigned`. -/
def splitRanges (flags : Flags) (itemsSize : Nat) : Option (List Range) :=
  if flags.maxItemsPerSlice ≤ 0 then none
  else splitSlice (UInt32.ofNat itemsSize) flags.minItemsPerSlice.toUInt64.toUInt32
    (UInt64.ofNat itemsSize / flags.maxItemsPerSlice.toUInt64 + 1).toUInt32

/-- The items of a range, in key order. -/
def sliceItems (items : List (Int64 × F)) (range : Range) : List (Int64 × F) :=
  (items.drop range.first.toNat).take (range.last.toNat - range.first.toNat)

/-- The request of a slice, built field by field. Without a context there is no split. -/
def sliceRequest (request : MultiPredictRequest F) (range : Range) : MultiPredictRequest F where
  reqId := request.reqId
  modelNames := request.modelNames
  requestOption := request.requestOption
  context := request.context
  singleRequest :=
    { commonFeatures := request.singleRequest.commonFeatures
      itemFeatures := emplaceAll ∅ (sliceItems request.singleRequest.itemFeatures.toList range) }

/-- `splitAndSendMultiPredictRequest`: what a slice's task ends with. -/
def sendSlice (request : MultiPredictRequest F) (range : Range) (send : Network F R) : Try Exn Bool :=
  match send (sliceRequest request range) with
  | .threw e => .error e
  | .refused => .ok false
  | .noFuture => .ok false
  | .future _ => .ok true

/-- What it appends to `slice_response_futs`. -/
def sliceFuture (request : MultiPredictRequest F) (range : Range) (send : Network F R) :
    List (Except Exn (MultiPredictResponse R)) :=
  match send (sliceRequest request range) with
  | .future result => [result]
  | _ => []

/-- The loop in `then`: a result is only logged, and read whatever the task ended with. -/
def checkResults : List (Try Exn Bool) → Except Exn Unit
  | [] => .ok ()
  | v :: lists => do
    let _ ← v.value
    checkResults lists

/-! ## Combining -/

def combineModelResponse (m : ExtTreeMap String (PredictResponse R)) (modelResp : String × PredictResponse R) :
    ExtTreeMap String (PredictResponse R) :=
  let combined := m.getD modelResp.1 {}
  m.insert modelResp.1
    { reqId := modelResp.2.reqId, resultsMap := emplaceAll combined.resultsMap modelResp.2.resultsMap.toList }

def combineMultiPredictResponse (combined slice : MultiPredictResponse R) : MultiPredictResponse R :=
  { combined with
    reqId := slice.reqId
    modelResponses := slice.modelResponses.toList.foldl combineModelResponse combined.modelResponses }

/-- A future that throws and an empty response are skipped. -/
def getAndCombineMultiPredictResponse (combined : MultiPredictResponse R)
    (futs : List (Except Exn (MultiPredictResponse R))) : MultiPredictResponse R :=
  futs.foldl (fun combined fut =>
    match fut with
    | .ok slice => if slice.modelResponses.isEmpty then combined else combineMultiPredictResponse combined slice
    | .error _ => combined) combined

/-- The last loop reads `model_responses[model_name]`, which creates what is missing. -/
def touchModels (response : MultiPredictResponse R) (modelNames : List String) : MultiPredictResponse R :=
  { response with modelResponses := modelNames.foldl (fun m n => m.insertIfNew n {}) response.modelResponses }

/-- `none` while a slice's task is pending. `send` is for the ways without slices. -/
def multiPredictSplitRequest (services : Option (ExtTreeMap String String)) (flags : Flags) (send : Network F R)
    (request : MultiPredictRequest F) (completed : List (Nat × Network F R)) :
    Option (Except Exn (MultiPredictResponse R)) :=
  match routed services request with
  | none => some (.ok {})
  | some request =>
    if isFeatureRecord request then
      some do
        sendFeatureRecordRequest send request
        return {}
    else
      match splitRanges flags request.singleRequest.itemFeatures.size with
      | none => some (multiPredictSimpleForward services send request)
      | some ranges => do
        let batch ← run (complete (sendSlice request) (sliceFuture request) ranges)
          (start (Except Exn (MultiPredictResponse R)) Exn Bool ranges.length) completed
        let results ← collectAll batch
        return do
          checkResults results
          let response := getAndCombineMultiPredictResponse {} batch.pushed
          if request.singleRequest.itemFeatures.size = 0 then
            return response
          return touchModels response request.modelNames

/-- The slices of a request; none when it is not split. -/
def sliceTasks (services : Option (ExtTreeMap String String)) (flags : Flags) (request : MultiPredictRequest F) :
    List Range :=
  match routed services request with
  | none => []
  | some request =>
    if isFeatureRecord request then []
    else (splitRanges flags request.singleRequest.itemFeatures.size).getD []

end PredictorRouter

end PredictorService.Server
