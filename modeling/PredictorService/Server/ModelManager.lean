/-
  PredictorService.Server.ModelManager — serving requests
  (predictor/server/model_manager/model_manager.cc, framework/model_framework.cc).

  A batch of requests becomes one task per request on `cpu_thread_pool_`, except for those
  that are downgraded on the spot. The caller waits for all tasks (`collectAll`) and then
  merges their outcomes in `.then(...)`. A task that throws leaves its exception in its
  `folly::Try`, and all four entry points look at such an outcome with `v.value()`, which
  throws again. So the entry points are functions into `Except`: `.error` is the exception
  that leaves the call. They take the completions of the tasks (`Lib.Futures`), and are
  `none` while a task is pending.

  A task reads the frameworks' `models_` at a moment of its own, so a completion carries
  the `World` it saw; the loop of the caller reads the downgrade map, and draws, at a
  `Moment` for each request. The models are outside (`Model`): they fill the response they
  are given, return whether they succeeded, or throw. Features, results and vectors are
  type parameters, since nothing here looks into them. Metrics and logs are left out.
-/

import Mathlib.Data.String.Basic
import Mathlib.Tactic.Linarith.Datatypes
import PredictorService.Lib.Futures

namespace PredictorService.Server

open Std (ExtTreeMap)
open PredictorService.Lib (run)
open PredictorService.Lib.Futures (Try Batch start complete collectAll)

/-! ## Requests and responses (predictor/if/predictor.thrift) -/

/-- A thrown exception, by its text. -/
abbrev Exn := String

abbrev Context := ExtTreeMap String String

structure RequestOption where
  localIp : String := "127.0.0.1"
  connectionTimeout : Int32 := 40
  requestTimeout : Int32 := 60
  ipDiffRange : Int32 := 65535
  maxConnPerServer : Int32 := 3
  predictorServiceName : String := ""
  httpPort : Int32 := 8797
  predictorLoadBalanceMethod : String := "random"
  usePredictorStaticList : Bool := false
  deriving DecidableEq, Repr

/-- `F` is `feature_master.Features`. -/
structure PredictRequest (F : Type) where
  reqId : String := ""
  channel : String := ""
  modelName : String := ""
  itemFeatures : ExtTreeMap Int64 F := ∅
  commonFeatures : F
  context : Option Context := none
  deriving DecidableEq

/-- `R` is `feature_master.PredictResults`. -/
structure PredictResponse (R : Type) where
  reqId : String := ""
  resultsMap : ExtTreeMap Int64 R := ∅
  deriving DecidableEq

structure MultiPredictRequest (F : Type) where
  reqId : String := ""
  modelNames : List String := []
  singleRequest : PredictRequest F
  requestOption : RequestOption := {}
  context : Option Context := none
  deriving DecidableEq

structure MultiPredictResponse (R : Type) where
  reqId : String := ""
  modelResponses : ExtTreeMap String (PredictResponse R) := ∅
  returnCode : Int32 := 0
  deriving DecidableEq

structure CalculateVectorRequest (F : Type) where
  reqId : String := ""
  channel : String := ""
  modelName : String := ""
  features : F
  outputNames : List String := []

/-- `V` is a vector, a `list<double>`. -/
structure CalculateVectorResponse (V : Type) where
  reqId : String := ""
  modelTimestamp : String := ""
  vectorMap : ExtTreeMap String V := ∅
  returnCode : Option Int32 := none
  deriving DecidableEq

structure CalculateBatchVectorRequest (F : Type) where
  reqId : String := ""
  channel : String := ""
  modelName : String := ""
  featuresMap : ExtTreeMap Int64 F := ∅
  outputNames : List String := []
  context : Option Context := none

structure CalculateBatchVectorResponse (V : Type) where
  reqId : String := ""
  modelTimestamp : String := ""
  vectorMap : ExtTreeMap Int64 (ExtTreeMap String V) := ∅
  returnCode : Option Int32 := none
  deriving DecidableEq

def RC_SUCCESS : Int32 := 0
def RC_ERROR : Int32 := -1

/-! ## Models and frameworks -/

/-- A loaded model: what it makes of the response it is given, and whether it succeeded.
    A model that touches the request id of a prediction sets it to the request's. -/
structure Model (F R V : Type) where
  predict : PredictRequest F → PredictResponse R → Except Exn (Bool × PredictResponse R)
  calculateVector : CalculateVectorRequest F → CalculateVectorResponse V →
    Except Exn (Bool × CalculateVectorResponse V) := fun _ response => .ok (false, response)
  calculateBatchVector : CalculateBatchVectorRequest F → CalculateBatchVectorResponse V →
    Except Exn (Bool × CalculateBatchVectorResponse V) := fun _ response => .ok (false, response)
  predict_reqId : ∀ request response ok response', predict request response = .ok (ok, response') →
    response.reqId = request.reqId → response'.reqId = request.reqId

variable {F R V : Type}

/-- `models_`. -/
abbrev ModelFramework (F R V : Type) := String → Option (Model F R V)

/-- The registered frameworks with the models they hold. -/
abbrev World (F R V : Type) := String → Option (ModelFramework F R V)

namespace ModelFramework

def predict (framework : ModelFramework F R V) (response : PredictResponse R) (request : PredictRequest F)
    (modelFullName : String) : Except Exn (Bool × PredictResponse R) :=
  match framework modelFullName with
  | some model => model.predict request response
  | none => .ok (false, response)

def calculateVector (framework : ModelFramework F R V) (response : CalculateVectorResponse V)
    (request : CalculateVectorRequest F) (modelFullName : String) : Except Exn (Bool × CalculateVectorResponse V) :=
  match framework modelFullName with
  | some model => model.calculateVector request response
  | none => .ok (false, response)

def calculateBatchVector (framework : ModelFramework F R V) (response : CalculateBatchVectorResponse V)
    (request : CalculateBatchVectorRequest F) (modelFullName : String) :
    Except Exn (Bool × CalculateBatchVectorResponse V) :=
  match framework modelFullName with
  | some model => model.calculateBatchVector request response
  | none => .ok (false, response)

/-- A model name has at least three parts, and the first one names its framework. -/
def getModelFramework (w : World F R V) (modelFullName : String) : Option (ModelFramework F R V) :=
  let splittedName := modelFullName.toList.splitOn '_'
  if splittedName.length < 3 then none else w (String.ofList (splittedName.headD []))

end ModelFramework

namespace ModelManager

open ModelFramework (getModelFramework)

/-! ## Downgrading -/

/-- What one round of a loop over requests reads. -/
structure Moment where
  /-- `model_downgrade_percent_map_ptr_`. -/
  percentMap : Option (ExtTreeMap String Int32) := none
  /-- What `secureRand32(1, 100)` would return, from 1 to 99. -/
  draw : Int32 := 1
  deriving DecidableEq

def shouldDowngradeModel (t : Moment) (modelFullName : String) : Bool :=
  match t.percentMap.bind (·[modelFullName]?) with
  | none => false
  | some percent => if percent = 0 then false else if percent = 100 then true else t.draw ≤ percent

def makeDownGradeResponse (request : PredictRequest F) : PredictResponse R := { reqId := request.reqId }

/-! ## Single requests -/

/-- That prediction failed, or that results are missing, is only logged. -/
def singlePredict (w : World F R V) (modelFullName : String) (request : PredictRequest F) :
    Except Exn (String × PredictResponse R) := do
  let response : PredictResponse R := { reqId := request.reqId }
  let itemNum := Int32.ofNat request.itemFeatures.size
  if itemNum = 0 then
    return (modelFullName, response)
  match getModelFramework w modelFullName with
  | none => return (modelFullName, response)
  | some framework =>
    let (_, response) ← framework.predict response request modelFullName
    return (modelFullName, response)

def singleCalculateVector (w : World F R V) (request : CalculateVectorRequest F) :
    Except Exn (CalculateVectorResponse V) := do
  let response : CalculateVectorResponse V := { reqId := request.reqId }
  match getModelFramework w request.modelName with
  | none => return { response with returnCode := some RC_ERROR }
  | some framework =>
    let (ok, response) ← framework.calculateVector response request request.modelName
    return { response with returnCode := some (if ok then RC_SUCCESS else RC_ERROR) }

def singleCalculateBatchVector (w : World F R V) (request : CalculateBatchVectorRequest F) :
    Except Exn (CalculateBatchVectorResponse V) := do
  let response : CalculateBatchVectorResponse V := { reqId := request.reqId, returnCode := some RC_SUCCESS }
  let itemNum := Int32.ofNat request.featuresMap.size
  if itemNum = 0 then
    return response
  match getModelFramework w request.modelName with
  | none => return { response with returnCode := some RC_ERROR }
  | some framework =>
    let (ok, response) ← framework.calculateBatchVector response request request.modelName
    if !ok ∨ Int32.ofNat response.vectorMap.size ≠ itemNum then
      return { response with returnCode := some RC_ERROR }
    return response

/-! ## Batches -/

/-- A batch of tasks under a completion order, and what its caller does with the outcomes. -/
def collect {Q A B : Type} (task : World F R V → Q → Except Exn A) (tasks : List Q)
    (andThen : List (Try Exn A) → Except Exn B) (completed : List (Nat × World F R V)) : Option (Except Exn B) := do
  let batch ← run (complete (fun q w => task w q) (fun _ _ => ([] : List Unit)) tasks) (start Unit Exn A tasks.length)
    completed
  let lists ← collectAll batch
  return andThen lists

/-- The loop in `then` of `predict_multithread` and `calculateVector`: a response for each
    outcome that holds one. `value()` of an exception throws it. -/
def pushResponses {A B : Type} (response : A → B) (responses : List B) : List (Try Exn A) → Except Exn (List B)
  | [] => .ok responses
  | v :: lists =>
    if v.hasException then do
      -- markUnknownError
      let _ ← v.value
      pushResponses response responses lists
    else do
      let r ← v.value
      pushResponses response (responses ++ [response r]) lists

/-- The rounds of a loop: what it goes over, each with the moment of its round. -/
def rounds {A : Type} (moments : Nat → Moment) (l : List A) : List (A × Moment) := l.zipIdx.map fun x => (x.1, moments x.2)

/-- One round of the loop of `predict_multithread`: what is answered at once, and the tasks. -/
def predictRound (acc : List (PredictResponse R) × List (PredictRequest F)) (round : PredictRequest F × Moment) :
    List (PredictResponse R) × List (PredictRequest F) :=
  if shouldDowngradeModel round.2 round.1.modelName then (acc.1 ++ [makeDownGradeResponse round.1], acc.2)
  else (acc.1, acc.2 ++ [round.1])

def predictMultithread (reqs : List (PredictRequest F)) (moments : Nat → Moment)
    (completed : List (Nat × World F R V)) : Option (Except Exn (List (PredictResponse R))) :=
  let (responses, futs) := (rounds moments reqs).foldl predictRound ([], [])
  collect (fun w request => singlePredict w request.modelName request) futs (pushResponses (·.2) responses) completed

/-- One round of the loop of `multiPredict`; `emplace` keeps an entry that is there. -/
def multiPredictRound (request : PredictRequest F)
    (acc : ExtTreeMap String (PredictResponse R) × List String) (round : String × Moment) :
    ExtTreeMap String (PredictResponse R) × List String :=
  if shouldDowngradeModel round.2 round.1 then
    (acc.1.insertIfNew round.1 (makeDownGradeResponse request), acc.2)
  else (acc.1, acc.2 ++ [round.1])

/-- The loop in `then` of `multiPredict`. -/
def emplaceResponses (modelResponses : ExtTreeMap String (PredictResponse R)) :
    List (Try Exn (String × PredictResponse R)) → Except Exn (ExtTreeMap String (PredictResponse R))
  | [] => .ok modelResponses
  | v :: lists =>
    if v.hasException then do
      -- markUnknownError
      let _ ← v.value
      emplaceResponses modelResponses lists
    else do
      let r ← v.value
      emplaceResponses (modelResponses.insertIfNew r.1 r.2) lists

def multiPredict (request : MultiPredictRequest F) (moments : Nat → Moment) (completed : List (Nat × World F R V)) :
    Option (Except Exn (MultiPredictResponse R)) :=
  let (modelResponses, futs) :=
    (rounds moments request.modelNames).foldl (multiPredictRound request.singleRequest) (∅, [])
  collect (fun w modelFullName => singlePredict w modelFullName request.singleRequest) futs
    (fun lists => do
      let modelResponses ← emplaceResponses modelResponses lists
      return { reqId := request.reqId, modelResponses, returnCode := 0 }) completed

def calculateVector (reqs : List (CalculateVectorRequest F)) (completed : List (Nat × World F R V)) :
    Option (Except Exn (List (CalculateVectorResponse V))) :=
  collect singleCalculateVector reqs (pushResponses id []) completed

/-- The loop in `then` of `calculateBatchVector`, which does not skip an exception. -/
def pushBatchResponses (responses : List (CalculateBatchVectorResponse V)) :
    List (Try Exn (CalculateBatchVectorResponse V)) → Except Exn (List (CalculateBatchVectorResponse V))
  | [] => .ok responses
  | v :: lists => do
    if v.hasException then
      -- markUnknownError
      let _ ← v.value
    let r ← v.value
    pushBatchResponses (responses ++ [r]) lists

def calculateBatchVector (reqs : List (CalculateBatchVectorRequest F)) (completed : List (Nat × World F R V)) :
    Option (Except Exn (List (CalculateBatchVectorResponse V))) :=
  collect singleCalculateBatchVector reqs (pushBatchResponses []) completed

end ModelManager

end PredictorService.Server
