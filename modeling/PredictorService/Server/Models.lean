/-
  PredictorService.Server.Models — the models that evaluate a request
  (predictor/server/model_manager/framework: model.h, tf/tf_model_base.h,
  catboost/catboost_model.cc).

  Both kinds of model cut the items of a request into slices (`split_slice`) and give each
  slice to a task of `getHeavyTasksThreadPool`. `extractFeaturesInParallel` lets the tasks
  append to one vector under a lock, so the rows of a TensorFlow model stand in the order
  in which the tasks came to them. The tasks of a CatBoost model return a map each.

  TensorFlow, CatBoost and the feature extractor are outside. An extractor says by its
  result whether it succeeded, and `Calc` fails by an exception. Floats and doubles are
  type parameters with the operations that the code uses. Metrics, logs and the null
  checks of pointers that are never null are left out.
-/

import PredictorService.FeatureMaster.Feature
import PredictorService.Lib.TaskPool
import PredictorService.Server.PredictorRouter

namespace PredictorService.Server

open Std (ExtTreeMap)
open PredictorService.Lib (run emplaceAll)
open PredictorService.Lib.Futures (Try start complete collectAll)
open PredictorService.Lib.TaskPool (Pool appendStep)
open PredictorRouter (sliceItems)
open PredictorService.FeatureMaster (Feature Features)

variable {F X Flt Dbl : Type}

/-- The flags that decide how a request is cut. -/
structure PredictFlags where
  minItemsPerThread : Int64 := 20
  featureExtractTasksNum : Int64 := 0
  deriving DecidableEq, Repr

/-- `feature_master.PredictResults`. -/
structure PredictResults (Dbl : Type) where
  preds : ExtTreeMap String Dbl := ∅
  deriving DecidableEq

/-! ## Extracting features (framework/model.h) -/

namespace Model

/-- What an item adds to `extracted_features`. -/
def extractItem (extractItemFeatures : F → F → Option X) (commonFeatures : F) (item : Int64 × F) :
    List (Int64 × X) :=
  match extractItemFeatures item.2 commonFeatures with
  | some extracted => [(item.1, extracted)]
  | none => []

/-- The tasks, before any of them has begun: each has the items of its range to go. -/
def extractTasks (request : PredictRequest F) (minItemPerTask maxTasksNum : Int32) : List (List (Int64 × F)) :=
  let ranges := (splitSlice (UInt32.ofNat request.itemFeatures.size) minItemPerTask.toUInt32 maxTasksNum.toUInt32).getD []
  ranges.map (sliceItems request.itemFeatures.toList)

/-- `schedule` says which task takes the next item; `none` unless it brings all of them to
    their end. -/
def extractFeaturesInParallel (extractItemFeatures : F → F → Option X) (extractedFeatures : List (Int64 × X))
    (request : PredictRequest F) (minItemPerTask maxTasksNum : Int32) (schedule : List Nat) :
    Option (List (Int64 × X)) :=
  if minItemPerTask < 1 ∨ maxTasksNum < 1 then some extractedFeatures
  else do
    let pool ← run (appendStep (extractItem extractItemFeatures request.commonFeatures))
      ⟨extractedFeatures, extractTasks request minItemPerTask maxTasksNum⟩ schedule
    if pool.Idle then some pool.store else none

end Model

/-! ## TensorFlow (framework/tf/tf_model_base.h) -/

/-- `tensorflow::Tensor` of floats: its shape, and its elements, the last index fastest. -/
structure Tensor (Flt : Type) where
  dims : List Nat
  data : List Flt
  deriving DecidableEq, Repr

/-- `tmap(i)`: with one index a `TensorMap` of any rank is the row of its elements
    (Eigen's TensorMap.h). `none` when that is past the end. -/
def Tensor.at? (tensor : Tensor Flt) (i : Nat) : Option Flt := tensor.data[i]?

structure TFModelBase (F X Flt Dbl : Type) where
  extractItemFeatures : F → F → Option X
  /-- `none` when it returns false. -/
  tfCalculateOutputs : List (Int64 × X) → Option (List (Tensor Flt))
  negativeSamplingRatio : Dbl
  /-- A float as a double. -/
  toDouble : Flt → Dbl

namespace TFModelBase

variable [OfNat Dbl 0] [OfNat Dbl 1] [Add Dbl] [Sub Dbl] [Div Dbl] [BEq Dbl]

def restoreFromNegativeSampling (origin negativeSamplingRatio : Dbl) : Dbl :=
  origin / (origin + (1 - origin) / negativeSamplingRatio)

variable (model : TFModelBase F X Flt Dbl)

/-- The value of `preds["ctr"]`. -/
def ctr (t : Flt) : Dbl :=
  if model.negativeSamplingRatio != 0 && model.negativeSamplingRatio != 1 then
    restoreFromNegativeSampling (model.toDouble t) model.negativeSamplingRatio
  else model.toDouble t

/-- The loop over the examples, from the `i`-th on. -/
def fillResults (output : Tensor Flt) (i : Nat) (resultsMap : ExtTreeMap Int64 (PredictResults Dbl)) :
    List (Int64 × X) → Option (ExtTreeMap Int64 (PredictResults Dbl))
  | [] => some resultsMap
  | item :: examples => do
    let t ← output.at? i
    fillResults output (i + 1) (resultsMap.insert item.1 { preds := {("ctr", model.ctr t)} }) examples

/-- `none` when a read is past the tensor's end, and where `tensor<float, 2>()` stops the
    process because the rank is another. -/
def constructPredictResponse (response : PredictResponse (PredictResults Dbl)) (outputs : List (Tensor Flt))
    (examples : List (Int64 × X)) (reqId : String) : Option (Bool × PredictResponse (PredictResults Dbl)) :=
  match outputs with
  | [output] =>
    match output.dims with
    | [] => some (false, response)
    | outputSize :: dims =>
      if examples.length ≠ outputSize then some (false, response)
      else if dims.length ≠ 1 then none
      else do
        let resultsMap ← model.fillResults output 0 response.resultsMap examples
        return (true, { reqId := reqId, resultsMap := resultsMap })
  | _ => some (false, response)

/-- From the extracted features on. What `constructPredictResponse` returns is not looked
    at. -/
def predictExamples (response : PredictResponse (PredictResults Dbl)) (itemFeatures : List (Int64 × X))
    (reqId : String) : Option (Bool × PredictResponse (PredictResults Dbl)) :=
  match model.tfCalculateOutputs itemFeatures with
  | none => some (false, response)
  | some outputs => do
    let (_, response) ← model.constructPredictResponse response outputs itemFeatures reqId
    return (true, response)

/-- The flags are truncated to `int`. -/
def predict (flags : PredictFlags) (response : PredictResponse (PredictResults Dbl)) (request : PredictRequest F)
    (schedule : List Nat) : Option (Bool × PredictResponse (PredictResults Dbl)) :=
  if request.itemFeatures.isEmpty then some (true, response)
  else do
    let itemFeatures ← Model.extractFeaturesInParallel model.extractItemFeatures [] request
      flags.minItemsPerThread.toInt32 flags.featureExtractTasksNum.toInt32 schedule
    model.predictExamples response itemFeatures request.reqId

end TFModelBase

/-! ## CatBoost (framework/catboost/catboost_model.cc) -/

structure CatboostModel (Flt Dbl : Type) where
  /-- Its `Calc`, which can throw. -/
  catboostCalcer : List Flt → List String → Except Exn Dbl
  /-- A double as a float. -/
  toFloat : Dbl → Flt

namespace CatboostModel

variable (model : CatboostModel Flt Dbl)

/-- `none` when the loop goes on with the next item. -/
def calcItem (itemFeatures : Features Dbl) : Option Dbl :=
  match itemFeatures with
  | [floats, strings] =>
    if floats.featureType ≠ .floatList ∨ strings.featureType ≠ .stringList then none
    else
      match model.catboostCalcer (floats.floatValues.map model.toFloat) strings.stringValues with
      | .ok pred => some pred
      | .error _ => none
  | _ => none

/-- The task of a range. It catches what `Calc` throws. -/
def rangePredict (items : List (Int64 × Features Dbl)) (range : Range) (_ : Unit) :
    Try Exn (ExtTreeMap Int64 (ExtTreeMap String Dbl)) :=
  .ok <| (sliceItems items range).foldl (fun rangeRes item =>
    match model.calcItem item.2 with
    | some pred => rangeRes.insertIfNew item.1 {("ctr", pred)}
    | none => rangeRes) ∅

/-- The loop in `then`. -/
def collectResults (resultsMap : ExtTreeMap Int64 (PredictResults Dbl)) :
    List (Try Exn (ExtTreeMap Int64 (ExtTreeMap String Dbl))) → ExtTreeMap Int64 (PredictResults Dbl)
  | [] => resultsMap
  | .error _ :: list => collectResults resultsMap list
  | .ok rangeRes :: list =>
    collectResults (emplaceAll resultsMap (rangeRes.toList.map fun t => (t.1, { preds := t.2 }))) list

/-- The ranges; none when `split_slice` returns false. The flags are truncated to
    `unsigned`. -/
def predictRanges (flags : PredictFlags) (itemsSize : Nat) : List Range :=
  (splitSlice (UInt32.ofNat itemsSize) flags.minItemsPerThread.toUInt64.toUInt32
    flags.featureExtractTasksNum.toUInt64.toUInt32).getD []

/-- `completed` is the order in which the tasks end; `none` while one is pending. -/
def predict (flags : PredictFlags) (response : PredictResponse (PredictResults Dbl))
    (request : PredictRequest (Features Dbl)) (completed : List (Nat × Unit)) :
    Option (Bool × PredictResponse (PredictResults Dbl)) :=
  if request.itemFeatures.isEmpty then some (true, response)
  else do
    let ranges := predictRanges flags request.itemFeatures.size
    let batch ← run (complete (model.rangePredict request.itemFeatures.toList) (fun _ _ => ([] : List Unit)) ranges)
      (start Unit Exn (ExtTreeMap Int64 (ExtTreeMap String Dbl)) ranges.length) completed
    let list ← collectAll batch
    return (true, { response with resultsMap := collectResults ∅ list })

end CatboostModel

end PredictorService.Server
