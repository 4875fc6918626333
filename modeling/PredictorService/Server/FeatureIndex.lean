/-
  PredictorService.Server.FeatureIndex — the features of an item under their names, in the
  two APIs (predictor/server/feature_extractor/basic_extractor.cc,
  predictor/server/model_manager/framework/tf/tf_model_estimator_single_fea.cc).

  Both take the common features and then those of the item. The older estimator assigns, so
  a feature of the item replaces a common one of its name; the extractor of the new API
  emplaces, and the common one stays. They build one map exactly where the first feature of
  each name is also the last (`feature_index_iff`).

  The maps hold pointers; what a pointer points to stands in its place. The run of the
  session on the examples is not modelled here.
-/

import PredictorService.FeatureMaster.Feature
import PredictorService.Server.ParallelPredict

namespace PredictorService.Server

open PredictorService.FeatureMaster
open PredictorService.Lib

variable {Dbl : Type}

/-- `extractedFeatures` is what `getPtrFromAny` finds; `none` when it returns false. -/
def BasicExtractor.extractItemFeatures (extractedFeatures : Option (FeatureMap Dbl))
    (itemFeatures commonFeatures : Features Dbl) : Option (FeatureMap Dbl) :=
  extractedFeatures.map fun feaMap =>
    let feaMap := FinMap.emplaceAll feaMap (commonFeatures.map fun feature => (feature.featureName, feature))
    FinMap.emplaceAll feaMap (itemFeatures.map fun feature => (feature.featureName, feature))

namespace TFModelEstimatorSingleFea

/-- `fea` in `predict`, when its two loops are through. -/
def fea (commonFeatures itemFeatures : Features Dbl) : FeatureMap Dbl :=
  let fea := FinMap.insertAll ∅ (commonFeatures.map fun feature => (feature.featureName, feature))
  FinMap.insertAll fea (itemFeatures.map fun feature => (feature.featureName, feature))

/-- `examples` in `predict`. -/
def examples (request : PredictRequest (Features Dbl)) : List (Int64 × FeatureMap Dbl) :=
  request.itemFeatures.toList.map fun kv => (kv.1, fea request.commonFeatures kv.2)

end TFModelEstimatorSingleFea

/-- The first feature with this name. -/
def firstNamed (features : Features Dbl) (name : String) : Option (Feature Dbl) :=
  (features.filter (·.featureName = name)).head?

/-- No feature is overridden by another one that differs. -/
def NoOverride (commonFeatures itemFeatures : Features Dbl) : Prop :=
  ∀ name, firstNamed (commonFeatures ++ itemFeatures) name = lastNamed (commonFeatures ++ itemFeatures) name

/-! ## The two maps -/

theorem fea_eq (commonFeatures itemFeatures : Features Dbl) :
    TFModelEstimatorSingleFea.fea commonFeatures itemFeatures = featureMap (commonFeatures ++ itemFeatures) := by
  rw [featureMap, List.map_append, FinMap.insertAll, List.foldl_append]
  rfl

theorem extractItemFeatures_eq (itemFeatures commonFeatures : Features Dbl) :
    BasicExtractor.extractItemFeatures (some ∅) itemFeatures commonFeatures =
      some (FinMap.emplaceAll ∅ ((commonFeatures ++ itemFeatures).map fun feature => (feature.featureName, feature))) := by
  rw [List.map_append, FinMap.emplaceAll, List.foldl_append]
  rfl

theorem index_eq_iff {commonFeatures itemFeatures : Features Dbl} :
    BasicExtractor.extractItemFeatures (some ∅) itemFeatures commonFeatures =
        some (TFModelEstimatorSingleFea.fea commonFeatures itemFeatures) ↔
      NoOverride commonFeatures itemFeatures := by
  rw [extractItemFeatures_eq, fea_eq, featureMap, Option.some_inj, FinMap.emplaceAll_eq_insertAll_iff]
  refine forall_congr' fun name => ?_
  simp [FinMap.pushedAt, firstNamed, lastNamed, List.filter_map, Function.comp_def]

theorem extractItem_basic (commonFeatures : Features Dbl) (item : Int64 × Features Dbl) :
    Model.extractItem (BasicExtractor.extractItemFeatures (some ∅)) commonFeatures item =
      [(item.1, FinMap.emplaceAll ∅
        ((commonFeatures ++ item.2).map fun feature => (feature.featureName, feature)))] := by
  rw [Model.extractItem, extractItemFeatures_eq]

/-- The examples of a request are the same when the maps of each item are. -/
theorem examples_eq_iff {request : PredictRequest (Features Dbl)} :
    Model.extractOneByOne (BasicExtractor.extractItemFeatures (some ∅)) request =
        TFModelEstimatorSingleFea.examples request ↔
      ∀ kv ∈ request.itemFeatures.toList, NoOverride request.commonFeatures kv.2 := by
  simp only [Model.extractOneByOne, TFModelEstimatorSingleFea.examples, funext (extractItem_basic _),
    ← List.map_eq_flatMap, List.map_inj_left]
  refine forall₂_congr fun kv _ => ?_
  rw [← index_eq_iff, extractItemFeatures_eq, Option.some_inj, Prod.mk.injEq]
  exact and_iff_right rfl

/-- Old and new indexing agree exactly where no feature is overridden. -/
theorem feature_index_iff :
    (∀ commonFeatures itemFeatures : Features Dbl,
      BasicExtractor.extractItemFeatures (some ∅) itemFeatures commonFeatures =
          some (TFModelEstimatorSingleFea.fea commonFeatures itemFeatures) ↔
        NoOverride commonFeatures itemFeatures) ∧
    ∀ request : PredictRequest (Features Dbl),
      Model.extractOneByOne (BasicExtractor.extractItemFeatures (some ∅)) request =
          TFModelEstimatorSingleFea.examples request ↔
        ∀ kv ∈ request.itemFeatures.toList, NoOverride request.commonFeatures kv.2 :=
  ⟨fun _ _ => index_eq_iff, fun _ => examples_eq_iff⟩

/-- An item's own value of a feature that the request has for all its items. -/
theorem overridden_feature :
    let common : Feature Nat := { featureName := "ctr", featureType := .int64List, int64Values := [1] }
    let own : Feature Nat := { featureName := "ctr", featureType := .int64List, int64Values := [2] }
    (TFModelEstimatorSingleFea.fea [common] [own]).lookup "ctr" = some own ∧
      ((BasicExtractor.extractItemFeatures (some ∅) [own] [common]).bind (·.lookup "ctr")) = some common ∧
      BasicExtractor.extractItemFeatures (some ∅) [own] [common] ≠
        some (TFModelEstimatorSingleFea.fea [common] [own]) := by
  intro common own
  have hold : (TFModelEstimatorSingleFea.fea [common] [own]).lookup "ctr" = some own := by
    rw [fea_eq, lookup_featureMap]
    rfl
  have hnew : ((BasicExtractor.extractItemFeatures (some ∅) [own] [common]).bind (·.lookup "ctr")) = some common := by
    rw [extractItemFeatures_eq, Option.bind_some, FinMap.lookup_emplaceAll, Finmap.lookup_empty]
    rfl
  refine ⟨hold, hnew, fun heq => ?_⟩
  rw [heq, Option.bind_some, hold] at hnew
  have hvalues := congrArg (Option.map Feature.int64Values) hnew
  exact absurd hvalues (by decide)

end PredictorService.Server
