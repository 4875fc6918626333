/-
  PredictorService.FeatureMaster.Feature — the features of an item
  (feature_master/if/feature_master.thrift).

  A feature's type says which of its three lists is meant. Thrift does not check the number
  of an enumerator that it reads, so a feature may also have a type without a name; its
  list is none of the three. Doubles are a type parameter.

  Code that looks features up by name first fills a map, in which the last feature of a
  name stays (`lookup_featureMap`).
-/

import PredictorService.Lib.FinMap

namespace PredictorService.FeatureMaster

open PredictorService.Lib

variable {Dbl : Type}

inductive FeatureType where
  | stringList
  | floatList
  | int64List
  /-- A number that no enumerator has. -/
  | other (n : Int32)
  deriving DecidableEq, Repr

structure Feature (Dbl : Type) where
  featureName : String := ""
  featureType : FeatureType
  stringValues : List String := []
  floatValues : List Dbl := []
  int64Values : List Int64 := []
  deriving DecidableEq, Repr

abbrev Features (Dbl : Type) := List (Feature Dbl)

/-- `std::unordered_map<std::string, const Feature*>`. -/
abbrev FeatureMap (Dbl : Type) := FinMap String (Feature Dbl)

/-- A loop of `fea_map[feature.get_feature_name()] = &feature`. -/
def featureMap (features : Features Dbl) : FeatureMap Dbl :=
  FinMap.insertAll ∅ (features.map fun feature => (feature.featureName, feature))

/-- The last feature with this name. -/
def lastNamed (features : Features Dbl) (name : String) : Option (Feature Dbl) :=
  (features.filter (·.featureName = name)).getLast?

theorem lookup_featureMap (features : Features Dbl) (name : String) :
    (featureMap features).lookup name = lastNamed features name := by
  rw [featureMap, FinMap.lookup_insertAll, Finmap.lookup_empty, Option.or_none]
  simp [FinMap.pushedAt, lastNamed, List.filter_map, Function.comp_def]

/-- The map depends on nothing but the last feature of each name. -/
theorem featureMap_congr {features features' : Features Dbl}
    (h : ∀ name, lastNamed features name = lastNamed features' name) :
    featureMap features = featureMap features' :=
  Finmap.ext_lookup fun name => by rw [lookup_featureMap, lookup_featureMap, h]

end PredictorService.FeatureMaster
