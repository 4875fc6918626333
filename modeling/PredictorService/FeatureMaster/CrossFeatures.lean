/-
  PredictorService.FeatureMaster.CrossFeatures — what the cross extractor appends.

  `genCrossParameterValues` goes down the features of a group and carries the hash of what
  it has taken so far. A tuple with a value of each feature is hashed at the bottom, so a
  group appends one parameter for each tuple, in lexicographic order (`genCross_eq`), and
  nothing where one of its features has no values. `cross_extracts` is the whole extractor.
-/

import PredictorService.FeatureMaster.ParameterExtractor
import PredictorService.Lib.Cartesian

namespace PredictorService.FeatureMaster

open PredictorService.Lib

variable {Dbl : Type} (city : City) (doubles : Doubles Dbl)

/-! ## The values of a feature -/

/-- The bytes of the values that its type says; none for a type without a name. -/
def Feature.valueBytes (feature : Feature Dbl) : List (List UInt8) :=
  match feature.featureType with
  | .stringList => feature.stringValues.map stringBytes
  | .int64List => feature.int64Values.map int64Bytes
  | .floatList => feature.floatValues.map doubles.bytes
  | .other _ => []

/-- The values under a name; none where it is missing. -/
def valueList (features : FeatureMap Dbl) (name : String) : List (List UInt8) :=
  ((features.lookup name).map (Feature.valueBytes doubles)).getD []

theorem genCross_cons (config : ParameterConfig) (features : FeatureMap Dbl) (name : String) (names : List String)
    (key : UInt64) (parameters : Parameters) :
    genCrossParameterValues city doubles config features (name :: names) key parameters =
      (valueList doubles features name).foldl (fun parameters bytes =>
        genCrossParameterValues city doubles config features names (city.cityHash64WithSeed bytes key) parameters)
        parameters := by
  rw [genCrossParameterValues, valueList]
  cases features.lookup name with
  | none => rfl
  | some feature =>
    simp only [Feature.valueBytes, Option.map_some, Option.getD_some]
    cases feature.featureType <;> simp [List.foldl_map]

/-! ## Tuples -/

/-- The tuples of a group, a value of each feature. -/
def crossTuples (features : FeatureMap Dbl) (names : List String) : List (List (List UInt8)) :=
  cartesian (names.map (valueList doubles features))

/-- The hash of a tuple, from `key` on. -/
def tupleHash (key : UInt64) (tuple : List (List UInt8)) : UInt64 :=
  tuple.foldl (fun key bytes => city.cityHash64WithSeed bytes key) key

def tupleParameter (config : ParameterConfig) (tuple : List (List UInt8)) : Parameter :=
  ⟨config.group, config.reduce (tupleHash city SEED tuple)⟩

/-- The recursion goes through the tuples. -/
theorem genCross_eq (config : ParameterConfig) (features : FeatureMap Dbl) (names : List String) (key : UInt64)
    (parameters : Parameters) :
    genCrossParameterValues city doubles config features names key parameters =
      parameters ++ ((crossTuples doubles features names).map (tupleHash city key)).map fun key =>
        ⟨config.group, config.reduce key⟩ := by
  induction names generalizing key parameters with
  | nil => rfl
  | cons name names ih =>
    have hmap : (crossTuples doubles features (name :: names)).map (tupleHash city key) =
        (valueList doubles features name).flatMap fun bytes =>
          (crossTuples doubles features names).map (tupleHash city (city.cityHash64WithSeed bytes key)) :=
      foldl_cartesian _ _ _ _
    rw [genCross_cons, hmap, List.map_flatMap]
    simp only [ih, List.foldl_append_eq_append, List.flatMap_def]

/-- A feature that is missing, has a type without a name or has no values. -/
def NoValues (features : FeatureMap Dbl) (name : String) : Prop :=
  features.lookup name = none ∨
    ∃ feature, features.lookup name = some feature ∧
      ((∃ n, feature.featureType = .other n) ∨ feature.valueBytes doubles = [])

theorem valueList_eq_nil {features : FeatureMap Dbl} {name : String} (h : NoValues doubles features name) :
    valueList doubles features name = [] := by
  unfold valueList
  rcases h with h | ⟨feature, h, ⟨n, hn⟩ | hnil⟩
  · simp [h]
  · simp [h, Feature.valueBytes, hn]
  · simp [h, hnil]

theorem crossTuples_eq_nil {features : FeatureMap Dbl} {names : List String} {name : String} (hname : name ∈ names)
    (h : NoValues doubles features name) : crossTuples doubles features names = [] :=
  cartesian_eq_nil_iff.mpr (List.mem_map.mpr ⟨name, hname, valueList_eq_nil doubles h⟩)

theorem cross_extract_eq (config : ParameterConfig) (features : FeatureMap Dbl) (parameters : Parameters) :
    (ParameterExtractor.cross config).extract city doubles parameters features =
      (true, parameters ++ config.featureGroups.flatMap fun names =>
        (crossTuples doubles features names).map (tupleParameter city config)) := by
  have hgroup : ∀ parameters names, genCrossParameterValues city doubles config features names SEED parameters =
      parameters ++ (crossTuples doubles features names).map (tupleParameter city config) := by
    intro parameters names
    rw [genCross_eq, List.map_map]
    rfl
  simp only [ParameterExtractor.extract, hgroup, List.foldl_append_eq_append, List.flatMap_def]

/-- What was there stays in place. Behind it stand, group by group, the parameters of the
    tuples in lexicographic order; a group with a feature without values has none. -/
theorem cross_extracts (config : ParameterConfig) (features : FeatureMap Dbl) (parameters : Parameters) :
    (ParameterExtractor.cross config).extract city doubles parameters features =
        (true, parameters ++ config.featureGroups.flatMap fun names =>
          (crossTuples doubles features names).map (tupleParameter city config)) ∧
      ∀ names ∈ config.featureGroups,
        LexProduct (names.map (valueList doubles features)) (crossTuples doubles features names) ∧
        ((∃ name ∈ names, NoValues doubles features name) → crossTuples doubles features names = []) := by
  refine ⟨cross_extract_eq city doubles config features parameters, fun names _ => ⟨lexProduct_cartesian _, ?_⟩⟩
  intro h
  obtain ⟨name, hname, h⟩ := h
  exact crossTuples_eq_nil doubles hname h

end PredictorService.FeatureMaster
