/-
  PredictorService.FeatureMaster.ParameterExtractor — extracting parameters from features
  (feature_master/parameter/parameter_extractor.h and .cc).

  An extractor turns the values of the features that it is configured with into hashes: `id`
  each value, `discrete` the bucket of each number, `cross` each tuple of values of a group
  of features. The manager keeps the extractors of its configuration, the cross ones last.

  CityHash, the machine's doubles with folly's conversion, and the JSON parser are outside:
  `City`, `Doubles` and `parse`. A discrete extractor whose arguments are refused keeps the
  fields that were not set yet; what memory holds there is `unset`, and it is every object's
  own: `memory` gives it for the object of each entry that one call reads. Logs and the
  catch-all around the loop over the extractors, which throw nothing but for memory, are
  left out.
-/

import Mathlib.Data.Rat.Floor
import PredictorService.FeatureMaster.Feature
import PredictorService.FeatureMaster.Parameter
import PredictorService.FeatureMaster.ParameterConfig
import PredictorService.Thirdparty.City

namespace PredictorService.FeatureMaster

open PredictorService.Common (follySplit follyToInt64 follyToUInt32)
open PredictorService.Thirdparty.Rapidjson

variable {Dbl : Type}

/-- The hash functions, on the bytes that they are given. -/
structure City where
  cityHash64 : List UInt8 → UInt64
  cityHash64WithSeed : List UInt8 → UInt64 → UInt64

/-- The functions that are vendored. -/
def City.vendored : City where
  cityHash64 := Thirdparty.cityHash64
  cityHash64WithSeed bytes seed := Thirdparty.hashLen16 (Thirdparty.cityHash64 bytes - Thirdparty.k2) seed

structure Doubles (Dbl : Type) where
  /-- A double in memory. -/
  bytes : Dbl → List UInt8
  ofInt64 : Int64 → Dbl
  ofUnsigned : UInt32 → Dbl
  add : Dbl → Dbl → Dbl
  mul : Dbl → Dbl → Dbl
  div : Dbl → Dbl → Dbl
  /-- `int64_t n = std::floor(x)`. -/
  floorToInt64 : Dbl → Int64
  /-- `folly::to<double>`; `none` when it throws. -/
  follyToDouble : String → Option Dbl

/-- A whole double as an `int64_t`, on x86. -/
def x86ToInt64 (n : Int) : Int64 :=
  if Int64.minValue.toInt ≤ n ∧ n ≤ Int64.maxValue.toInt then Int64.ofInt n else Int64.minValue

/-- Doubles that are as exact as rational numbers. -/
def Doubles.exact (bytes : ℚ → List UInt8) (follyToDouble : String → Option ℚ) : Doubles ℚ where
  bytes := bytes
  ofInt64 n := n.toInt
  ofUnsigned n := n.toNat
  add := (· + ·)
  mul := (· * ·)
  div := (· / ·)
  floorToInt64 x := x86ToInt64 x.floor
  follyToDouble := follyToDouble

/-- An `int64_t` in memory, on a little-endian machine. -/
def int64Bytes (n : Int64) : List UInt8 := (List.range 8).map fun i => (n.toUInt64 >>> (8 * i).toUInt64).toUInt8

def stringBytes (s : String) : List UInt8 := s.toUTF8.toList

variable (city : City) (doubles : Doubles Dbl)

/-- `value %= config_.hash_size_`, where there is one. -/
def ParameterConfig.reduce (config : ParameterConfig) (value : UInt64) : UInt64 :=
  if config.hashSize ≠ 0 then value % config.hashSize else value

/-- The loop over a list of values, given the bytes that are hashed for each. -/
def pushHashes (config : ParameterConfig) (parameters : Parameters) (values : List (List UInt8)) : Parameters :=
  values.foldl (fun parameters bytes => parameters ++ [⟨config.group, config.reduce (city.cityHash64 bytes)⟩]) parameters

/-! ## The id extractor -/

/-- `ParameterExtractor::genParameterValues`. -/
def genParameterValues (config : ParameterConfig) (parameters : Parameters) (feature : Feature Dbl) : Parameters :=
  match feature.featureType with
  | .stringList => pushHashes city config parameters (feature.stringValues.map stringBytes)
  | .int64List => pushHashes city config parameters (feature.int64Values.map int64Bytes)
  | .floatList => pushHashes city config parameters (feature.floatValues.map doubles.bytes)
  | .other _ => parameters

/-! ## The discrete extractor -/

/-- The fields of `ParameterExtractorDiscrete`. -/
structure DiscreteArgs (Dbl : Type) where
  denom : Dbl
  smooth : Dbl
  minBucketNumber : Int64
  maxBucketNumber : Int64
  buckets : UInt32
  deriving DecidableEq, Repr

/-- What `initArgs` returns, and the fields after it. They are set in this order, and those
    before a conversion that throws stay set. -/
def initArgs (unset : DiscreteArgs Dbl) (extractorArgs : String) : Bool × DiscreteArgs Dbl :=
  match follySplit ',' extractorArgs with
  | denom :: smooth :: maxBucketNumber :: minBucketNumber :: buckets :: _ =>
    match doubles.follyToDouble denom with
    | none => (false, unset)
    | some denom =>
      let args := { unset with denom := denom }
      match doubles.follyToDouble smooth with
      | none => (false, args)
      | some smooth =>
        let args := { args with smooth := smooth }
        match follyToInt64 maxBucketNumber.toList with
        | none => (false, args)
        | some maxBucketNumber =>
          let args := { args with maxBucketNumber := maxBucketNumber }
          match follyToInt64 minBucketNumber.toList with
          | none => (false, args)
          | some minBucketNumber =>
            let args := { args with minBucketNumber := minBucketNumber }
            match follyToUInt32 buckets.toList with
            | none => (false, args)
            | some buckets => (true, { args with buckets := buckets })
  | _ => (false, unset)

/-- `findBucket`; an `int64_t` is added to `smooth_` as a double. -/
def findBucket (args : DiscreteArgs Dbl) (value : Dbl) : Int64 :=
  let bucketNumber := doubles.floorToInt64
    (doubles.mul (doubles.div (doubles.add value args.smooth) args.denom) (doubles.ofUnsigned args.buckets))
  min (max bucketNumber args.minBucketNumber) args.maxBucketNumber

/-- `ParameterExtractorDiscrete::genParameterValues`. -/
def genBucketValues (config : ParameterConfig) (args : DiscreteArgs Dbl) (parameters : Parameters)
    (feature : Feature Dbl) : Parameters :=
  match feature.featureType with
  | .stringList => parameters
  | .int64List =>
    pushHashes city config parameters
      (feature.int64Values.map fun value => int64Bytes (findBucket doubles args (doubles.ofInt64 value)))
  | .floatList =>
    pushHashes city config parameters (feature.floatValues.map fun value => int64Bytes (findBucket doubles args value))
  | .other _ => parameters

/-! ## The cross extractor -/

def SEED : UInt64 := 1

/-- `featureNames` are those from the index on. -/
def genCrossParameterValues (config : ParameterConfig) (features : FeatureMap Dbl) :
    List String → UInt64 → Parameters → Parameters
  | [], key, parameters => parameters ++ [⟨config.group, config.reduce key⟩]
  | featureName :: featureNames, key, parameters =>
    match features.lookup featureName with
    | none => parameters
    | some feature =>
      match feature.featureType with
      | .stringList =>
        feature.stringValues.foldl (fun parameters value =>
          let localKey := city.cityHash64WithSeed (stringBytes value) key
          genCrossParameterValues config features featureNames localKey parameters) parameters
      | .int64List =>
        feature.int64Values.foldl (fun parameters value =>
          let localKey := city.cityHash64WithSeed (int64Bytes value) key
          genCrossParameterValues config features featureNames localKey parameters) parameters
      | .floatList =>
        feature.floatValues.foldl (fun parameters value =>
          let localKey := city.cityHash64WithSeed (doubles.bytes value) key
          genCrossParameterValues config features featureNames localKey parameters) parameters
      | .other _ => parameters

/-! ## Extractors -/

inductive ParameterExtractor (Dbl : Type) where
  | id (config : ParameterConfig)
  | discrete (config : ParameterConfig) (args : DiscreteArgs Dbl)
  | cross (config : ParameterConfig)
  deriving DecidableEq, Repr

namespace ParameterExtractor

def config : ParameterExtractor Dbl → ParameterConfig
  | id config => config
  | discrete config _ => config
  | cross config => config

/-- The constructors; `none` for the null pointer. -/
def factory (unset : DiscreteArgs Dbl) (config : ParameterConfig) : Option (ParameterExtractor Dbl) :=
  if config.extractor = EXTRACTOR_TYPE_ID then some (id config)
  else if config.extractor = EXTRACTOR_TYPE_DISCRETE then
    some (discrete config (initArgs doubles unset config.extractorArgs).2)
  else if config.extractor = EXTRACTOR_TYPE_CROSS then some (cross config)
  else none

/-- `ParameterExtractor::extract` over the virtual `genParameterValues`. -/
def extractEach (gen : Parameters → Feature Dbl → Parameters) (config : ParameterConfig) (parameters : Parameters)
    (features : FeatureMap Dbl) : Bool × Parameters :=
  (true, config.featureNames.foldl (fun parameters featureName =>
    match features.lookup featureName with
    | none => parameters
    | some feature => gen parameters feature) parameters)

def extract (parameters : Parameters) (features : FeatureMap Dbl) : ParameterExtractor Dbl → Bool × Parameters
  | id config => extractEach (genParameterValues city doubles config) config parameters features
  | discrete config args => extractEach (genBucketValues city doubles config args) config parameters features
  | cross config =>
    (true, config.featureGroups.foldl (fun parameters featureNames =>
      genCrossParameterValues city doubles config features featureNames SEED parameters) parameters)

end ParameterExtractor

/-! ## The manager -/

structure ParameterExtractorManager (Dbl : Type) where
  extractorList : List (ParameterExtractor Dbl) := []
  /-- The default constructor does not set it. -/
  isConfigValid : Bool
  deriving DecidableEq, Repr

/-- What memory holds where the object of each entry is made. -/
abbrev Memory (Dbl : Type) := Nat → DiscreteArgs Dbl

/-- The two loops of `init`, the cross extractors in the second. -/
def makeExtractors (memory : Memory Dbl) (parameterConfigs : ParameterConfigList) : List (ParameterExtractor Dbl) :=
  (parameterConfigs.zipIdx.filter (·.1.extractor ≠ EXTRACTOR_TYPE_CROSS)).filterMap
      (fun config => ParameterExtractor.factory doubles (memory config.2) config.1) ++
    (parameterConfigs.zipIdx.filter (·.1.extractor = EXTRACTOR_TYPE_CROSS)).filterMap
      (fun config => ParameterExtractor.factory doubles (memory config.2) config.1)

/-- The loop over the extractors, which ends where one returns false. -/
def runExtractors (features : FeatureMap Dbl) : List (ParameterExtractor Dbl) → Parameters → Bool × Parameters
  | [], parameters => (true, parameters)
  | item :: items, parameters =>
    match item.extract city doubles parameters features with
    | (true, parameters) => runExtractors features items parameters
    | (false, parameters) => (false, parameters)

namespace ParameterExtractorManager

variable (memory : Memory Dbl) (parse : String → Option Value)

/-- `none` when the reading of the configuration leaves an accessor's precondition. -/
def init (manager : ParameterExtractorManager Dbl) (jsonConfig : String) :
    Option (Bool × ParameterExtractorManager Dbl) := do
  let (isConfigValid, parameterConfigs) ← parseJsonConfig (document parse jsonConfig)
  if !isConfigValid then
    return (false, { manager with isConfigValid := isConfigValid })
  return (true,
    { extractorList := manager.extractorList ++ makeExtractors doubles memory parameterConfigs
      isConfigValid := isConfigValid })

/-- What the file holds; `none` when it cannot be opened. -/
def initFromFile (manager : ParameterExtractorManager Dbl) (jsonFile : Option String) :
    Option (Bool × ParameterExtractorManager Dbl) :=
  match jsonFile with
  | none => some (false, manager)
  | some jsonConfig => manager.init doubles memory parse jsonConfig

/-- The constructor with a configuration. What validity it starts from, `init` overwrites. -/
def construct (jsonConfig : String) : Option (ParameterExtractorManager Dbl) := do
  let manager : ParameterExtractorManager Dbl := { isConfigValid := false }
  let (_, manager) ← manager.init doubles memory parse jsonConfig
  return manager

def extractParameters (manager : ParameterExtractorManager Dbl) (parameters : Parameters) (features : Features Dbl) :
    Bool × Parameters :=
  if !manager.isConfigValid then (false, parameters)
  else runExtractors city doubles (featureMap features) manager.extractorList parameters

/-- The overload for a list; its loops fill one map. -/
def extractParametersOfList (manager : ParameterExtractorManager Dbl) (parameters : Parameters)
    (featuresList : List (Features Dbl)) : Bool × Parameters :=
  if !manager.isConfigValid then (false, parameters)
  else
    let feaMap := featuresList.foldl (fun feaMap features =>
      features.foldl (fun feaMap feature => feaMap.insert feature.featureName feature) feaMap) (∅ : FeatureMap Dbl)
    runExtractors city doubles feaMap manager.extractorList parameters

end ParameterExtractorManager

end PredictorService.FeatureMaster
