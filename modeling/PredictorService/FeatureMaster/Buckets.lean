/-
  PredictorService.FeatureMaster.Buckets — the bucket of a number.

  `findBucket` takes the floor of a quotient, converts it to 64 bits and clamps it into the
  buckets, in this order. A floor from 2 ^ 63 on converts to the least number there is, and
  lands in the bottom bucket; below -2 ^ 63 the same is harmless (`toInt_findBucket`). So the
  bucket is the clamped floor exactly where the floor is below 2 ^ 63, or there is one
  bucket only.

  Arguments that are refused leave the extractor in place: it goes on with the fields that
  were not set, and extracts nothing exactly from features without numbers
  (`discretisation_iff`). Numbers are exact here.
-/

import PredictorService.FeatureMaster.Extraction
import PredictorService.Lib.MachineInts

namespace PredictorService.FeatureMaster

open PredictorService.Lib

/-! ## The law -/

def bucketQuotient (args : DiscreteArgs ℚ) (value : ℚ) : ℚ :=
  (value + args.smooth) / args.denom * args.buckets.toNat

namespace DiscreteArgs

/-- An integer clamped into the buckets. -/
def clamp (args : DiscreteArgs ℚ) (n : ℤ) : ℤ := min (max n args.minBucketNumber.toInt) args.maxBucketNumber.toInt

structure Sound (args : DiscreteArgs ℚ) : Prop where
  denom_pos : 0 < args.denom
  buckets_pos : 1 ≤ args.buckets
  min_le_max : args.minBucketNumber ≤ args.maxBucketNumber

/-- The floor is below 2 ^ 63, unless there is one bucket only. -/
def Fits (args : DiscreteArgs ℚ) (value : ℚ) : Prop :=
  ⌊bucketQuotient args value⌋ < 2 ^ 63 ∨ args.minBucketNumber = args.maxBucketNumber

end DiscreteArgs

variable (bytes : ℚ → List UInt8) (follyToDouble : String → Option ℚ)

/-- The bucket is the clamped floor. -/
def LawAt (args : DiscreteArgs ℚ) (value : ℚ) : Prop :=
  (findBucket (Doubles.exact bytes follyToDouble) args value).toInt = args.clamp ⌊bucketQuotient args value⌋

theorem toInt_x86ToInt64 (n : ℤ) : (x86ToInt64 n).toInt = if -2 ^ 63 ≤ n ∧ n < 2 ^ 63 then n else -2 ^ 63 := by
  have hmin : Int64.minValue.toInt = -2 ^ 63 := by decide
  have hmax : Int64.maxValue.toInt = 2 ^ 63 - 1 := by decide
  rw [x86ToInt64, hmin, hmax]
  split_ifs with h h' h'
  · exact Int64.toInt_ofInt_of_le (by omega) (by omega)
  · omega
  · omega
  · exact hmin

theorem toInt_findBucket (args : DiscreteArgs ℚ) (value : ℚ) :
    (findBucket (Doubles.exact bytes follyToDouble) args value).toInt =
      args.clamp (if -2 ^ 63 ≤ ⌊bucketQuotient args value⌋ ∧ ⌊bucketQuotient args value⌋ < 2 ^ 63
        then ⌊bucketQuotient args value⌋ else -2 ^ 63) := by
  rw [findBucket, toInt64_min, toInt64_max, DiscreteArgs.clamp, ← toInt_x86ToInt64]
  rfl

/-- The order of conversion and clamping shows above only. -/
theorem lawAt_iff {args : DiscreteArgs ℚ} (h : args.Sound) (value : ℚ) :
    LawAt bytes follyToDouble args value ↔ args.Fits value := by
  have hle := Int64.le_iff_toInt_le.mp h.min_le_max
  have hmin := args.minBucketNumber.le_toInt
  have hmax := args.maxBucketNumber.toInt_lt
  rw [LawAt, toInt_findBucket, DiscreteArgs.Fits, ← Int64.toInt_inj]
  unfold DiscreteArgs.clamp
  split_ifs <;> omega

theorem bucketQuotient_mono {args : DiscreteArgs ℚ} (h : args.Sound) {v w : ℚ} (hvw : v ≤ w) :
    bucketQuotient args v ≤ bucketQuotient args w := by
  have := h.denom_pos.le
  unfold bucketQuotient
  gcongr

/-- Up to a value that fits, buckets grow with the values. -/
theorem findBucket_mono {args : DiscreteArgs ℚ} (h : args.Sound) {v w : ℚ} (hvw : v ≤ w) (hw : args.Fits w) :
    findBucket (Doubles.exact bytes follyToDouble) args v ≤ findBucket (Doubles.exact bytes follyToDouble) args w := by
  have hfloor := Int.floor_mono (bucketQuotient_mono h hvw)
  have hv : args.Fits v := hw.imp_left (lt_of_le_of_lt hfloor)
  rw [Int64.le_iff_toInt_le, (lawAt_iff bytes follyToDouble h v).mpr hv, (lawAt_iff bytes follyToDouble h w).mpr hw]
  exact min_le_min_right _ (max_le_max_right _ hfloor)

/-- From the lower edge of the top bucket on, the values that fit are those in it. -/
theorem findBucket_top_iff {args : DiscreteArgs ℚ} (h : args.Sound) {value : ℚ}
    (hedge : args.maxBucketNumber.toInt ≤ bucketQuotient args value) :
    findBucket (Doubles.exact bytes follyToDouble) args value = args.maxBucketNumber ↔ args.Fits value := by
  have hfloor : args.maxBucketNumber.toInt ≤ ⌊bucketQuotient args value⌋ := Int.le_floor.mpr hedge
  rw [← lawAt_iff bytes follyToDouble h, LawAt, ← Int64.toInt_inj, DiscreteArgs.clamp, min_eq_right]
  exact hfloor.trans (le_max_left _ _)

/-! ## Refused arguments -/

/-- The feature is of numbers, and has some. -/
def Feature.HasNumbers {Dbl : Type} (feature : Feature Dbl) : Prop :=
  (feature.featureType = .int64List ∧ feature.int64Values ≠ []) ∨
    (feature.featureType = .floatList ∧ feature.floatValues ≠ [])

theorem bucketBytes_eq_nil_iff {Dbl : Type} {doubles : Doubles Dbl} {args : DiscreteArgs Dbl} {feature : Feature Dbl} :
    feature.bucketBytes doubles args = [] ↔ ¬ feature.HasNumbers := by
  unfold Feature.bucketBytes Feature.HasNumbers
  cases feature.featureType <;> simp

/-- What a discrete extractor extracts does not depend on its arguments' being accepted. -/
theorem discrete_output_eq_nil_iff {Dbl : Type} (city : City) {doubles : Doubles Dbl} {config : ParameterConfig}
    {args : DiscreteArgs Dbl} {features : FeatureMap Dbl} :
    (ParameterExtractor.discrete config args).output city doubles features = [] ↔
      ∀ name ∈ config.featureNames, ∀ feature, features.lookup name = some feature → ¬ feature.HasNumbers := by
  rw [ParameterExtractor.output_eq, List.map_eq_nil_iff, ParameterExtractor.keys, List.flatMap_eq_nil_iff]
  refine forall₂_congr fun name _ => ?_
  rw [List.map_eq_nil_iff, bucketList]
  cases features.lookup name with
  | none => simp
  | some feature => simp [bucketBytes_eq_nil_iff]

/-- Where the arguments are accepted, a value goes to the bucket that the law says iff it
    fits; those that fit go up with their values, and from the top bucket's lower edge on to
    the top bucket. Where they are refused, nothing is made of the fields that were not set
    iff no feature that the extractor is to look at has numbers. -/
theorem discretisation_iff (city : City) (unset : DiscreteArgs ℚ) {config : ParameterConfig}
    (hdiscrete : config.extractor = EXTRACTOR_TYPE_DISCRETE) :
    ∃ accepted args,
      initArgs (Doubles.exact bytes follyToDouble) unset config.extractorArgs = (accepted, args) ∧
      ParameterExtractor.factory (Doubles.exact bytes follyToDouble) unset config = some (.discrete config args) ∧
      (accepted = true → args.Sound →
        (∀ value, LawAt bytes follyToDouble args value ↔ args.Fits value) ∧
        (∀ v w, v ≤ w → args.Fits w → findBucket (Doubles.exact bytes follyToDouble) args v ≤
          findBucket (Doubles.exact bytes follyToDouble) args w) ∧
        ∀ value, args.maxBucketNumber.toInt ≤ bucketQuotient args value →
          (findBucket (Doubles.exact bytes follyToDouble) args value = args.maxBucketNumber ↔ args.Fits value)) ∧
      (accepted = false → ∀ features,
        (ParameterExtractor.discrete config args).output city (Doubles.exact bytes follyToDouble) features = [] ↔
          ∀ name ∈ config.featureNames, ∀ feature,
            features.lookup name = some feature → ¬ feature.HasNumbers) := by
  have hid : config.extractor ≠ EXTRACTOR_TYPE_ID := by
    rw [hdiscrete]
    decide
  obtain ⟨accepted, args, hinit⟩ : ∃ accepted args,
      initArgs (Doubles.exact bytes follyToDouble) unset config.extractorArgs = (accepted, args) :=
    ⟨_, _, rfl⟩
  have hfactory : ParameterExtractor.factory (Doubles.exact bytes follyToDouble) unset config =
      some (.discrete config args) := by
    rw [ParameterExtractor.factory, if_neg hid, if_pos hdiscrete, hinit]
  refine ⟨accepted, args, hinit, hfactory, fun _ hsound => ?_, fun _ features => ?_⟩
  · exact ⟨lawAt_iff bytes follyToDouble hsound, fun v w => findBucket_mono bytes follyToDouble hsound,
      fun value => findBucket_top_iff bytes follyToDouble hsound⟩
  · exact discrete_output_eq_nil_iff city

/-! ## Two configurations -/

/-- The doubles of these arguments' texts. -/
def smallDouble (text : String) : Option ℚ := if text = "0" then some 0 else if text = "1" then some 1 else none

abbrev smallDoubles : Doubles ℚ := Doubles.exact (fun _ => []) smallDouble

/-- Buckets 0 to 10, two for each whole number. -/
def twoPerNumber : ParameterConfig :=
  { parameterName := "p", group := 1, extractor := EXTRACTOR_TYPE_DISCRETE, featureNames := ["user"],
    extractorArgs := "1,0,10,0,2" }

theorem initArgs_twoPerNumber :
    initArgs smallDoubles zeroed twoPerNumber.extractorArgs =
      (true, ⟨1, 0, 0, 10, 2⟩) := by
  decide

theorem sound_twoPerNumber : DiscreteArgs.Sound ⟨1, 0, 0, 10, 2⟩ := ⟨by norm_num, by decide, by decide⟩

theorem bucketQuotient_twoPerNumber (n : ℤ) : bucketQuotient ⟨1, 0, 0, 10, 2⟩ n = ((n * 2 : ℤ) : ℚ) := by
  have hbuckets : (2 : UInt32).toNat = 2 := rfl
  rw [bucketQuotient, hbuckets]
  push_cast
  ring

/-- At the value 3 the quotient is 6. -/
theorem bucket_of_three :
    LawAt (fun _ => []) smallDouble ⟨1, 0, 0, 10, 2⟩ 3 := by
  obtain ⟨accepted, args, hinit, -, haccepted, -⟩ :=
    discretisation_iff (fun _ => []) smallDouble City.vendored zeroed
      (rfl : twoPerNumber.extractor = EXTRACTOR_TYPE_DISCRETE)
  cases initArgs_twoPerNumber.symm.trans hinit
  refine ((haccepted rfl sound_twoPerNumber).1 3).mpr (.inl ?_)
  have hquotient := bucketQuotient_twoPerNumber 3
  rw [Int.cast_ofNat] at hquotient
  rw [hquotient, Int.floor_intCast]
  decide

/-- The value 2 ^ 62 goes to the bottom bucket, and an extractor without arguments makes a
    parameter of what memory holds. -/
theorem large_value_goes_down_and_refused_args_are_used :
    (¬ ∀ (config : ParameterConfig) (args : DiscreteArgs ℚ), config.extractor = EXTRACTOR_TYPE_DISCRETE →
      initArgs smallDoubles zeroed config.extractorArgs = (true, args) → args.Sound →
        ∀ value : Int64, LawAt (fun _ => []) smallDouble args value.toInt) ∧
      ¬ ∀ (config : ParameterConfig) (args : DiscreteArgs ℚ), config.extractor = EXTRACTOR_TYPE_DISCRETE →
        initArgs smallDoubles zeroed config.extractorArgs = (false, args) →
          ∀ features, (ParameterExtractor.discrete config args).output City.vendored smallDoubles
            (featureMap features) = [] := by
  constructor
  · intro h
    have hlaw := h twoPerNumber _ rfl initArgs_twoPerNumber sound_twoPerNumber 4611686018427387904
    rw [lawAt_iff _ _ sound_twoPerNumber, DiscreteArgs.Fits, bucketQuotient_twoPerNumber, Int.floor_intCast] at hlaw
    revert hlaw
    decide
  · intro h
    have hnil := h { twoPerNumber with extractorArgs := "" } _ rfl rfl (zeroFeatures ℚ ["user"])
    rw [discrete_output_eq_nil_iff] at hnil
    have hlookup := lookup_zeroFeatures ℚ (List.mem_singleton_self "user")
    exact hnil "user" (List.mem_singleton_self _) _ hlookup (.inl ⟨rfl, by decide⟩)

end PredictorService.FeatureMaster
