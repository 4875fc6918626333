/-
  PredictorService.FeatureMaster.UnsetArgs — when memory that was not set shows.

  A discrete extractor whose arguments are refused computes buckets with fields that nothing
  has set. What a manager extracts is then its memory's, unless the fields make no
  difference to the value of any number (`ParameterConfig.Settled`). It is so where the
  arguments are accepted (`settled_of_accepted`). Where they are refused before the bounds
  of the buckets are read, it is so for the hash size 1 only (`settled_vendored_iff`).
  Managers of one configuration extract the same, whatever memory they are made in, iff all
  of its entries are settled (`makeExtractors_settled_iff`).
-/

import PredictorService.FeatureMaster.Extraction
import PredictorService.Lib.MachineInts

namespace PredictorService.FeatureMaster

open PredictorService.Lib

variable {Dbl : Type} (city : City) (doubles : Doubles Dbl)

/-! ## Arguments -/

/-- Whether the arguments are accepted does not depend on memory, and where they are no field
    is left to it. -/
theorem initArgs_congr (unset unset' : DiscreteArgs Dbl) (extractorArgs : String) :
    (initArgs doubles unset extractorArgs).1 = (initArgs doubles unset' extractorArgs).1 ∧
      ((initArgs doubles unset extractorArgs).1 = true →
        initArgs doubles unset extractorArgs = initArgs doubles unset' extractorArgs) := by
  unfold initArgs
  split
  · split
    · exact ⟨rfl, nofun⟩
    · dsimp only
      -- each conversion in its turn
      split
      · exact ⟨rfl, nofun⟩
      · split
        · exact ⟨rfl, nofun⟩
        · split
          · exact ⟨rfl, nofun⟩
          · split
            · exact ⟨rfl, nofun⟩
            · exact ⟨rfl, fun _ => rfl⟩
  · exact ⟨rfl, nofun⟩

/-- Fewer than five arguments set nothing. -/
theorem initArgs_of_few (unset : DiscreteArgs Dbl) {extractorArgs : String}
    (h : (Common.follySplit ',' extractorArgs).length < 5) : initArgs doubles unset extractorArgs = (false, unset) := by
  unfold initArgs
  split
  · next heq =>
    rw [heq] at h
    simp only [List.length_cons] at h
    omega
  · rfl

namespace ParameterConfig

/-- The value that a discrete extractor gives a number. -/
def bucketValue (unset : DiscreteArgs Dbl) (config : ParameterConfig) (value : Dbl) : UInt64 :=
  config.reduce (city.cityHash64
    (int64Bytes (findBucket doubles (initArgs doubles unset config.extractorArgs).2 value)))

/-- The fields that its arguments leave unset make no difference to any value. -/
def Settled (config : ParameterConfig) : Prop :=
  config.extractor = EXTRACTOR_TYPE_DISCRETE → config.featureNames ≠ [] →
    ∀ unset unset' value, config.bucketValue city doubles unset value = config.bucketValue city doubles unset' value

theorem settled_of_accepted {config : ParameterConfig} {unset : DiscreteArgs Dbl}
    (h : (initArgs doubles unset config.extractorArgs).1 = true) : config.Settled city doubles := by
  intro _ _ unset' unset'' value
  rw [bucketValue, ← (initArgs_congr doubles unset unset' config.extractorArgs).2 h,
    (initArgs_congr doubles unset unset'' config.extractorArgs).2 h, bucketValue]

/-- Both bounds are left to memory: then any bucket can be the only one. -/
theorem bucketValue_of_bounds {config : ParameterConfig} {unset : DiscreteArgs Dbl} {n : Int64}
    (hmin : (initArgs doubles unset config.extractorArgs).2.minBucketNumber = n)
    (hmax : (initArgs doubles unset config.extractorArgs).2.maxBucketNumber = n) (value : Dbl) :
    config.bucketValue city doubles unset value = config.reduce (city.cityHash64 (int64Bytes n)) := by
  have hclamp (x : Int64) : min (max x n) n = n := by
    rw [← Int64.toInt_inj, toInt64_min, toInt64_max]
    omega
  rw [bucketValue, findBucket, hmin, hmax, hclamp]

theorem reduce_one {config : ParameterConfig} (h : config.hashSize = 1) (key : UInt64) : config.reduce key = 0 := by
  rw [reduce, h, if_pos (by decide)]
  exact UInt64.toNat_inj.mp (by rw [UInt64.toNat_mod]; exact Nat.mod_one _)

/-- The hashes of the buckets 0, 1 and 2 agree modulo 1 only. -/
theorem reduce_vendored_const_iff (config : ParameterConfig) :
    (∀ m n : Int64, config.reduce (City.vendored.cityHash64 (int64Bytes m)) =
      config.reduce (City.vendored.cityHash64 (int64Bytes n))) ↔ config.hashSize = 1 := by
  have h0 : City.vendored.cityHash64 (int64Bytes 0) = 15546534240171485050 := by decide +kernel
  have h1 : City.vendored.cityHash64 (int64Bytes 1) = 10143279697293281662 := by decide +kernel
  have h2 : City.vendored.cityHash64 (int64Bytes 2) = 3288616194101220725 := by decide +kernel
  constructor
  · intro h
    have h01 := h 0 1
    have h02 := h 0 2
    rw [h0, h1] at h01
    rw [h0, h2] at h02
    unfold reduce at h01 h02
    split_ifs at h01 h02 with hsize
    · have hmod1 := congrArg UInt64.toNat h01
      have hmod2 := congrArg UInt64.toNat h02
      rw [UInt64.toNat_mod, UInt64.toNat_mod] at hmod1 hmod2
      have hgcd := Nat.dvd_gcd (Nat.dvd_of_mod_eq_zero (Nat.sub_mod_eq_zero_of_mod_eq hmod1))
        (Nat.dvd_of_mod_eq_zero (Nat.sub_mod_eq_zero_of_mod_eq hmod2))
      have hone : config.hashSize.toNat = 1 := Nat.dvd_one.mp (hgcd.trans (by decide))
      exact UInt64.toNat_inj.mp hone
    · exact absurd h01 (by decide)
  · intro hone m n
    rw [reduce_one hone, reduce_one hone]

/-- Where the bounds are not read, memory shows but for the hash size 1. -/
theorem settled_vendored_iff {config : ParameterConfig} (hdiscrete : config.extractor = EXTRACTOR_TYPE_DISCRETE)
    (hmin : ∀ unset, (initArgs doubles unset config.extractorArgs).2.minBucketNumber = unset.minBucketNumber)
    (hmax : ∀ unset, (initArgs doubles unset config.extractorArgs).2.maxBucketNumber = unset.maxBucketNumber)
    [Nonempty Dbl] :
    config.Settled City.vendored doubles ↔ config.featureNames = [] ∨ config.hashSize = 1 := by
  obtain ⟨x⟩ := ‹Nonempty Dbl›
  let memory (n : Int64) : DiscreteArgs Dbl := ⟨x, x, n, n, 0⟩
  have hvalue (n : Int64) := bucketValue_of_bounds City.vendored doubles
    (hmin (memory n) : _ = n) (hmax (memory n) : _ = n)
  constructor
  · intro h
    refine or_iff_not_imp_left.mpr fun hne => (reduce_vendored_const_iff config).mp fun m n => ?_
    rw [← hvalue m x, ← hvalue n x]
    exact h hdiscrete hne _ _ x
  · rintro (hnil | hone) _ hne unset unset' value
    · exact absurd hnil hne
    · rw [bucketValue, bucketValue, reduce_one hone, reduce_one hone]

/-! ## What is extracted -/

/-- The values of a feature's numbers. -/
def bucketValues (unset : DiscreteArgs Dbl) (config : ParameterConfig) (feature : Feature Dbl) : List UInt64 :=
  match feature.featureType with
  | .stringList => []
  | .int64List => feature.int64Values.map fun value => config.bucketValue city doubles unset (doubles.ofInt64 value)
  | .floatList => feature.floatValues.map (config.bucketValue city doubles unset)
  | .other _ => []

theorem bucketBytes_values (config : ParameterConfig) (unset : DiscreteArgs Dbl) (feature : Feature Dbl) :
    (feature.bucketBytes doubles (initArgs doubles unset config.extractorArgs).2).map
        (fun bytes => config.reduce (city.cityHash64 bytes)) = config.bucketValues city doubles unset feature := by
  unfold Feature.bucketBytes bucketValues
  cases feature.featureType <;> simp only [List.map_map, List.map_nil] <;> rfl

theorem discrete_output {config : ParameterConfig} (hdiscrete : config.extractor = EXTRACTOR_TYPE_DISCRETE)
    (unset : DiscreteArgs Dbl) (features : FeatureMap Dbl) :
    config.output city doubles unset features =
      config.featureNames.flatMap fun name =>
        (((features.lookup name).map (config.bucketValues city doubles unset)).getD []).map fun value =>
          ⟨config.group, value⟩ := by
  have hid : config.extractor ≠ EXTRACTOR_TYPE_ID := by
    rw [hdiscrete]
    decide
  rw [ParameterConfig.output, ParameterExtractor.factory, if_neg hid, if_pos hdiscrete, Option.map_some,
    Option.getD_some, ParameterExtractor.output_eq, ParameterExtractor.keys, List.map_flatMap]
  refine List.flatMap_congr fun name _ => ?_
  rw [bucketList, List.map_map]
  cases features.lookup name with
  | none => rfl
  | some feature =>
    rw [Option.map_some, Option.map_some, Option.getD_some, Option.getD_some, ← bucketBytes_values, List.map_map]
    rfl

theorem settled_iff {config : ParameterConfig} :
    config.Settled city doubles ↔ ∀ unset unset' (features : Features Dbl),
      config.output city doubles unset (featureMap features) =
        config.output city doubles unset' (featureMap features) := by
  constructor
  · intro h unset unset' features
    by_cases hdiscrete : config.extractor = EXTRACTOR_TYPE_DISCRETE
    · rw [discrete_output city doubles hdiscrete, discrete_output city doubles hdiscrete]
      refine List.flatMap_congr fun name hname => ?_
      have hvalue := funext (h hdiscrete (List.ne_nil_of_mem hname) unset unset')
      have hvalues : config.bucketValues city doubles unset = config.bucketValues city doubles unset' := by
        funext feature
        rw [bucketValues, bucketValues, hvalue]
      rw [hvalues]
    · rw [ParameterConfig.output, ParameterConfig.output, ParameterExtractor.factory, ParameterExtractor.factory,
        if_neg hdiscrete, if_neg hdiscrete]
  · intro h hdiscrete hne unset unset' value
    obtain ⟨name, names, hnames⟩ := List.exists_cons_of_ne_nil hne
    -- one feature, with the number in it
    let feature : Feature Dbl := { featureName := name, featureType := .floatList, floatValues := [value] }
    have hlookup : (featureMap [feature]).lookup name = some feature := by
      rw [lookup_featureMap, lastNamed]
      simp [feature]
    have hout := h unset unset' [feature]
    rw [discrete_output city doubles hdiscrete, discrete_output city doubles hdiscrete, hnames, List.flatMap_cons,
      List.flatMap_cons, hlookup] at hout
    exact congrArg Parameter.value (List.cons.inj hout).1

end ParameterConfig

theorem makeExtractors_output (memory : Memory Dbl) (configs : ParameterConfigList) (features : FeatureMap Dbl) :
    (makeExtractors doubles memory configs).flatMap (ParameterExtractor.output city doubles features) =
      ((configs.zipIdx.filter (·.1.extractor ≠ EXTRACTOR_TYPE_CROSS)).flatMap fun config =>
        config.1.output city doubles (memory config.2) features) ++
      (configs.zipIdx.filter (·.1.extractor = EXTRACTOR_TYPE_CROSS)).flatMap fun config =>
        config.1.output city doubles (memory config.2) features := by
  rw [makeExtractors, List.flatMap_append, filterMap_factory_output, filterMap_factory_output]

/-- Memory that differs for one object only shows in that object's output. -/
theorem output_of_flatMap (memory : Memory Dbl) (unset : DiscreteArgs Dbl) {configs : List (ParameterConfig × Nat)}
    (hnodup : (configs.map Prod.snd).Nodup) {config : ParameterConfig} {i : Nat} (hmem : (config, i) ∈ configs)
    {features : FeatureMap Dbl}
    (h : (configs.flatMap fun config => config.1.output city doubles (memory config.2) features) =
      configs.flatMap fun config => config.1.output city doubles (Function.update memory i unset config.2) features) :
    config.output city doubles (memory i) features = config.output city doubles unset features := by
  obtain ⟨before, after, rfl⟩ := List.append_of_mem hmem
  rw [List.map_append, List.map_cons, List.nodup_middle, List.nodup_cons, ← List.map_append] at hnodup
  have hsame : ∀ other ∈ before ++ after, Function.update memory i unset other.2 = memory other.2 := by
    intro other hother
    exact Function.update_of_ne (fun heq => hnodup.1 (List.mem_map.mpr ⟨other, hother, heq⟩)) _ _
  have hbefore : (before.flatMap fun config =>
      config.1.output city doubles (Function.update memory i unset config.2) features) =
      before.flatMap fun config => config.1.output city doubles (memory config.2) features :=
    List.flatMap_congr fun other hother => by rw [hsame other (List.mem_append_left _ hother)]
  have hafter : (after.flatMap fun config =>
      config.1.output city doubles (Function.update memory i unset config.2) features) =
      after.flatMap fun config => config.1.output city doubles (memory config.2) features :=
    List.flatMap_congr fun other hother => by rw [hsame other (List.mem_append_right _ hother)]
  rw [List.flatMap_append, List.flatMap_append, List.flatMap_cons, List.flatMap_cons, hbefore, hafter,
    Function.update_self] at h
  exact List.append_cancel_right (List.append_cancel_left h)

/-- Memory does not show in what is extracted iff it shows in no entry. -/
theorem makeExtractors_settled_iff (configs : ParameterConfigList) :
    (∀ memory memory' (features : Features Dbl),
      (makeExtractors doubles memory configs).flatMap
          (ParameterExtractor.output city doubles (featureMap features)) =
        (makeExtractors doubles memory' configs).flatMap
          (ParameterExtractor.output city doubles (featureMap features))) ↔
      ∀ config ∈ configs, config.Settled city doubles := by
  constructor
  · intro h config hconfig hdiscrete
    have hcross : config.extractor ≠ EXTRACTOR_TYPE_CROSS := by
      rw [hdiscrete]
      decide
    refine ParameterConfig.settled_iff city doubles |>.mpr (fun unset unset' features => ?_) hdiscrete
    obtain ⟨i, hi⟩ := List.mem_iff_getElem?.mp hconfig
    have hmem : (config, i) ∈ configs.zipIdx.filter (·.1.extractor ≠ EXTRACTOR_TYPE_CROSS) :=
      List.mem_filter.mpr ⟨List.mk_mem_zipIdx_iff_getElem?.mpr hi, decide_eq_true hcross⟩
    have hout := h (fun _ => unset) (Function.update (fun _ => unset) i unset') features
    rw [makeExtractors_output, makeExtractors_output] at hout
    -- a cross extractor has no arguments
    have hrest : ∀ other ∈ configs.zipIdx.filter (·.1.extractor = EXTRACTOR_TYPE_CROSS), ∀ memory memory' : Memory Dbl,
        other.1.output city doubles (memory other.2) (featureMap features) =
          other.1.output city doubles (memory' other.2) (featureMap features) := by
      intro other hother memory memory'
      refine (ParameterConfig.settled_iff city doubles).mp (fun hdiscrete => ?_) _ _ features
      rw [of_decide_eq_true (List.mem_filter.mp hother).2] at hdiscrete
      exact absurd hdiscrete (by decide)
    rw [List.flatMap_congr fun other hother => hrest other hother (fun _ => unset) (Function.update (fun _ => unset) i
      unset')] at hout
    refine output_of_flatMap city doubles (fun _ => unset) unset' ?_ hmem (List.append_cancel_right hout)
    refine List.Nodup.sublist (List.filter_sublist.map _) ?_
    rw [List.zipIdx_map_snd]
    exact List.nodup_range'
  · intro h memory memory' features
    have hsame : ∀ config ∈ configs.zipIdx, config.1.output city doubles (memory config.2) (featureMap features) =
        config.1.output city doubles (memory' config.2) (featureMap features) := by
      intro config hconfig
      have hsettled := h config.1 (List.fst_mem_of_mem_zipIdx hconfig)
      exact (ParameterConfig.settled_iff city doubles).mp hsettled (memory config.2) (memory' config.2) features
    rw [makeExtractors_output, makeExtractors_output]
    exact congrArg₂ (· ++ ·) (List.flatMap_congr fun config hconfig => hsame config (List.mem_of_mem_filter hconfig))
      (List.flatMap_congr fun config hconfig => hsame config (List.mem_of_mem_filter hconfig))

end PredictorService.FeatureMaster
