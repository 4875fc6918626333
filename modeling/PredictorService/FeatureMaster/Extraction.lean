/-
  PredictorService.FeatureMaster.Extraction — what a manager extracts.

  An extractor appends one parameter for each of its keys, all of its configuration's group,
  and nothing else happens to the parameters (`extract_eq`). So a manager appends the
  outputs of its extractors one behind the other, those of the cross extractors last, and
  they depend on nothing but the last feature of each name (`extraction_laws`).
-/

import PredictorService.FeatureMaster.CrossFeatures

namespace PredictorService.FeatureMaster

open PredictorService.Thirdparty.Rapidjson

variable {Dbl : Type} (city : City) (doubles : Doubles Dbl)

/-! ## The keys of an extractor -/

theorem pushHashes_eq (config : ParameterConfig) (parameters : Parameters) (values : List (List UInt8)) :
    pushHashes city config parameters values =
      parameters ++ (values.map city.cityHash64).map fun key => ⟨config.group, config.reduce key⟩ := by
  rw [pushHashes, List.foldl_append_eq_append, List.map_map, ← List.flatMap_def, ← List.map_eq_flatMap]
  rfl

/-- The bytes of the buckets of a feature's numbers. -/
def Feature.bucketBytes (args : DiscreteArgs Dbl) (feature : Feature Dbl) : List (List UInt8) :=
  match feature.featureType with
  | .stringList => []
  | .int64List => feature.int64Values.map fun value => int64Bytes (findBucket doubles args (doubles.ofInt64 value))
  | .floatList => feature.floatValues.map fun value => int64Bytes (findBucket doubles args value)
  | .other _ => []

/-- The bytes under a name; none where it is missing. -/
def bucketList (args : DiscreteArgs Dbl) (features : FeatureMap Dbl) (name : String) : List (List UInt8) :=
  ((features.lookup name).map (Feature.bucketBytes doubles args)).getD []

theorem genParameterValues_eq (config : ParameterConfig) (parameters : Parameters) (feature : Feature Dbl) :
    genParameterValues city doubles config parameters feature =
      pushHashes city config parameters (feature.valueBytes doubles) := by
  rw [genParameterValues, Feature.valueBytes]
  cases feature.featureType <;> rfl

theorem genBucketValues_eq (config : ParameterConfig) (args : DiscreteArgs Dbl) (parameters : Parameters)
    (feature : Feature Dbl) :
    genBucketValues city doubles config args parameters feature =
      pushHashes city config parameters (feature.bucketBytes doubles args) := by
  rw [genBucketValues, Feature.bucketBytes]
  cases feature.featureType <;> rfl

namespace ParameterExtractor

/-- The hashes that an extractor makes parameters of, in their order. -/
def keys (features : FeatureMap Dbl) : ParameterExtractor Dbl → List UInt64
  | id config => config.featureNames.flatMap fun name => (valueList doubles features name).map city.cityHash64
  | discrete config args =>
    config.featureNames.flatMap fun name => (bucketList doubles args features name).map city.cityHash64
  | cross config =>
    config.featureGroups.flatMap fun names => (crossTuples doubles features names).map (tupleHash city SEED)

/-- What an extractor appends, run on nothing. -/
def output (features : FeatureMap Dbl) (item : ParameterExtractor Dbl) : Parameters :=
  (item.extract city doubles [] features).2

theorem extractEach_eq {gen : Parameters → Feature Dbl → Parameters} {bytes : Feature Dbl → List (List UInt8)}
    {config : ParameterConfig}
    (hgen : ∀ parameters feature, gen parameters feature = pushHashes city config parameters (bytes feature))
    (parameters : Parameters) (features : FeatureMap Dbl) :
    extractEach gen config parameters features =
      (true, parameters ++ (config.featureNames.flatMap fun name =>
        (((features.lookup name).map bytes).getD []).map city.cityHash64).map
          fun key => ⟨config.group, config.reduce key⟩) := by
  refine Prod.ext rfl ((List.foldl_ext _ (fun parameters name =>
    parameters ++ ((((features.lookup name).map bytes).getD []).map city.cityHash64).map
      fun key => ⟨config.group, config.reduce key⟩) _ fun parameters name _ => ?_).trans ?_)
  · cases features.lookup name with
    | none => simp
    | some feature =>
      simp only [hgen, pushHashes_eq]
      rfl
  · rw [List.foldl_append_eq_append, List.map_flatMap, List.flatMap_def]

theorem extract_keys (item : ParameterExtractor Dbl) (parameters : Parameters) (features : FeatureMap Dbl) :
    item.extract city doubles parameters features =
      (true, parameters ++ (item.keys city doubles features).map
        fun key => ⟨item.config.group, item.config.reduce key⟩) := by
  cases item with
  | id config => exact extractEach_eq city (genParameterValues_eq city doubles config) parameters features
  | discrete config args => exact extractEach_eq city (genBucketValues_eq city doubles config args) parameters features
  | cross config =>
    rw [cross_extract_eq, keys, List.map_flatMap]
    simp only [List.map_map]
    rfl

theorem output_eq (item : ParameterExtractor Dbl) (features : FeatureMap Dbl) :
    item.output city doubles features =
      (item.keys city doubles features).map fun key => ⟨item.config.group, item.config.reduce key⟩ := by
  rw [output, extract_keys, List.nil_append]

/-- The parameters that were there stay, and the output stands behind them. -/
theorem extract_eq (item : ParameterExtractor Dbl) (parameters : Parameters) (features : FeatureMap Dbl) :
    item.extract city doubles parameters features = (true, parameters ++ item.output city doubles features) := by
  rw [extract_keys, output_eq]

theorem value_lt_hashSize {item : ParameterExtractor Dbl} {features : FeatureMap Dbl} {parameter : Parameter}
    (hsize : 0 < item.config.hashSize) (h : parameter ∈ item.output city doubles features) :
    parameter.value < item.config.hashSize := by
  rw [output_eq] at h
  obtain ⟨key, -, rfl⟩ := List.mem_map.mp h
  have hne : item.config.hashSize ≠ 0 := by
    intro heq
    rw [heq] at hsize
    exact absurd hsize (by decide)
  rw [ParameterConfig.reduce, if_pos hne]
  exact UInt64.mod_lt key hsize

end ParameterExtractor

/-! ## The manager -/

theorem runExtractors_eq (features : FeatureMap Dbl) (items : List (ParameterExtractor Dbl)) (parameters : Parameters) :
    runExtractors city doubles features items parameters =
      (true, parameters ++ items.flatMap (ParameterExtractor.output city doubles features)) := by
  induction items generalizing parameters with
  | nil => simp [runExtractors]
  | cons item items ih => simp only [runExtractors, item.extract_eq, ih, List.flatMap_cons, List.append_assoc]

namespace ParameterExtractorManager

theorem extractParameters_eq (manager : ParameterExtractorManager Dbl) (parameters : Parameters)
    (features : Features Dbl) :
    manager.extractParameters city doubles parameters features =
      if manager.isConfigValid then
        (true, parameters ++ manager.extractorList.flatMap (ParameterExtractor.output city doubles (featureMap features)))
      else (false, parameters) := by
  rw [extractParameters, runExtractors_eq]
  cases manager.isConfigValid <;> rfl

/-- The two overloads do the same. -/
theorem extractParametersOfList_eq (manager : ParameterExtractorManager Dbl) (parameters : Parameters)
    (featuresList : List (Features Dbl)) :
    manager.extractParametersOfList city doubles parameters featuresList =
      manager.extractParameters city doubles parameters featuresList.flatten := by
  have hmap : featuresList.foldl (fun feaMap features =>
      features.foldl (fun feaMap feature => feaMap.insert feature.featureName feature) feaMap) (∅ : FeatureMap Dbl) =
      featureMap featuresList.flatten := by
    rw [featureMap, Lib.FinMap.insertAll, List.foldl_map, List.foldl_flatten]
  rw [extractParametersOfList, hmap, extractParameters]

/-- Only the last feature of each name counts. -/
theorem extractParameters_congr (manager : ParameterExtractorManager Dbl) (parameters : Parameters)
    {features features' : Features Dbl} (h : ∀ name, lastNamed features name = lastNamed features' name) :
    manager.extractParameters city doubles parameters features =
      manager.extractParameters city doubles parameters features' := by
  rw [extractParameters, extractParameters, featureMap_congr h]

variable (memory : Memory Dbl) (parse : String → Option Value)

/-- The manager of an accepted configuration. -/
theorem construct_eq {jsonConfig : String} {configs : ParameterConfigList}
    (h : parseJsonConfig (document parse jsonConfig) = some (true, configs)) :
    construct doubles memory parse jsonConfig = some ⟨makeExtractors doubles memory configs, true⟩ := by
  simp [construct, init, h]

end ParameterExtractorManager

/-- What the extractor of a configuration appends; nothing where there is no extractor of
    its type. -/
def ParameterConfig.output (unset : DiscreteArgs Dbl) (features : FeatureMap Dbl)
    (config : ParameterConfig) : Parameters :=
  ((ParameterExtractor.factory doubles unset config).map (ParameterExtractor.output city doubles features)).getD []

theorem filterMap_factory_output (memory : Memory Dbl) (features : FeatureMap Dbl)
    (configs : List (ParameterConfig × Nat)) :
    (configs.filterMap fun config => ParameterExtractor.factory doubles (memory config.2) config.1).flatMap
        (ParameterExtractor.output city doubles features) =
      configs.flatMap fun config => config.1.output city doubles (memory config.2) features := by
  induction configs with
  | nil => rfl
  | cons config configs ih =>
    rw [List.flatMap_cons, ParameterConfig.output, ← ih]
    cases hf : ParameterExtractor.factory doubles (memory config.2) config.1 with
    | none => simp [hf]
    | some item => simp [hf]

theorem factory_config {unset : DiscreteArgs Dbl} {config : ParameterConfig} {item : ParameterExtractor Dbl}
    (h : ParameterExtractor.factory doubles unset config = some item) :
    item.config = config := by
  unfold ParameterExtractor.factory at h
  split_ifs at h <;> cases h <;> rfl

/-- There is an extractor of its type, and it has features to go through. -/
def ParameterConfig.Extracts (config : ParameterConfig) : Prop :=
  ((config.extractor = EXTRACTOR_TYPE_ID ∨ config.extractor = EXTRACTOR_TYPE_DISCRETE) ∧ config.featureNames ≠ []) ∨
    (config.extractor = EXTRACTOR_TYPE_CROSS ∧ config.featureGroups ≠ [])

theorem output_eq_nil {unset : DiscreteArgs Dbl} {config : ParameterConfig} (h : ¬ config.Extracts)
    (features : FeatureMap Dbl) : config.output city doubles unset features = [] := by
  simp only [ParameterConfig.Extracts, not_or, not_and, not_not] at h
  unfold ParameterConfig.output ParameterExtractor.factory
  split_ifs with hid hdiscrete hcross
  · simp [ParameterExtractor.output_eq, ParameterExtractor.keys, h.1 (.inl hid)]
  · simp [ParameterExtractor.output_eq, ParameterExtractor.keys, h.1 (.inr hdiscrete)]
  · simp [ParameterExtractor.output_eq, ParameterExtractor.keys, h.2 hcross]
  · rfl

/-- A feature of each of the names, with the number 0. -/
def zeroFeatures (Dbl : Type) (names : List String) : Features Dbl :=
  names.map fun name => { featureName := name, featureType := .int64List, int64Values := [0] }

theorem lookup_zeroFeatures (Dbl : Type) {names : List String} {name : String} (h : name ∈ names) :
    (featureMap (zeroFeatures Dbl names)).lookup name =
      some { featureName := name, featureType := .int64List, int64Values := [0] } := by
  rw [lookup_featureMap, lastNamed]
  have hne : (zeroFeatures Dbl names).filter (·.featureName = name) ≠ [] :=
    List.ne_nil_of_mem (List.mem_filter.mpr ⟨List.mem_map.mpr ⟨name, h, rfl⟩, decide_eq_true rfl⟩)
  rw [List.getLast?_eq_getLast_of_ne_nil hne, Option.some_inj]
  obtain ⟨hmem, hname⟩ := List.mem_filter.mp (List.getLast_mem hne)
  obtain ⟨name', -, heq⟩ := List.mem_map.mp hmem
  rw [← heq] at hname ⊢
  obtain rfl : name' = name := of_decide_eq_true hname
  rfl

/-- It has something to extract of features with these names. -/
theorem output_ne_nil {unset : DiscreteArgs Dbl} {config : ParameterConfig} (h : config.Extracts)
    {names : List String} (hnames : ∀ name ∈ config.featureNames ++ config.featureGroups.flatten, name ∈ names) :
    config.output city doubles unset (featureMap (zeroFeatures Dbl names)) ≠ [] := by
  unfold ParameterConfig.output ParameterExtractor.factory
  rcases h with ⟨htype, hne⟩ | ⟨hcross, hne⟩
  · obtain ⟨name, hname⟩ := List.exists_mem_of_ne_nil _ hne
    have hlookup := lookup_zeroFeatures Dbl (hnames name (List.mem_append_left _ hname))
    split_ifs with hid hdiscrete hcross
    · simp only [Option.map_some, Option.getD_some, ParameterExtractor.output_eq, ParameterExtractor.keys, ne_eq,
        List.map_eq_nil_iff, List.flatMap_eq_nil_iff]
      intro hnil
      have := hnil name hname
      simp [valueList, hlookup, Feature.valueBytes] at this
    · simp only [Option.map_some, Option.getD_some, ParameterExtractor.output_eq, ParameterExtractor.keys, ne_eq,
        List.map_eq_nil_iff, List.flatMap_eq_nil_iff]
      intro hnil
      have := hnil name hname
      simp [bucketList, hlookup, Feature.bucketBytes] at this
    · exact absurd htype (by rw [not_or]; exact ⟨hid, hdiscrete⟩)
    · exact absurd htype (by rw [not_or]; exact ⟨hid, hdiscrete⟩)
  · obtain ⟨group, hgroup⟩ := List.exists_mem_of_ne_nil _ hne
    have hid : config.extractor ≠ EXTRACTOR_TYPE_ID := by rw [hcross]; decide
    have hdiscrete : config.extractor ≠ EXTRACTOR_TYPE_DISCRETE := by rw [hcross]; decide
    rw [if_neg hid, if_neg hdiscrete, if_pos hcross]
    simp only [Option.map_some, Option.getD_some, ParameterExtractor.output_eq, ParameterExtractor.keys, ne_eq,
      List.map_eq_nil_iff, List.flatMap_eq_nil_iff]
    intro hnil
    obtain ⟨name, hname, hvalues⟩ := List.mem_map.mp (Lib.cartesian_eq_nil_iff.mp (hnil group hgroup))
    have hlookup := lookup_zeroFeatures Dbl
      (hnames name (List.mem_append_right _ (List.mem_flatten.mpr ⟨group, hgroup, hname⟩)))
    simp [valueList, hlookup, Feature.valueBytes] at hvalues

/-- A list of features is as good as one list of them all. What is extracted depends on
    nothing but the last feature of each name. It is what the configurations that are not
    cross ones make, in order, and behind it what the cross ones make, in order; each stays
    below its hash size. -/
theorem extraction_laws (memory : Memory Dbl) (parse : String → Option Value)
    {jsonConfig : String} {configs : ParameterConfigList}
    (haccept : parseJsonConfig (document parse jsonConfig) = some (true, configs)) :
    ∃ manager, ParameterExtractorManager.construct doubles memory parse jsonConfig = some manager ∧
      (∀ parameters featuresList, manager.extractParametersOfList city doubles parameters featuresList =
        manager.extractParameters city doubles parameters featuresList.flatten) ∧
      (∀ parameters features features', (∀ name, lastNamed features name = lastNamed features' name) →
        manager.extractParameters city doubles parameters features =
          manager.extractParameters city doubles parameters features') ∧
      (∀ parameters features, manager.extractParameters city doubles parameters features =
        (true, parameters ++
          ((configs.zipIdx.filter (·.1.extractor ≠ EXTRACTOR_TYPE_CROSS)).flatMap fun config =>
            config.1.output city doubles (memory config.2) (featureMap features)) ++
          (configs.zipIdx.filter (·.1.extractor = EXTRACTOR_TYPE_CROSS)).flatMap fun config =>
            config.1.output city doubles (memory config.2) (featureMap features))) ∧
      ∀ config ∈ configs, 0 < config.hashSize → ∀ unset features,
        ∀ parameter ∈ config.output city doubles unset features, parameter.value < config.hashSize := by
  refine ⟨_, ParameterExtractorManager.construct_eq doubles memory parse haccept,
    ParameterExtractorManager.extractParametersOfList_eq city doubles _,
    fun parameters _ _ => ParameterExtractorManager.extractParameters_congr city doubles _ parameters, ?_, ?_⟩
  · intro parameters features
    rw [ParameterExtractorManager.extractParameters_eq, if_pos rfl, makeExtractors, List.flatMap_append,
      filterMap_factory_output, filterMap_factory_output, List.append_assoc]
  · intro config _ hsize unset features parameter hp
    rw [ParameterConfig.output] at hp
    cases hf : ParameterExtractor.factory doubles unset config with
    | none =>
      rw [hf] at hp
      cases hp
    | some item =>
      rw [hf] at hp
      obtain rfl := factory_config doubles hf
      exact ParameterExtractor.value_lt_hashSize city doubles hsize hp

/-! ## Configurations of id extractors -/

/-- An entry with an id extractor, and its configuration. -/
def idEntry (group : Int) : Value :=
  .object [(GROUP, .int group), (EXTRACTOR, .string EXTRACTOR_TYPE_ID), (FEATURE_NAMES, .array [.string "user"])]

def idConfig (name : String) (group : UInt16) : ParameterConfig :=
  { parameterName := name, group := group, extractor := EXTRACTOR_TYPE_ID, featureNames := ["user"], extractorArgs := "" }

/-- A document of id extractors, each with its name and its group, and the text of it. -/
def idDocument (entries : List (String × Int)) : Value :=
  .object [(PARAMETER_EXTRACTOR_CONFIG, .object (entries.map fun (name, group) => (name, idEntry group)))]

def idText (entries : List (String × Int)) : String :=
  "\x7b\"parameter_extractor_config\":\x7b" ++
    ",".intercalate (entries.map fun (name, group) =>
      "\"" ++ name ++ "\":\x7b\"group\":" ++ toString group ++
        ",\"extractor\":\"id\",\"feature_names\":[\"user\"]\x7d") ++
    "\x7d\x7d"

/-- A parser that knows some of these texts. -/
def idParser (known : List (List (String × Int))) (text : String) : Option Value :=
  (known.find? (idText · = text)).map idDocument

/-- The one feature is the number 0. -/
theorem idConfig_output (unset : DiscreteArgs Dbl) (name : String) (group : UInt16) :
    (idConfig name group).output city doubles unset (featureMap (zeroFeatures Dbl ["user"])) =
      [⟨group, city.cityHash64 (int64Bytes 0)⟩] := by
  have hfactory : ParameterExtractor.factory doubles unset (idConfig name group) = some (.id (idConfig name group)) := rfl
  rw [ParameterConfig.output, hfactory, Option.map_some, Option.getD_some, ParameterExtractor.output_eq,
    ParameterExtractor.keys]
  have hlookup := lookup_zeroFeatures Dbl (List.mem_singleton_self "user")
  simp [idConfig, valueList, hlookup, Feature.valueBytes, ParameterConfig.reduce, ParameterExtractor.config]

/-- Rational numbers for doubles; no text is one. -/
def plainDoubles : Doubles ℚ := Doubles.exact (fun _ => []) (fun _ => none)

/-- Memory that is zero where nothing was stored. -/
def zeroed : DiscreteArgs ℚ := ⟨0, 0, 0, 0, 0⟩

/-- A cross extractor, whose values stay below 1000, in front of an id extractor. -/
def crossFirst : Value :=
  .object [(PARAMETER_EXTRACTOR_CONFIG, .object
    [("c", .object [(GROUP, .int 3), (EXTRACTOR, .string EXTRACTOR_TYPE_CROSS),
      (FEATURE_NAMES, .array [.string "user|item"]), (HASH_SIZE, .int 1000)]),
    ("p", idEntry 1)])]

def crossFirstText : String :=
  "\x7b\"parameter_extractor_config\":\x7b\"c\":\x7b\"group\":3,\"extractor\":\"cross\"," ++
    "\"feature_names\":[\"user|item\"],\"hash_size\":1000\x7d," ++
    "\"p\":\x7b\"group\":1,\"extractor\":\"id\",\"feature_names\":[\"user\"]\x7d\x7d\x7d"

def crossConfig : ParameterConfig :=
  { parameterName := "c", group := 3, extractor := EXTRACTOR_TYPE_CROSS, featureGroups := [["user", "item"]],
    extractorArgs := "", hashSize := 1000 }

/-- The id extractor's parameters come first, and those of the cross extractor are below 1000. -/
theorem extraction_laws_cross :
    ∃ manager, ParameterExtractorManager.construct plainDoubles (fun _ => zeroed)
        (fun text => if text = crossFirstText then some crossFirst else none) crossFirstText = some manager ∧
      (∀ parameters features, manager.extractParametersOfList City.vendored plainDoubles parameters [features, features] =
        manager.extractParameters City.vendored plainDoubles parameters (features ++ features)) ∧
      (∀ parameters features, manager.extractParameters City.vendored plainDoubles parameters features =
        (true, parameters ++ (idConfig "p" 1).output City.vendored plainDoubles zeroed (featureMap features) ++
          crossConfig.output City.vendored plainDoubles zeroed (featureMap features))) ∧
      ∀ features, ∀ parameter ∈ crossConfig.output City.vendored plainDoubles zeroed features,
        parameter.value < 1000 := by
  have haccept : parseJsonConfig (document (fun text => if text = crossFirstText then some crossFirst else none)
      crossFirstText) = some (true, [crossConfig, idConfig "p" 1]) := by
    rw [document, if_pos rfl]
    decide
  obtain ⟨manager, hmanager, hlist, -, horder, hbelow⟩ :=
    extraction_laws City.vendored plainDoubles (fun _ => zeroed) _ haccept
  refine ⟨manager, hmanager, fun parameters features => ?_, fun parameters features => ?_, ?_⟩
  · rw [hlist]
    simp
  · have hcross : crossConfig.extractor = EXTRACTOR_TYPE_CROSS := rfl
    have hid : (idConfig "p" 1).extractor ≠ EXTRACTOR_TYPE_CROSS := by decide
    rw [horder]
    simp [hcross, hid]
  · exact hbelow crossConfig (by simp) (by decide) zeroed

end PredictorService.FeatureMaster
