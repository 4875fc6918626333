/-
  PredictorService.FeatureMaster.ParameterSigns — whether two groups can share a sign.

  The group of an entry is a JSON int, a parameter's group has 16 bits and a sign keeps 14 of
  them; nothing checks the range on the way. Two entries whose groups agree in 14 bits give
  the features one sign (`two_groups_share_a_sign`). No hash keeps them apart, and so signs
  are distinct, whatever the hash, exactly where of two such entries one extracts nothing
  (`signs_distinct_iff`).
-/

import PredictorService.FeatureMaster.Extraction

namespace PredictorService.FeatureMaster

open PredictorService.Lib
open PredictorService.Common (follySplit)
open PredictorService.Thirdparty.Rapidjson

variable {Dbl : Type}

/-- The integer that stands under `group`. -/
def groupOf (entry : Value) : Option Int32 := (entry.get GROUP).bind Value.getInt

/-- What is extracted for two entries with different groups never has one sign. The objects
    of the two are made where memory holds `unset` and `unset'`. -/
def SignsDistinct (city : City) (doubles : Doubles Dbl) (unset unset' : DiscreteArgs Dbl) (document : Value) : Prop :=
  ∀ e ∈ entriesOf document, ∀ f ∈ entriesOf document, groupOf e.2 ≠ groupOf f.2 →
    ∀ config config', parseConfig e.1 e.2 = some (some config) → parseConfig f.1 f.2 = some (some config') →
      ∀ features, ∀ p ∈ config.output city doubles unset (featureMap features),
        ∀ q ∈ config'.output city doubles unset' (featureMap features), genParameterSign p ≠ genParameterSign q

/-- An entry that extracts nothing: there is no extractor of its type, or it names no
    features. -/
def Silent (entry : Value) : Prop :=
  (∀ extractor, (entry.get EXTRACTOR).bind Value.getString = some extractor →
    extractor ≠ EXTRACTOR_TYPE_ID ∧ extractor ≠ EXTRACTOR_TYPE_DISCRETE ∧ extractor ≠ EXTRACTOR_TYPE_CROSS) ∨
    (entry.get FEATURE_NAMES).bind Value.getArray = some []

/-! ## What an entry's configuration extracts -/

/-- The bits that a sign keeps of a group. -/
theorem group_bits (g : Int32) : ((g.toUInt32.toUInt16.toNat % 2 ^ 14 : ℕ) : ℤ) = g.toInt % 2 ^ 14 := by
  have hnat : (g.toUInt32.toNat : ℤ) = g.toInt % 2 ^ 32 := by
    rw [Int32.toInt, BitVec.toInt_eq_toNat_cond, show g.toUInt32.toNat = g.toBitVec.toNat from rfl]
    have hlt := g.toBitVec.isLt
    split_ifs <;> omega
  rw [UInt32.toNat_toUInt16]
  omega

theorem make_extracts_iff (name : String) (group : Int32) (extractor : String) (names : List String) (args : String)
    (hashSize : Int32) :
    (ParameterConfig.make name group extractor names args hashSize).Extracts ↔
      (extractor = EXTRACTOR_TYPE_ID ∨ extractor = EXTRACTOR_TYPE_DISCRETE ∨ extractor = EXTRACTOR_TYPE_CROSS) ∧
        names ≠ [] := by
  simp only [ParameterConfig.Extracts, make_extractor, make_featureNames, make_featureGroups]
  by_cases hcross : EXTRACTOR_TYPE_CROSS = extractor
  · subst hcross
    simp [EXTRACTOR_TYPE_CROSS, EXTRACTOR_TYPE_ID, EXTRACTOR_TYPE_DISCRETE]
  · simp [hcross, Ne.symm hcross]

theorem silent_iff {name : String} {entry : Value} {config : ParameterConfig}
    (h : parseConfig name entry = some (some config)) : Silent entry ↔ ¬ config.Extracts := by
  obtain ⟨ms, group, extractor, names, args, hashSize, rfl, hr, rfl⟩ := parseConfig_iff.mp h
  have hnames : (Value.get (.object ms) FEATURE_NAMES).bind Value.getArray = some [] ↔ names = [] := by
    have hread := hr.featureNames
    rw [Value.get_object]
    cases harray : (Value.find? ms FEATURE_NAMES).bind Value.getArray with
    | none =>
      rw [harray] at hread
      cases hread
    | some items =>
      rw [harray, Option.bind_some] at hread
      rw [Option.some_inj]
      constructor
      · rintro rfl
        exact (Option.some_inj.mp hread).symm
      · rintro rfl
        exact List.forall₂_nil_right_iff.mp (mapM_eq_some_iff.mp hread)
  rw [Silent, hnames, make_extracts_iff, Value.get_object, hr.extractor]
  simp only [Option.some_inj, forall_eq', not_and_or, not_or, not_not, ne_eq]

theorem group_of_mem_output {city : City} {doubles : Doubles Dbl} {unset : DiscreteArgs Dbl}
    {features : FeatureMap Dbl} {config : ParameterConfig} {p : Parameter}
    (h : p ∈ config.output city doubles unset features) : p.group = config.group := by
  rw [ParameterConfig.output] at h
  cases hf : ParameterExtractor.factory doubles unset config with
  | none =>
    rw [hf] at h
    cases h
  | some item =>
    rw [hf, Option.map_some, Option.getD_some, ParameterExtractor.output_eq] at h
    obtain ⟨key, -, rfl⟩ := List.mem_map.mp h
    rw [factory_config doubles hf]

/-! ## A hash that keeps nothing apart -/

def zeroHash : City := ⟨fun _ => 0, fun _ _ => 0⟩

theorem tupleHash_zeroHash (key : UInt64) {tuple : List (List UInt8)} (h : tuple ≠ []) :
    tupleHash zeroHash key tuple = 0 := by
  cases tuple with
  | nil => exact absurd rfl h
  | cons bytes tuple => exact List.foldl_fixed' (fun _ => rfl) tuple

theorem keys_zeroHash {doubles : Doubles Dbl} {features : FeatureMap Dbl} {item : ParameterExtractor Dbl} {key : UInt64}
    (hgroups : [] ∉ item.config.featureGroups) (h : key ∈ item.keys zeroHash doubles features) : key = 0 := by
  cases item with
  | id config =>
    obtain ⟨name, -, h⟩ := List.mem_flatMap.mp h
    obtain ⟨bytes, -, rfl⟩ := List.mem_map.mp h
    rfl
  | discrete config args =>
    obtain ⟨name, -, h⟩ := List.mem_flatMap.mp h
    obtain ⟨bytes, -, rfl⟩ := List.mem_map.mp h
    rfl
  | cross config =>
    obtain ⟨names, hnames, h⟩ := List.mem_flatMap.mp h
    obtain ⟨tuple, htuple, rfl⟩ := List.mem_map.mp h
    refine tupleHash_zeroHash SEED fun hnil => hgroups ?_
    subst hnil
    rw [crossTuples, mem_cartesian, List.forall₂_nil_left_iff, List.map_eq_nil_iff] at htuple
    rwa [htuple] at hnames

theorem value_zeroHash {doubles : Doubles Dbl} {unset : DiscreteArgs Dbl} {features : FeatureMap Dbl}
    {config : ParameterConfig} {p : Parameter} (hgroups : [] ∉ config.featureGroups)
    (h : p ∈ config.output zeroHash doubles unset features) : p.value = 0 := by
  rw [ParameterConfig.output] at h
  cases hf : ParameterExtractor.factory doubles unset config with
  | none =>
    rw [hf] at h
    cases h
  | some item =>
    rw [hf, Option.map_some, Option.getD_some, ParameterExtractor.output_eq] at h
    obtain ⟨key, hkey, rfl⟩ := List.mem_map.mp h
    obtain rfl := factory_config doubles hf
    obtain rfl := keys_zeroHash hgroups hkey
    unfold ParameterConfig.reduce
    split_ifs <;> simp

/-- A group of features that is split off a text has a feature, if only one without name. -/
theorem nil_not_mem_featureGroups (name : String) (group : Int32) (extractor : String) (names : List String)
    (args : String) (hashSize : Int32) :
    [] ∉ (ParameterConfig.make name group extractor names args hashSize).featureGroups := by
  rw [make_featureGroups]
  split_ifs
  · intro hmem
    obtain ⟨text, -, hnil⟩ := List.mem_map.mp hmem
    exact List.splitOn_ne_nil '|' text.toList (List.map_eq_nil_iff.mp hnil)
  · exact List.not_mem_nil

/-! ## The result -/

/-- Two entries with different groups that agree in 14 bits: one of them must be silent. -/
def OneSilent (document : Value) : Prop :=
  ∀ e ∈ entriesOf document, ∀ f ∈ entriesOf document, ∀ g h : Int32,
    groupOf e.2 = some g → groupOf f.2 = some h → g ≠ h → g.toInt % 2 ^ 14 = h.toInt % 2 ^ 14 →
      Silent e.2 ∨ Silent f.2

/-- The group of what an entry extracts, in the bits that a sign keeps. -/
theorem group_bits_of_parse {name : String} {entry : Value} {config : ParameterConfig}
    (h : parseConfig name entry = some (some config)) :
    ∃ g, groupOf entry = some g ∧ ((config.group.toNat % 2 ^ 14 : ℕ) : ℤ) = g.toInt % 2 ^ 14 := by
  obtain ⟨ms, group, extractor, names, args, hashSize, rfl, hr, rfl⟩ := parseConfig_iff.mp h
  refine ⟨group, ?_, ?_⟩
  · rw [groupOf, Value.get_object]
    exact hr.group
  · rw [make_group]
    exact group_bits group

/-- An entry that is not silent extracts something, and the hash makes 0 of it. -/
theorem exists_zero_parameter (doubles : Doubles Dbl) (unset : DiscreteArgs Dbl) {name : String}
    {entry : Value} {config : ParameterConfig} (h : parseConfig name entry = some (some config))
    (hloud : ¬ Silent entry) {names : List String}
    (hnames : ∀ name ∈ config.featureNames ++ config.featureGroups.flatten, name ∈ names) :
    ∃ p ∈ config.output zeroHash doubles unset (featureMap (zeroFeatures Dbl names)),
      p.group = config.group ∧ p.value = 0 := by
  rw [silent_iff h, not_not] at hloud
  obtain ⟨p, hp⟩ := List.exists_mem_of_ne_nil _ (output_ne_nil zeroHash doubles hloud hnames)
  refine ⟨p, hp, group_of_mem_output hp, value_zeroHash ?_ hp⟩
  obtain ⟨ms, group, extractor, featureNames, args, hashSize, -, -, rfl⟩ := parseConfig_iff.mp h
  exact nil_not_mem_featureGroups _ _ _ _ _ _

/-- Whatever the hash is, different groups have different signs, iff of two entries whose
    groups differ beyond the 14 bits only, one extracts nothing. -/
theorem signs_distinct_iff (doubles : Doubles Dbl) (unset unset' : DiscreteArgs Dbl) {document : Value}
    {configs : ParameterConfigList} (haccept : parseJsonConfig document = some (true, configs)) :
    (∀ city, SignsDistinct city doubles unset unset' document) ↔ OneSilent document := by
  have hparse : ∀ e ∈ entriesOf document, ∃ config, parseConfig e.1 e.2 = some (some config) := by
    intro e he
    obtain ⟨config, -, hconfig⟩ := exists_right_of_mem (parseJsonConfig_true_iff.mp haccept).2 he
    exact ⟨config, hconfig⟩
  constructor
  · intro hdistinct e he f hf g h hg hh hne hbits
    by_contra hloud
    rw [not_or] at hloud
    obtain ⟨config, hconfig⟩ := hparse e he
    obtain ⟨config', hconfig'⟩ := hparse f hf
    -- features that both entries find
    let names := (config.featureNames ++ config.featureGroups.flatten) ++
      (config'.featureNames ++ config'.featureGroups.flatten)
    obtain ⟨p, hp, hpg, hpv⟩ := exists_zero_parameter doubles unset hconfig hloud.1
      (fun name hname => List.mem_append_left _ hname : ∀ name ∈ _, name ∈ names)
    obtain ⟨q, hq, hqg, hqv⟩ := exists_zero_parameter doubles unset' hconfig' hloud.2
      (fun name hname => List.mem_append_right _ hname : ∀ name ∈ _, name ∈ names)
    have hgroups : groupOf e.2 ≠ groupOf f.2 := by
      rw [hg, hh]
      exact fun heq => hne (Option.some_inj.mp heq)
    refine hdistinct zeroHash e he f hf hgroups config config' hconfig hconfig' _ p hp q hq ?_
    obtain ⟨g', hg', hbitsg⟩ := group_bits_of_parse hconfig
    obtain ⟨h', hh', hbitsh⟩ := group_bits_of_parse hconfig'
    obtain rfl : g = g' := Option.some_inj.mp (hg.symm.trans hg')
    obtain rfl : h = h' := Option.some_inj.mp (hh.symm.trans hh')
    rw [genParameterSign_eq_iff, hpg, hqg, hpv, hqv]
    exact ⟨by omega, rfl⟩
  · intro hsilent city e he f hf hne config config' hconfig hconfig' features p hp q hq hsign
    obtain ⟨g, hg, hbitsg⟩ := group_bits_of_parse hconfig
    obtain ⟨h, hh, hbitsh⟩ := group_bits_of_parse hconfig'
    have hbits : g.toInt % 2 ^ 14 = h.toInt % 2 ^ 14 := by
      have hgroup := (genParameterSign_eq_iff.mp hsign).1
      rw [group_of_mem_output hp, group_of_mem_output hq] at hgroup
      omega
    have hgh : g ≠ h := by
      rintro rfl
      exact hne (hg.trans hh.symm)
    rcases hsilent e he f hf g h hg hh hgh hbits with hs | hs
    · rw [output_eq_nil city doubles ((silent_iff hconfig).mp hs)] at hp
      cases hp
    · rw [output_eq_nil city doubles ((silent_iff hconfig').mp hs)] at hq
      cases hq

/-- Groups 1 and 2. -/
theorem two_small_groups_have_two_signs :
    SignsDistinct City.vendored plainDoubles zeroed zeroed (idDocument [("p", 1), ("q", 2)]) := by
  have haccept : parseJsonConfig (idDocument [("p", 1), ("q", 2)]) = some (true, [idConfig "p" 1, idConfig "q" 2]) := rfl
  refine (signs_distinct_iff plainDoubles zeroed zeroed haccept).mpr (fun e he f hf g h hg hh hne hbits => ?_) City.vendored
  have hentries : entriesOf (idDocument [("p", 1), ("q", 2)]) = [("p", idEntry 1), ("q", idEntry 2)] := rfl
  rw [hentries, List.mem_pair] at he hf
  rcases he with rfl | rfl <;> rcases hf with rfl | rfl <;> cases hg <;> cases hh
  · exact absurd rfl hne
  · exact absurd hbits (by decide)
  · exact absurd hbits (by decide)
  · exact absurd rfl hne

/-- Groups 1 and 16385, which is 2 ^ 14 + 1. -/
theorem two_groups_share_a_sign :
    ¬ ∀ (parse : String → Option Value) (jsonConfig : String) (configs : ParameterConfigList),
      parseJsonConfig (document parse jsonConfig) = some (true, configs) →
        SignsDistinct City.vendored plainDoubles zeroed zeroed (document parse jsonConfig) := by
  intro h
  have hdocument : document (idParser [[("p", 1), ("q", 16385)]]) (idText [("p", 1), ("q", 16385)]) =
      idDocument [("p", 1), ("q", 16385)] := by
    simp only [document, idParser, List.find?, decide_true]
    rfl
  have hdistinct := h (idParser [[("p", 1), ("q", 16385)]]) (idText [("p", 1), ("q", 16385)])
    [idConfig "p" 1, idConfig "q" 16385] (by rw [hdocument]; rfl)
  rw [hdocument] at hdistinct
  have hentries : entriesOf (idDocument [("p", 1), ("q", 16385)]) = [("p", idEntry 1), ("q", idEntry 16385)] := rfl
  have hgroups : groupOf (idEntry 1) ≠ groupOf (idEntry 16385) := by decide
  refine hdistinct ("p", idEntry 1) (by simp [hentries]) ("q", idEntry 16385) (by simp [hentries]) hgroups
    (idConfig "p" 1) (idConfig "q" 16385) rfl rfl (zeroFeatures ℚ ["user"])
    ⟨1, City.vendored.cityHash64 (int64Bytes 0)⟩ ?_ ⟨16385, City.vendored.cityHash64 (int64Bytes 0)⟩ ?_ ?_
  · rw [idConfig_output]
    exact List.mem_singleton_self _
  · rw [idConfig_output]
    exact List.mem_singleton_self _
  · rw [genParameterSign_eq_iff]
    exact ⟨rfl, rfl⟩

end PredictorService.FeatureMaster
