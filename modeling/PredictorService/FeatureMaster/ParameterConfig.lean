/-
  PredictorService.FeatureMaster.ParameterConfig — reading the configuration of the
  parameter extractors (`ParameterExtractorHelper::ParseJsonConfig` in
  feature_master/parameter/parameter_extractor.cc).

  The configuration is an object with an entry for each parameter. An entry that lacks its
  group, its extractor or its feature names ends the reading, which then returns false.
  What is there is read as the type that it should have, and nothing checks that it has
  that type, nor that the text was JSON at all: of a text that is refused the document is
  null, and the first `HasMember` is already outside its precondition.

  So the reading ends, and accepts nothing that is malformed, exactly when every value that
  it comes to has the type it is read as (`parseJsonConfig_total_iff`).
-/

import PredictorService.Common.Util
import PredictorService.Lib.Loops
import PredictorService.Thirdparty.Rapidjson

namespace PredictorService.FeatureMaster

open PredictorService.Common (follySplit)
open PredictorService.Lib
open PredictorService.Thirdparty.Rapidjson

def PARAMETER_EXTRACTOR_CONFIG : String := "parameter_extractor_config"
def GROUP : String := "group"
def EXTRACTOR : String := "extractor"
def FEATURE_NAMES : String := "feature_names"
def EXTRACTOR_ARGS : String := "extractor_args"
def HASH_SIZE : String := "hash_size"

def EXTRACTOR_TYPE_ID : String := "id"
def EXTRACTOR_TYPE_DISCRETE : String := "discrete"
def EXTRACTOR_TYPE_CROSS : String := "cross"

structure ParameterConfig where
  parameterName : String
  group : UInt16
  extractor : String
  featureNames : List String := []
  /-- For a cross extractor. -/
  featureGroups : List (List String) := []
  extractorArgs : String
  hashSize : UInt64 := 0
  deriving DecidableEq, Repr

abbrev ParameterConfigList := List ParameterConfig

/-! ## The reading -/

/-- What is pushed for an entry. `group_t` has 16 bits. -/
def ParameterConfig.make (parameterName : String) (group : Int32) (extractor : String) (featureNames : List String)
    (extractorArgs : String) (hashSize : Int32) : ParameterConfig :=
  let config : ParameterConfig :=
    { parameterName := cString parameterName
      group := group.toUInt32.toUInt16
      extractor := extractor
      extractorArgs := extractorArgs
      hashSize := if hashSize > 0 then hashSize.toInt64.toUInt64 else 0 }
  if EXTRACTOR_TYPE_CROSS = extractor then { config with featureGroups := featureNames.map (follySplit '|') }
  else { config with featureNames := featureNames }

section
variable (name : String) (group : Int32) (extractor : String) (names : List String) (args : String) (hashSize : Int32)

@[simp] theorem make_group :
    (ParameterConfig.make name group extractor names args hashSize).group = group.toUInt32.toUInt16 := by
  rw [ParameterConfig.make, apply_ite ParameterConfig.group, ite_self]

@[simp] theorem make_extractor :
    (ParameterConfig.make name group extractor names args hashSize).extractor = extractor := by
  rw [ParameterConfig.make, apply_ite ParameterConfig.extractor, ite_self]

@[simp] theorem make_featureNames :
    (ParameterConfig.make name group extractor names args hashSize).featureNames =
      if EXTRACTOR_TYPE_CROSS = extractor then [] else names := by
  rw [ParameterConfig.make, apply_ite ParameterConfig.featureNames]

@[simp] theorem make_featureGroups :
    (ParameterConfig.make name group extractor names args hashSize).featureGroups =
      if EXTRACTOR_TYPE_CROSS = extractor then names.map (follySplit '|') else [] := by
  rw [ParameterConfig.make, apply_ite ParameterConfig.featureGroups]

end

/-- The body of the loop: an entry's configuration, or that the function returns false. The
    outer `none` is an accessor outside its precondition. -/
def parseConfig (parameterName : String) (configValue : Value) : Option (Option ParameterConfig) := do
  let hasGroup ← configValue.hasMember GROUP
  let hasExtractor ← configValue.hasMember EXTRACTOR
  let hasFeatureNames ← configValue.hasMember FEATURE_NAMES
  if !hasGroup || !hasExtractor || !hasFeatureNames then
    return none
  let group ← (← configValue.get GROUP).getInt
  let extractor ← (← configValue.get EXTRACTOR).getString
  let extractorArgs ←
    if ← configValue.hasMember EXTRACTOR_ARGS then (← configValue.get EXTRACTOR_ARGS).getString else pure ""
  let featureNames ← (← (← configValue.get FEATURE_NAMES).getArray).mapM Value.getString
  let hashSize ←
    if ← configValue.hasMember HASH_SIZE then (← configValue.get HASH_SIZE).getInt else pure 0
  return some (ParameterConfig.make parameterName group extractor featureNames extractorArgs hashSize)

/-- The loop over the entries. What it had read stays in the list when it returns false. -/
def parseConfigs (parameterConfigs : ParameterConfigList) :
    List (String × Value) → Option (Bool × ParameterConfigList)
  | [] => some (true, parameterConfigs)
  | (parameterName, configValue) :: members => do
    match ← parseConfig parameterName configValue with
    | none => return (false, parameterConfigs)
    | some config => parseConfigs (parameterConfigs ++ [config]) members

def parseJsonConfig (document : Value) : Option (Bool × ParameterConfigList) := do
  if ← document.hasMember PARAMETER_EXTRACTOR_CONFIG then
    let configs ← document.get PARAMETER_EXTRACTOR_CONFIG
    parseConfigs [] (← configs.members)
  else
    return (true, [])

/-! ## Entries -/

/-- The entry has what the loop asks for. -/
def Whole (v : Value) : Prop :=
  ∃ ms, v = .object ms ∧ (Value.find? ms GROUP).isSome ∧ (Value.find? ms EXTRACTOR).isSome ∧
    (Value.find? ms FEATURE_NAMES).isSome

/-- An entry whose members have the types that they are read as. -/
def Typed (v : Value) : Prop :=
  ∃ ms, v = .object ms ∧ (∃ w, Value.find? ms GROUP = some w ∧ w.isInt) ∧
    (∃ w, Value.find? ms EXTRACTOR = some w ∧ w.isString) ∧
    (∀ w, Value.find? ms EXTRACTOR_ARGS = some w → w.isString) ∧
    (∃ items, Value.find? ms FEATURE_NAMES = some (.array items) ∧ ∀ item ∈ items, item.isString) ∧
    ∀ w, Value.find? ms HASH_SIZE = some w → w.isInt

/-- What is read of a typed entry. -/
structure ReadsAs (ms : List (String × Value)) (group : Int32) (extractor : String) (featureNames : List String)
    (extractorArgs : String) (hashSize : Int32) : Prop where
  group : (Value.find? ms GROUP).bind Value.getInt = some group
  extractor : (Value.find? ms EXTRACTOR).bind Value.getString = some extractor
  extractorArgs : ((Value.find? ms EXTRACTOR_ARGS).map Value.getString).getD (some "") = some extractorArgs
  featureNames :
    ((Value.find? ms FEATURE_NAMES).bind Value.getArray).bind (List.mapM Value.getString) = some featureNames
  hashSize : ((Value.find? ms HASH_SIZE).map Value.getInt).getD (some 0) = some hashSize

theorem parseConfig_whole {name : String} {ms : List (String × Value)} (h : Whole (.object ms)) :
    parseConfig name (.object ms) = do
      let group ← (Value.find? ms GROUP).bind Value.getInt
      let extractor ← (Value.find? ms EXTRACTOR).bind Value.getString
      let extractorArgs ← ((Value.find? ms EXTRACTOR_ARGS).map Value.getString).getD (some "")
      let featureNames ← ((Value.find? ms FEATURE_NAMES).bind Value.getArray).bind (List.mapM Value.getString)
      let hashSize ← ((Value.find? ms HASH_SIZE).map Value.getInt).getD (some 0)
      return some (ParameterConfig.make name group extractor featureNames extractorArgs hashSize) := by
  obtain ⟨ms', heq, hg, he, hf⟩ := h
  cases heq
  obtain ⟨g, hg⟩ := Option.isSome_iff_exists.mp hg
  obtain ⟨e, he⟩ := Option.isSome_iff_exists.mp he
  obtain ⟨f, hf⟩ := Option.isSome_iff_exists.mp hf
  simp only [parseConfig, Value.hasMember_object, Value.get_object, hg, he, hf]
  cases ha : Value.find? ms EXTRACTOR_ARGS <;> cases hh : Value.find? ms HASH_SIZE <;> simp [Option.bind_assoc]

theorem parseConfig_not_object {name : String} {v : Value} (h : ¬ v.isObject) : parseConfig name v = none := by
  have hms : v.members = none := by
    rw [← Option.not_isSome_iff_eq_none, Value.members_isSome_iff]
    exact h
  simp [parseConfig, Value.hasMember, hms]

theorem parseConfig_not_whole {name : String} {ms : List (String × Value)} (h : ¬ Whole (.object ms)) :
    parseConfig name (.object ms) = some none := by
  have hmissing : (!(Value.find? ms GROUP).isSome || !(Value.find? ms EXTRACTOR).isSome ||
      !(Value.find? ms FEATURE_NAMES).isSome) = true := by
    by_contra hall
    simp only [Bool.or_eq_true, Bool.not_eq_true', not_or, Bool.not_eq_false] at hall
    exact h ⟨ms, rfl, hall.1.1, hall.1.2, hall.2⟩
  simp only [parseConfig, Value.hasMember_object, Option.bind_eq_bind, Option.bind_some, hmissing, if_true,
    Option.pure_def]

/-- An entry that is read to its end. -/
theorem parseConfig_iff {name : String} {v : Value} {config : ParameterConfig} :
    parseConfig name v = some (some config) ↔
      ∃ ms group extractor featureNames extractorArgs hashSize, v = .object ms ∧
        ReadsAs ms group extractor featureNames extractorArgs hashSize ∧
        config = ParameterConfig.make name group extractor featureNames extractorArgs hashSize := by
  constructor
  · intro h
    by_cases hobj : v.isObject
    · obtain ⟨ms, rfl⟩ := hobj
      by_cases hw : Whole (.object ms)
      · rw [parseConfig_whole hw] at h
        simp only [Option.bind_eq_bind, Option.bind_eq_some_iff, Option.pure_def, Option.some_inj] at h
        obtain ⟨group, hg, extractor, he, args, ha, names, hn, hashSize, hh, rfl⟩ := h
        refine ⟨ms, group, extractor, names, args, hashSize, rfl, ⟨?_, ?_, ha, ?_, hh⟩, rfl⟩
        · exact Option.bind_eq_some_iff.mpr hg
        · exact Option.bind_eq_some_iff.mpr he
        · exact Option.bind_eq_some_iff.mpr ((by simpa [Option.bind_eq_some_iff] using hn))
      · rw [parseConfig_not_whole hw] at h
        cases h
    · rw [parseConfig_not_object hobj] at h
      cases h
  · intro h
    obtain ⟨ms, group, extractor, names, args, hashSize, rfl, hr, rfl⟩ := h
    have hw : Whole (.object ms) := by
      obtain ⟨g, hg, -⟩ := Option.bind_eq_some_iff.mp hr.group
      obtain ⟨e, he, -⟩ := Option.bind_eq_some_iff.mp hr.extractor
      obtain ⟨items, hi, -⟩ := Option.bind_eq_some_iff.mp hr.featureNames
      obtain ⟨f, hf, -⟩ := Option.bind_eq_some_iff.mp hi
      exact ⟨ms, rfl, by rw [hg]; rfl, by rw [he]; rfl, by rw [hf]; rfl⟩
    rw [parseConfig_whole hw, hr.group, hr.extractor, hr.extractorArgs, hr.featureNames, hr.hashSize]
    rfl

/-- A typed entry is read, and only a typed one. -/
theorem exists_parseConfig_iff (name : String) {v : Value} :
    (∃ config, parseConfig name v = some (some config)) ↔ Typed v := by
  simp only [parseConfig_iff]
  constructor
  · intro h
    obtain ⟨_, ms, group, extractor, names, args, hashSize, rfl, hr, -⟩ := h
    obtain ⟨g, hg, hgi⟩ := Option.bind_eq_some_iff.mp hr.group
    obtain ⟨e, he, hes⟩ := Option.bind_eq_some_iff.mp hr.extractor
    obtain ⟨items, hi, hnames⟩ := Option.bind_eq_some_iff.mp hr.featureNames
    obtain ⟨f, hf, hfa⟩ := Option.bind_eq_some_iff.mp hi
    rw [Value.getArray_eq_some_iff] at hfa
    subst hfa
    refine ⟨ms, rfl, ⟨g, hg, ?_⟩, ⟨e, he, ?_⟩, fun w hw => ?_, ⟨items, hf, fun item hitem => ?_⟩, fun w hw => ?_⟩
    · exact Value.getInt_isSome_iff.mp (by rw [hgi]; rfl)
    · exact Value.getString_isSome_iff.mp (by rw [hes]; rfl)
    · have := hr.extractorArgs
      rw [hw, Option.map_some, Option.getD_some] at this
      exact Value.getString_isSome_iff.mp (by rw [this]; rfl)
    · obtain ⟨s, -, hs⟩ := exists_right_of_mem (mapM_eq_some_iff.mp hnames) hitem
      exact Value.getString_isSome_iff.mp (by rw [hs]; rfl)
    · have := hr.hashSize
      rw [hw, Option.map_some, Option.getD_some] at this
      exact Value.getInt_isSome_iff.mp (by rw [this]; rfl)
  · intro h
    obtain ⟨ms, rfl, ⟨g, hg, hgi⟩, ⟨e, he, hes⟩, hargs, ⟨items, hf, hitems⟩, hsize⟩ := h
    obtain ⟨group, hgroup⟩ := Option.isSome_iff_exists.mp (Value.getInt_isSome_iff.mpr hgi)
    obtain ⟨extractor, hextractor⟩ := Option.isSome_iff_exists.mp (Value.getString_isSome_iff.mpr hes)
    obtain ⟨names, hnames⟩ : ∃ names, items.mapM Value.getString = some names := by
      rw [← Option.isSome_iff_exists, ← Option.ne_none_iff_isSome, ne_eq, mapM_eq_none_iff]
      rintro ⟨item, hitem, hnone⟩
      have := Value.getString_isSome_iff.mpr (hitems item hitem)
      rw [hnone] at this
      cases this
    obtain ⟨args, ha⟩ : ∃ args, ((Value.find? ms EXTRACTOR_ARGS).map Value.getString).getD (some "") = some args := by
      cases hw : Value.find? ms EXTRACTOR_ARGS with
      | none => exact ⟨"", rfl⟩
      | some w => exact Option.isSome_iff_exists.mp (Value.getString_isSome_iff.mpr (hargs w hw))
    obtain ⟨hashSize, hh⟩ : ∃ n, ((Value.find? ms HASH_SIZE).map Value.getInt).getD (some 0) = some n := by
      cases hw : Value.find? ms HASH_SIZE with
      | none => exact ⟨0, rfl⟩
      | some w => exact Option.isSome_iff_exists.mp (Value.getInt_isSome_iff.mpr (hsize w hw))
    exact ⟨_, ms, group, extractor, names, args, hashSize, rfl,
      ⟨by rw [hg]; exact hgroup, by rw [he]; exact hextractor, ha, by rw [hf]; exact hnames, hh⟩, rfl⟩

/-! ## The loop -/

/-- All entries are read, each to its end. -/
theorem parseConfigs_true_iff {configs configs' : ParameterConfigList} {entries : List (String × Value)} :
    parseConfigs configs entries = some (true, configs') ↔
      ∃ new, List.Forall₂ (fun e config => parseConfig e.1 e.2 = some (some config)) entries new ∧
        configs' = configs ++ new := by
  induction entries generalizing configs with
  | nil =>
    simp only [parseConfigs, List.forall₂_nil_left_iff, exists_eq_left, List.append_nil, Option.some_inj, Prod.mk.injEq,
      true_and]
    exact eq_comm
  | cons e entries ih =>
    simp only [parseConfigs, Option.bind_eq_bind, List.forall₂_cons_left_iff]
    cases hp : parseConfig e.1 e.2 with
    | none => simp
    | some res =>
      cases res with
      | none => simp
      | some config =>
        rw [Option.bind_some, ih]
        constructor
        · intro h
          obtain ⟨new, hnew, rfl⟩ := h
          exact ⟨config :: new, ⟨config, new, rfl, hnew, rfl⟩, by simp⟩
        · intro h
          obtain ⟨_, ⟨config', new, hconfig, hnew, rfl⟩, rfl⟩ := h
          cases hconfig
          exact ⟨new, hnew, by simp⟩

/-- The entry can be read: it is an object, and typed if it has what the loop asks for. -/
def EntryReadable (v : Value) : Prop := v.isObject ∧ (Whole v → Typed v)

/-- Every entry that the loop comes to, which is up to the first one that lacks something. -/
def EntriesReadable (entries : List (String × Value)) : Prop :=
  ∀ pre e post, entries = pre ++ e :: post → (∀ e' ∈ pre, Whole e'.2) → EntryReadable e.2

theorem entriesReadable_cons {e : String × Value} {entries : List (String × Value)} :
    EntriesReadable (e :: entries) ↔ EntryReadable e.2 ∧ (Whole e.2 → EntriesReadable entries) := by
  constructor
  · intro h
    refine ⟨h [] e entries rfl (by simp), fun hw pre e' post hsplit hpre => ?_⟩
    exact h (e :: pre) e' post (by rw [hsplit]; rfl) (List.forall_mem_cons.mpr ⟨hw, hpre⟩)
  · intro h pre e' post hsplit hpre
    cases pre with
    | nil =>
      obtain ⟨rfl, -⟩ := List.cons.inj hsplit
      exact h.1
    | cons a pre =>
      obtain ⟨rfl, htail⟩ := List.cons.inj hsplit
      obtain ⟨hw, hpre⟩ := List.forall_mem_cons.mp hpre
      exact h.2 hw pre e' post htail hpre

/-- No accessor is outside its precondition in the body of the loop. -/
theorem parseConfig_isSome_iff (name : String) {v : Value} : (parseConfig name v).isSome ↔ EntryReadable v := by
  by_cases hobj : v.isObject
  · by_cases hw : Whole v
    · rw [EntryReadable, iff_true_intro hobj, true_and, forall_prop_of_true hw, ← exists_parseConfig_iff name]
      obtain ⟨ms, rfl⟩ := hobj
      constructor
      · intro h
        obtain ⟨res, hres⟩ := Option.isSome_iff_exists.mp h
        cases res with
        | some config => exact ⟨config, hres⟩
        | none =>
          rw [parseConfig_whole hw] at hres
          simp [Option.bind_eq_some_iff] at hres
      · intro h
        obtain ⟨config, h⟩ := h
        rw [h]
        rfl
    · obtain ⟨ms, rfl⟩ := hobj
      rw [parseConfig_not_whole hw]
      simp [EntryReadable, hw, Value.isObject]
  · rw [parseConfig_not_object hobj]
    simp [EntryReadable, hobj]

theorem parseConfig_eq_some_none_iff {name : String} {v : Value} (h : EntryReadable v) :
    parseConfig name v = some none ↔ ¬ Whole v := by
  constructor
  · intro hnone hw
    obtain ⟨config, hconfig⟩ := (exists_parseConfig_iff name).mpr (h.2 hw)
    rw [hconfig] at hnone
    cases hnone
  · intro hw
    obtain ⟨ms, rfl⟩ := h.1
    exact parseConfig_not_whole hw

theorem parseConfigs_isSome_iff {configs : ParameterConfigList} {entries : List (String × Value)} :
    (parseConfigs configs entries).isSome ↔ EntriesReadable entries := by
  induction entries generalizing configs with
  | nil => simp [parseConfigs, EntriesReadable]
  | cons e entries ih =>
    rw [entriesReadable_cons, ← parseConfig_isSome_iff e.1]
    simp only [parseConfigs, Option.bind_eq_bind]
    cases hp : parseConfig e.1 e.2 with
    | none => simp
    | some res =>
      have hread : EntryReadable e.2 := (parseConfig_isSome_iff e.1).mp (by rw [hp]; rfl)
      cases res with
      | none =>
        have hw := (parseConfig_eq_some_none_iff hread).mp hp
        simp [hw]
      | some config =>
        have hw : Whole e.2 := by
          by_contra hw
          rw [(parseConfig_eq_some_none_iff hread).mpr hw] at hp
          cases hp
        rw [Option.bind_some, ih]
        simp [hw]

/-! ## The whole document -/

/-- The entries under `parameter_extractor_config`. -/
def entriesOf (document : Value) : List (String × Value) :=
  ((document.get PARAMETER_EXTRACTOR_CONFIG).bind Value.members).getD []

/-- An integer group, a string extractor, an array of strings as feature names. -/
def WellFormed (entry : Value) : Prop :=
  ∃ ms, entry = .object ms ∧ (∃ w, Value.find? ms GROUP = some w ∧ w.isInt) ∧
    (∃ w, Value.find? ms EXTRACTOR = some w ∧ w.isString) ∧
    ∃ items, Value.find? ms FEATURE_NAMES = some (.array items) ∧ ∀ item ∈ items, item.isString

theorem Typed.wellFormed {v : Value} (h : Typed v) : WellFormed v := by
  obtain ⟨ms, hv, hg, he, -, hf, -⟩ := h
  exact ⟨ms, hv, hg, he, hf⟩

/-- The function returns, every accessor within its precondition, and what it accepts is
    well formed. -/
def ParsesTotally (document : Value) : Prop :=
  ∃ ok configs, parseJsonConfig document = some (ok, configs) ∧
    (ok = true → ∀ e ∈ entriesOf document, WellFormed e.2)

/-- The document is an object, and so is its configuration, whose entries can be read. -/
def Readable (document : Value) : Prop :=
  ∃ ms, document = .object ms ∧ ∀ configs, Value.find? ms PARAMETER_EXTRACTOR_CONFIG = some configs →
    ∃ entries, configs = .object entries ∧ EntriesReadable entries

theorem parseJsonConfig_isSome_iff {document : Value} : (parseJsonConfig document).isSome ↔ Readable document := by
  cases hm : document.members with
  | none =>
    have hobj : ¬ document.isObject := by
      rw [← Value.members_isSome_iff, hm]
      exact Bool.false_ne_true
    have hread : ¬ Readable document := fun ⟨ms, hms, _⟩ => hobj ⟨ms, hms⟩
    simp [parseJsonConfig, Value.hasMember, hm, hread]
  | some ms =>
    obtain ⟨ms, rfl⟩ := Value.members_isSome_iff.mp (by rw [hm]; rfl : document.members.isSome)
    simp only [parseJsonConfig, Value.hasMember_object, Value.get_object, Option.bind_eq_bind, Option.bind_some]
    cases hf : Value.find? ms PARAMETER_EXTRACTOR_CONFIG with
    | none => simp [Readable, hf]
    | some configs =>
      simp only [Option.isSome_some, if_true, Option.bind_some, Readable, Value.object.injEq, exists_eq_left', hf,
        Option.some_inj, forall_eq']
      cases configs <;> simp [Value.members, parseConfigs_isSome_iff]

/-- What is accepted: each entry is read to its end, and its configuration is pushed. -/
theorem parseJsonConfig_true_iff {document : Value} {configs : ParameterConfigList} :
    parseJsonConfig document = some (true, configs) ↔
      Readable document ∧
        List.Forall₂ (fun e config => parseConfig e.1 e.2 = some (some config)) (entriesOf document) configs := by
  constructor
  · intro h
    have hread : Readable document := parseJsonConfig_isSome_iff.mp (by rw [h]; rfl)
    refine ⟨hread, ?_⟩
    obtain ⟨ms, rfl, hentries⟩ := hread
    simp only [parseJsonConfig, Value.hasMember_object, Value.get_object, Option.bind_eq_bind, Option.bind_some] at h
    rw [entriesOf, Value.get_object]
    cases hf : Value.find? ms PARAMETER_EXTRACTOR_CONFIG with
    | none =>
      rw [hf] at h
      obtain rfl : [] = configs := by simpa using h
      exact .nil
    | some v =>
      obtain ⟨entries, rfl, -⟩ := hentries v hf
      rw [hf] at h
      obtain ⟨new, hnew, rfl⟩ := parseConfigs_true_iff.mp (by simpa using h)
      exact hnew
  · intro h
    obtain ⟨⟨ms, rfl, hentries⟩, hall⟩ := h
    rw [entriesOf, Value.get_object] at hall
    simp only [parseJsonConfig, Value.hasMember_object, Value.get_object, Option.bind_eq_bind, Option.bind_some]
    cases hf : Value.find? ms PARAMETER_EXTRACTOR_CONFIG with
    | none =>
      rw [hf] at hall
      cases hall
      rfl
    | some v =>
      obtain ⟨entries, rfl, -⟩ := hentries v hf
      rw [hf] at hall
      have htrue : parseConfigs [] entries = some (true, configs) :=
        parseConfigs_true_iff.mpr ⟨configs, hall, rfl⟩
      simpa using htrue

/-- The function is total, and accepts only what is well formed, iff every value that it
    comes to is of the type that it is read as. -/
theorem parseJsonConfig_total_iff (parse : String → Option Value) (jsonConfig : String) :
    ParsesTotally (document parse jsonConfig) ↔ Readable (document parse jsonConfig) := by
  generalize document parse jsonConfig = doc
  constructor
  · intro h
    obtain ⟨ok, configs, h, -⟩ := h
    exact parseJsonConfig_isSome_iff.mp (by rw [h]; rfl)
  · intro h
    obtain ⟨⟨ok, configs⟩, hsome⟩ := Option.isSome_iff_exists.mp (parseJsonConfig_isSome_iff.mpr h)
    refine ⟨ok, configs, hsome, fun hok e he => ?_⟩
    subst hok
    obtain ⟨config, -, hconfig⟩ := exists_right_of_mem (parseJsonConfig_true_iff.mp hsome).2 he
    exact ((exists_parseConfig_iff e.1).mp ⟨config, hconfig⟩).wellFormed

/-- What the parser makes of two texts. -/
def bracketsParser (text : String) : Option Value := if text = "[]" then some (.array []) else none

/-- The empty text and an array are asked for a member. -/
theorem unchecked_text_is_read_past :
    ¬ ParsesTotally (document bracketsParser "") ∧ ¬ ParsesTotally (document bracketsParser "[]") := by
  have hempty : parseJsonConfig (document bracketsParser "") = none := rfl
  have harray : parseJsonConfig (document bracketsParser "[]") = none := rfl
  constructor
  · intro h
    obtain ⟨ok, configs, h, -⟩ := h
    cases hempty.symm.trans h
  · intro h
    obtain ⟨ok, configs, h, -⟩ := h
    cases harray.symm.trans h

end PredictorService.FeatureMaster
