/-
  PredictorService.FeatureMaster.ReInit — a manager that is initialised again.

  `init` overwrites the validity and appends to the extractors, which nothing ever clears.
  So a manager keeps the extractors of every configuration that it has accepted
  (`run_extractorList`), and a new configuration replaces them exactly where they had
  nothing to extract and memory does not show in its own (`reinit_replaces_iff`). Of a
  configuration that is refused the validity is false, and nothing is extracted until one
  is accepted.

  A history is a constructor and then calls, each with the memory in which it makes its
  objects. A file that cannot be opened changes nothing, the validity neither; `blank` is
  what the default constructor leaves there.
-/

import PredictorService.FeatureMaster.Buckets
import PredictorService.FeatureMaster.ParameterSigns
import PredictorService.FeatureMaster.UnsetArgs
import PredictorService.Lib.Runs

namespace PredictorService.FeatureMaster

open PredictorService.Lib
open PredictorService.Thirdparty.Rapidjson

variable {Dbl : Type}

inductive Call where
  | init (jsonConfig : String)
  /-- What the file holds; `none` when it cannot be opened. -/
  | initFromFile (jsonFile : Option String)
  deriving DecidableEq, Repr

/-- The text that a call reads. -/
def Call.text : Call → Option String
  | init jsonConfig => some jsonConfig
  | initFromFile jsonFile => jsonFile

namespace ParameterExtractorManager

section
variable (doubles : Doubles Dbl) (parse : String → Option Value)

def call (memory : Memory Dbl) (manager : ParameterExtractorManager Dbl) :
    Call → Option (Bool × ParameterExtractorManager Dbl)
  | .init jsonConfig => manager.init doubles memory parse jsonConfig
  | .initFromFile jsonFile => manager.initFromFile doubles memory parse jsonFile

def step (manager : ParameterExtractorManager Dbl) (c : Memory Dbl × Call) : Option (ParameterExtractorManager Dbl) :=
  (manager.call doubles parse c.1 c.2).map Prod.snd

/-- The constructors: without a configuration, or with one. -/
def start (blank : Bool) : Option (Memory Dbl × String) → Option (ParameterExtractorManager Dbl)
  | none => some { isConfigValid := blank }
  | some (memory, jsonConfig) => construct doubles memory parse jsonConfig

/-- What a history leaves; `none` when the reading of a configuration left an accessor's
    precondition. -/
def history (blank : Bool) (constructor : Option (Memory Dbl × String)) (calls : List (Memory Dbl × Call)) :
    Option (ParameterExtractorManager Dbl) :=
  (start doubles parse blank constructor).bind (run (step doubles parse) · calls)

/-- The texts that a history reads, and where. -/
def reads (constructor : Option (Memory Dbl × String)) (calls : List (Memory Dbl × Call)) :
    List (Memory Dbl × String) :=
  constructor.toList ++ calls.flatMap fun c => c.2.text.toList.map fun text => (c.1, text)

/-- The texts that a history reads. -/
def texts (constructor : Option (Memory Dbl × String)) (calls : List (Memory Dbl × Call)) : List String :=
  (reads constructor calls).map Prod.snd

/-! ## What the manager keeps -/

/-- The extractors of a configuration, if it is accepted. -/
def extractorsOf (r : Memory Dbl × String) : List (ParameterExtractor Dbl) :=
  match parseJsonConfig (document parse r.2) with
  | some (true, configs) => makeExtractors doubles r.1 configs
  | _ => []

theorem init_spec {memory : Memory Dbl} {manager manager' : ParameterExtractorManager Dbl} {jsonConfig : String}
    {ok : Bool} (h : manager.init doubles memory parse jsonConfig = some (ok, manager')) :
    manager' = ⟨manager.extractorList ++ extractorsOf doubles parse (memory, jsonConfig), ok⟩ := by
  rw [init] at h
  rw [extractorsOf]
  cases hp : parseJsonConfig (document parse jsonConfig) with
  | none =>
    rw [hp] at h
    cases h
  | some res =>
    obtain ⟨valid, configs⟩ := res
    rw [hp] at h
    cases valid <;> cases h
    · simp
    · rfl

theorem step_extractorList {manager manager' : ParameterExtractorManager Dbl} {c : Memory Dbl × Call}
    (h : step doubles parse manager c = some manager') :
    manager'.extractorList =
      manager.extractorList ++ (c.2.text.toList.map fun text => (c.1, text)).flatMap (extractorsOf doubles parse) := by
  obtain ⟨memory, c⟩ := c
  obtain ⟨⟨ok, manager''⟩, hcall, rfl⟩ := Option.map_eq_some_iff.mp h
  cases c with
  | init jsonConfig =>
    rw [init_spec doubles parse hcall]
    simp [Call.text]
  | initFromFile jsonFile =>
    cases jsonFile with
    | none =>
      cases hcall
      simp [Call.text]
    | some jsonConfig =>
      rw [init_spec doubles parse hcall]
      simp [Call.text]

/-- The extractors of every configuration that was accepted. -/
theorem run_extractorList {manager manager' : ParameterExtractorManager Dbl} {calls : List (Memory Dbl × Call)}
    (h : run (step doubles parse) manager calls = some manager') :
    manager'.extractorList =
      manager.extractorList ++ (reads none calls).flatMap (extractorsOf doubles parse) := by
  induction calls generalizing manager with
  | nil =>
    cases h
    simp [reads]
  | cons c calls ih =>
    obtain ⟨next, hnext, h⟩ := (run_cons_some _).mp h
    rw [ih h, step_extractorList doubles parse hnext, List.append_assoc, ← List.flatMap_append]
    simp [reads]

theorem history_extractorList {blank : Bool} {constructor : Option (Memory Dbl × String)}
    {calls : List (Memory Dbl × Call)} {manager : ParameterExtractorManager Dbl}
    (h : history doubles parse blank constructor calls = some manager) :
    manager.extractorList = (reads constructor calls).flatMap (extractorsOf doubles parse) := by
  obtain ⟨first, hfirst, hrun⟩ := Option.bind_eq_some_iff.mp h
  have hfirst' : first.extractorList = constructor.toList.flatMap (extractorsOf doubles parse) := by
    cases constructor with
    | none =>
      cases hfirst
      rfl
    | some r =>
      obtain ⟨memory, jsonConfig⟩ := r
      simp only [start, construct, Option.bind_eq_bind, Option.bind_eq_some_iff] at hfirst
      obtain ⟨⟨ok, manager'⟩, hinit, hfirst⟩ := hfirst
      cases hfirst
      rw [init_spec doubles parse hinit]
      simp
  rw [run_extractorList doubles parse hrun, hfirst', ← List.flatMap_append]
  simp [reads]

end

/-! ## Replacing -/

/-- An accepted configuration makes of the manager what it makes of a new one, whatever the
    memory of the one and of the other. -/
def Replaces (city : City) (doubles : Doubles Dbl) (parse : String → Option Value)
    (manager : ParameterExtractorManager Dbl) (jsonConfig : String) : Prop :=
  ∀ memory memory', ∃ manager' fresh, manager.init doubles memory parse jsonConfig = some (true, manager') ∧
    construct doubles memory' parse jsonConfig = some fresh ∧
    (∀ parameters features, manager'.extractParameters city doubles parameters features =
      fresh.extractParameters city doubles parameters features) ∧
    ∀ parameters featuresList, manager'.extractParametersOfList city doubles parameters featuresList =
      fresh.extractParametersOfList city doubles parameters featuresList

/-- A configuration that is refused stops the extraction. -/
def RefusalStops (city : City) (doubles : Doubles Dbl) (parse : String → Option Value)
    (manager : ParameterExtractorManager Dbl) : Prop :=
  ∀ memory jsonConfig manager', manager.init doubles memory parse jsonConfig = some (false, manager') →
    (∀ parameters features, manager'.extractParameters city doubles parameters features = (false, parameters)) ∧
      ∀ parameters featuresList,
        manager'.extractParametersOfList city doubles parameters featuresList = (false, parameters)

variable (city : City) (doubles : Doubles Dbl) (parse : String → Option Value)

theorem refusal_stops (manager : ParameterExtractorManager Dbl) : RefusalStops city doubles parse manager := by
  intro memory jsonConfig manager' hrefuse
  rw [init_spec doubles parse hrefuse]
  refine ⟨fun parameters features => ?_, fun parameters featuresList => ?_⟩
  · rw [extractParameters_eq]
    rfl
  · rw [extractParametersOfList_eq, extractParameters_eq]
    rfl

theorem init_accepted (memory : Memory Dbl) (manager : ParameterExtractorManager Dbl) {jsonConfig : String}
    {configs : ParameterConfigList} (h : parseJsonConfig (document parse jsonConfig) = some (true, configs)) :
    manager.init doubles memory parse jsonConfig =
      some (true, ⟨manager.extractorList ++ makeExtractors doubles memory configs, true⟩) := by
  simp [init, h]

/-- What a valid manager extracts is what its extractors put out. -/
theorem extractParameters_congr_iff (old new : List (ParameterExtractor Dbl)) (features : Features Dbl) :
    (∀ parameters, extractParameters city doubles ⟨old, true⟩ parameters features =
      extractParameters city doubles ⟨new, true⟩ parameters features) ↔
        old.flatMap (ParameterExtractor.output city doubles (featureMap features)) =
          new.flatMap (ParameterExtractor.output city doubles (featureMap features)) := by
  simp only [extractParameters_eq, if_true, Prod.mk.injEq, true_and, List.append_cancel_left_eq, forall_const]

/-- The extractors of some configurations have nothing to extract, whatever the features
    are, iff none of the configurations has. -/
theorem makeExtractors_quiet_iff (memory : Memory Dbl) (configs : ParameterConfigList) :
    (∀ features : Features Dbl, (makeExtractors doubles memory configs).flatMap
      (ParameterExtractor.output city doubles (featureMap features)) = []) ↔
      ∀ config ∈ configs, ¬ config.Extracts := by
  have hsplit : ∀ features : FeatureMap Dbl,
      (makeExtractors doubles memory configs).flatMap (ParameterExtractor.output city doubles features) = [] ↔
        ∀ config ∈ configs.zipIdx, config.1.output city doubles (memory config.2) features = [] := by
    intro features
    rw [makeExtractors_output, List.append_eq_nil_iff, List.flatMap_eq_nil_iff, List.flatMap_eq_nil_iff]
    simp only [List.mem_filter, decide_eq_true_eq]
    constructor
    · intro h config hconfig
      by_cases hcross : config.1.extractor = EXTRACTOR_TYPE_CROSS
      · exact h.2 config ⟨hconfig, hcross⟩
      · exact h.1 config ⟨hconfig, hcross⟩
    · intro h
      exact ⟨fun config hc => h config hc.1, fun config hc => h config hc.1⟩
  simp only [hsplit]
  constructor
  · intro h config hconfig hextracts
    obtain ⟨i, hi⟩ := List.mem_iff_getElem?.mp hconfig
    exact output_ne_nil city doubles hextracts (fun _ hname => hname)
      (h _ (config, i) (List.mk_mem_zipIdx_iff_getElem?.mpr hi))
  · intro h features config hconfig
    exact output_eq_nil city doubles (h config.1 (List.fst_mem_of_mem_zipIdx hconfig)) _

/-- Every entry is silent in the configurations that were accepted. -/
def AcceptedSilent (texts : List String) : Prop :=
  ∀ jsonConfig ∈ texts, (∃ configs, parseJsonConfig (document parse jsonConfig) = some (true, configs)) →
    ∀ e ∈ entriesOf (document parse jsonConfig), Silent e.2

theorem entries_silent_iff {jsonConfig : String} {configs : ParameterConfigList}
    (h : parseJsonConfig (document parse jsonConfig) = some (true, configs)) :
    (∀ e ∈ entriesOf (document parse jsonConfig), Silent e.2) ↔ ∀ config ∈ configs, ¬ config.Extracts := by
  have hread := (parseJsonConfig_true_iff.mp h).2
  constructor
  · intro hsilent config hconfig
    obtain ⟨e, he, hparse⟩ := exists_left_of_mem hread hconfig
    exact (silent_iff hparse).mp (hsilent e he)
  · intro hquiet e he
    obtain ⟨config, hconfig, hparse⟩ := exists_right_of_mem hread he
    exact (silent_iff hparse).mpr (hquiet config hconfig)

/-- The extractors that were kept have nothing to extract iff every entry was silent. -/
theorem kept_quiet_iff (reads : List (Memory Dbl × String)) :
    (∀ features : Features Dbl, (reads.flatMap (extractorsOf doubles parse)).flatMap
      (ParameterExtractor.output city doubles (featureMap features)) = []) ↔
      AcceptedSilent parse (reads.map Prod.snd) := by
  simp only [List.flatMap_assoc]
  constructor
  · intro h jsonConfig hmem haccept
    obtain ⟨r, hr, rfl⟩ := List.mem_map.mp hmem
    obtain ⟨configs, haccept⟩ := haccept
    rw [entries_silent_iff parse haccept, ← makeExtractors_quiet_iff city doubles r.1]
    intro features
    have hnone := List.flatMap_eq_nil_iff.mp (h features) r hr
    rwa [extractorsOf, haccept] at hnone
  · intro h features
    refine List.flatMap_eq_nil_iff.mpr fun r hr => ?_
    unfold extractorsOf
    split
    · rename_i configs haccept
      have hquiet := (entries_silent_iff parse haccept).mp (h r.2 (List.mem_map_of_mem hr) ⟨configs, haccept⟩)
      exact (makeExtractors_quiet_iff city doubles r.1 configs).mpr hquiet features
    · rfl

/-- Replacing, by what the extractors put out. -/
theorem replaces_iff_output (manager : ParameterExtractorManager Dbl) {jsonConfig : String}
    {configs : ParameterConfigList} (haccept : parseJsonConfig (document parse jsonConfig) = some (true, configs)) :
    Replaces city doubles parse manager jsonConfig ↔ ∀ memory memory' (features : Features Dbl),
      (manager.extractorList ++ makeExtractors doubles memory configs).flatMap
          (ParameterExtractor.output city doubles (featureMap features)) =
        (makeExtractors doubles memory' configs).flatMap
          (ParameterExtractor.output city doubles (featureMap features)) := by
  refine forall₂_congr fun memory memory' => ?_
  rw [init_accepted doubles parse memory manager haccept, construct_eq doubles memory' parse haccept]
  constructor
  · rintro ⟨manager', fresh, hinit, hfresh, hextract, -⟩ features
    cases hinit
    cases hfresh
    exact (extractParameters_congr_iff city doubles _ _ features).mp fun parameters => hextract parameters features
  · intro h
    refine ⟨_, _, rfl, rfl, fun parameters features => ?_, fun parameters featuresList => ?_⟩
    · exact (extractParameters_congr_iff city doubles _ _ features).mpr (h features) parameters
    · rw [extractParametersOfList_eq, extractParametersOfList_eq]
      exact (extractParameters_congr_iff city doubles _ _ _).mpr (h _) parameters

/-- After a history, an accepted configuration replaces what was there iff the accepted
    configurations of the history had no entry that extracts, and in its own entries no
    memory shows. A refused one always stops the extraction. -/
theorem reinit_replaces_iff {blank : Bool} {constructor : Option (Memory Dbl × String)}
    {calls : List (Memory Dbl × Call)} {manager : ParameterExtractorManager Dbl}
    (h : history doubles parse blank constructor calls = some manager) {jsonConfig : String}
    {configs : ParameterConfigList} (haccept : parseJsonConfig (document parse jsonConfig) = some (true, configs)) :
    (Replaces city doubles parse manager jsonConfig ∧ RefusalStops city doubles parse manager) ↔
      AcceptedSilent parse (texts constructor calls) ∧ ∀ config ∈ configs, config.Settled city doubles := by
  rw [texts, ← kept_quiet_iff city doubles, ← history_extractorList doubles parse h,
    replaces_iff_output city doubles parse manager haccept, ← makeExtractors_settled_iff]
  simp only [List.flatMap_append]
  constructor
  · rintro ⟨hreplaces, -⟩
    have hquiet (memory : Memory Dbl) (features : Features Dbl) : manager.extractorList.flatMap
        (ParameterExtractor.output city doubles (featureMap features)) = [] :=
      List.append_left_eq_self.mp (hreplaces memory memory features)
    refine ⟨fun features => ?_, fun memory memory' features => ?_⟩
    · rcases isEmpty_or_nonempty (Memory Dbl) with hempty | ⟨⟨memory⟩⟩
      · -- then there was no call
        have hnone : reads constructor calls = [] := List.eq_nil_iff_forall_not_mem.mpr fun r _ => hempty.false r.1
        rw [history_extractorList doubles parse h, hnone]
        rfl
      · exact hquiet memory features
    · have hreplaced := hreplaces memory memory' features
      rwa [hquiet memory, List.nil_append] at hreplaced
  · rintro ⟨hquiet, hsettled⟩
    refine ⟨fun memory memory' features => ?_, refusal_stops city doubles parse manager⟩
    rw [hquiet, List.nil_append]
    exact hsettled memory memory' _

/-- An entry that names no features, and two that do; the arguments of the second are accepted. -/
def quietDocument : Value :=
  .object [(PARAMETER_EXTRACTOR_CONFIG, .object
    [("p", .object [(GROUP, .int 1), (EXTRACTOR, .string EXTRACTOR_TYPE_ID), (FEATURE_NAMES, .array [])])])]

def quietConfig : ParameterConfig := { idConfig "p" 1 with featureNames := [] }

def mixedDocument : Value :=
  .object [(PARAMETER_EXTRACTOR_CONFIG, .object
    [("q", idEntry 2),
    ("p", .object [(GROUP, .int 1), (EXTRACTOR, .string EXTRACTOR_TYPE_DISCRETE),
      (FEATURE_NAMES, .array [.string "user"]), (EXTRACTOR_ARGS, .string "1,0,10,0,2")])])]

def quietText : String :=
  "\x7b\"parameter_extractor_config\":\x7b\"p\":\x7b\"group\":1,\"extractor\":\"id\",\"feature_names\":[]\x7d\x7d\x7d"

def mixedText : String :=
  "\x7b\"parameter_extractor_config\":\x7b\"q\":\x7b\"group\":2,\"extractor\":\"id\",\"feature_names\":[\"user\"]\x7d," ++
    "\"p\":\x7b\"group\":1,\"extractor\":\"discrete\",\"feature_names\":[\"user\"]," ++
    "\"extractor_args\":\"1,0,10,0,2\"\x7d\x7d\x7d"

def quietThenMixed (text : String) : Option Value :=
  if text = quietText then some quietDocument else if text = mixedText then some mixedDocument else none

/-- A file that could not be opened and a configuration without features leave an extractor,
    but nothing that would have to be replaced. -/
theorem quiet_is_replaced :
    ∃ manager, history smallDoubles quietThenMixed true none
        [(fun _ => zeroed, .initFromFile none), (fun _ => zeroed, .init quietText)] = some manager ∧
      manager.extractorList.length = 1 ∧ Replaces City.vendored smallDoubles quietThenMixed manager mixedText := by
  have hquiet : document quietThenMixed quietText = quietDocument := rfl
  have hne : mixedText ≠ quietText := by decide
  have hmixed : document quietThenMixed mixedText = mixedDocument := by
    rw [document, quietThenMixed, if_neg hne, if_pos rfl]
    rfl
  have haccept : parseJsonConfig (document quietThenMixed mixedText) = some (true, [idConfig "q" 2, twoPerNumber]) := by
    rw [hmixed]
    rfl
  have hq : parseJsonConfig (document quietThenMixed quietText) = some (true, [quietConfig]) := by
    rw [hquiet]
    rfl
  have hhistory : history smallDoubles quietThenMixed true none
      [(fun _ => zeroed, .initFromFile none), (fun _ => zeroed, .init quietText)] = some ⟨[.id quietConfig], true⟩ := by
    simp only [history, start, Option.bind_some, run_cons, step, call, initFromFile, Option.map_some,
      init_accepted _ _ _ _ hq, run_nil]
    rfl
  refine ⟨_, hhistory, rfl, ((reinit_replaces_iff City.vendored smallDoubles quietThenMixed hhistory haccept).mpr
    ⟨fun jsonConfig hmem _ e he => ?_, fun config hconfig => ?_⟩).1⟩
  · simp only [texts, reads, Call.text, Option.toList, List.nil_append, List.flatMap_cons, List.flatMap_nil, List.map_nil,
      List.map_cons, List.append_nil, List.mem_singleton] at hmem
    subst hmem
    rw [hquiet] at he
    have hentries : entriesOf quietDocument = [("p", .object [(GROUP, .int 1), (EXTRACTOR, .string EXTRACTOR_TYPE_ID),
      (FEATURE_NAMES, .array [])])] := rfl
    rw [hentries, List.mem_singleton] at he
    subst he
    exact .inr rfl
  · simp only [List.mem_cons, List.not_mem_nil, or_false] at hconfig
    rcases hconfig with rfl | rfl
    · exact fun hdiscrete => absurd hdiscrete (by decide)
    · have haccepted : (initArgs smallDoubles zeroed twoPerNumber.extractorArgs).1 = true := by
        rw [initArgs_twoPerNumber]
      exact ParameterConfig.settled_of_accepted City.vendored smallDoubles haccepted

/-- Two parsed texts of one id extractor each. -/
def twoTexts : String → Option Value := idParser [[("p", 1)], [("q", 2)]]

theorem document_twoTexts :
    document twoTexts (idText [("p", 1)]) = idDocument [("p", 1)] ∧
      document twoTexts (idText [("q", 2)]) = idDocument [("q", 2)] := by
  have hne : ¬ idText [("p", 1)] = idText [("q", 2)] := by decide
  constructor <;> simp [document, twoTexts, idParser, List.find?, hne]

/-- `init` with p and then with q: both are extracted. -/
theorem second_init_keeps_the_first :
    ¬ ∀ (parse : String → Option Value) (blank : Bool) (constructor : Option (Memory ℚ × String))
      (calls : List (Memory ℚ × Call)) (manager : ParameterExtractorManager ℚ),
      history plainDoubles parse blank constructor calls = some manager →
        ∀ jsonConfig configs, parseJsonConfig (document parse jsonConfig) = some (true, configs) →
          Replaces City.vendored plainDoubles parse manager jsonConfig := by
  intro h
  have hp : parseJsonConfig (document twoTexts (idText [("p", 1)])) = some (true, [idConfig "p" 1]) := by
    rw [document_twoTexts.1]
    rfl
  have hq : parseJsonConfig (document twoTexts (idText [("q", 2)])) = some (true, [idConfig "q" 2]) := by
    rw [document_twoTexts.2]
    rfl
  have hhistory : history plainDoubles twoTexts false none [(fun _ => zeroed, .init (idText [("p", 1)]))] =
      some ⟨[.id (idConfig "p" 1)], true⟩ := by
    simp only [history, start, Option.bind_some, run_cons, step, call, init_accepted _ _ _ _ hp]
    rfl
  have hreplaced := (replaces_iff_output City.vendored plainDoubles twoTexts _ hq).mp
    (h twoTexts false none _ _ hhistory _ _ hq) (fun _ => zeroed) (fun _ => zeroed) (zeroFeatures ℚ ["user"])
  have houtput := idConfig_output City.vendored plainDoubles zeroed "p" 1
  rw [List.flatMap_append, List.append_left_eq_self, List.flatMap_singleton] at hreplaced
  cases houtput.symm.trans hreplaced

end ParameterExtractorManager

end PredictorService.FeatureMaster
