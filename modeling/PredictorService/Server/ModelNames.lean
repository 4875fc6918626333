/-
  PredictorService.Server.ModelNames — the full name of a model
  (predictor/config/config_util.cc, predictor/if/predictor_config.thrift,
  predictor/server/model_manager/framework/model_framework.cc).

  Six fields of a `ModelConfig` are joined by `_`, and a framework keeps its models under
  that name. The framework is read back from the name, and rightly when it has no `_`
  itself (`getModelFramework_fullName`). The other fields may have any number of them, so
  two configs share a name without being one model exactly where the pieces between the `_`
  are the same and belong to other fields (`names_identify_iff`).
-/

import PredictorService.Lib.Delimited
import PredictorService.Server.ModelManager

namespace PredictorService.Server

open PredictorService.Lib

variable {F R V : Type}

structure ModelConfig where
  modelFramework : String
  modelClass : String
  featureClass : String
  version : String
  modelName : String
  additional : String := "NA"
  modelFile : String := ""
  deriving DecidableEq, Repr

def NAME_DELIMITER : String := "_"

def getModelFullName (config : ModelConfig) : String :=
  if config.modelFramework.isEmpty then ""
  else
    config.modelFramework ++ NAME_DELIMITER ++
    config.modelClass ++ NAME_DELIMITER ++
    config.featureClass ++ NAME_DELIMITER ++
    config.version ++ NAME_DELIMITER ++
    config.modelName ++ NAME_DELIMITER ++
    config.additional

/-- The base class, which every model overrides. -/
def Model.base : Model F R V where
  predict _ response := .ok (false, response)
  predict_reqId _ _ _ _ h hreq := by
    cases h
    exact hreq

/-- The registered model classes: what `load` makes of a fresh model, `none` when it returns
    false. -/
abbrev ModelFactories (F R V : Type) := String → Option (ModelConfig → String → String → Option (Model F R V))

/-- `ModelFramework::load`: what it returns, and the framework after it. -/
def ModelFramework.load (factories : ModelFactories F R V) (framework : ModelFramework F R V)
    (modelConfig : ModelConfig) (modelPackageDir businessLine : String) : Bool × ModelFramework F R V :=
  match factories modelConfig.modelClass with
  | none => (false, framework)
  | some body =>
    match body modelConfig modelPackageDir businessLine with
    | none => (false, framework)
    | some model => (true, Function.update framework (getModelFullName modelConfig) (some model))

namespace ModelNames

open ModelFramework (getModelFramework)

/-- The fields of a name. -/
def fields (c : ModelConfig) : List (List Char) :=
  [c.modelFramework.toList, c.modelClass.toList, c.featureClass.toList, c.version.toList, c.modelName.toList,
    c.additional.toList]

/-- A framework name that the name of a model can be read back to. -/
def PlainFramework (c : ModelConfig) : Prop := c.modelFramework ≠ "" ∧ '_' ∉ c.modelFramework.toList

def SameModel (c c' : ModelConfig) : Prop :=
  c.modelFramework = c'.modelFramework ∧ c.modelClass = c'.modelClass ∧ c.featureClass = c'.featureClass ∧
    c.version = c'.version ∧ c.modelName = c'.modelName ∧ c.additional = c'.additional

/-- The name finds the framework, and two models do not share one. -/
structure Identified (F R V : Type) (c c' : ModelConfig) : Prop where
  lookup : ∀ w : World F R V, getModelFramework w (getModelFullName c) = w c.modelFramework
  names : getModelFullName c = getModelFullName c' → SameModel c c'
  stays : ¬ SameModel c c' → ∀ (factories : ModelFactories F R V) (framework : ModelFramework F R V)
    (modelPackageDir businessLine : String),
    (framework.load factories c' modelPackageDir businessLine).2 (getModelFullName c) = framework (getModelFullName c)

/-- The pieces between the `_` of the fields after the framework. -/
def pieces (c : ModelConfig) : List (List Char) := (fields c).tail.flatMap (·.splitOn '_')

/-- Where the pieces are the same, each field has as many of them. -/
def DividedAlike (c c' : ModelConfig) : Prop :=
  c.modelFramework = c'.modelFramework → pieces c = pieces c' →
    (fields c).tail.map (·.count '_') = (fields c').tail.map (·.count '_')

/-! ## Names -/

theorem fields_cons (c : ModelConfig) : fields c = c.modelFramework.toList :: (fields c).tail := rfl

theorem toList_getModelFullName {c : ModelConfig} (h : c.modelFramework ≠ "") :
    (getModelFullName c).toList = ['_'].intercalate (fields c) := by
  have hne : ¬ c.modelFramework.isEmpty = true := by simpa using h
  have hdelimiter : NAME_DELIMITER.toList = ['_'] := rfl
  rw [getModelFullName, if_neg hne]
  simp [fields, hdelimiter, List.append_assoc]

theorem splitOn_getModelFullName {c : ModelConfig} (h : PlainFramework c) :
    (getModelFullName c).toList.splitOn '_' = c.modelFramework.toList :: pieces c := by
  rw [toList_getModelFullName h.1, fields_cons, splitOn_intercalate_flatMap (List.cons_ne_nil _ _), List.flatMap_cons,
    List.splitOn_eq_singleton h.2]
  rfl

theorem five_le_length_pieces (c : ModelConfig) : 5 ≤ (pieces c).length := by
  simp only [pieces, fields, List.tail_cons, List.length_flatMap, List.map_cons, List.map_nil, length_splitOn,
    List.sum_cons, List.sum_nil]
  omega

/-- The first part of the name is the framework's. -/
theorem getModelFramework_fullName {c : ModelConfig} (h : PlainFramework c) (w : World F R V) :
    getModelFramework w (getModelFullName c) = w c.modelFramework := by
  have hlen := five_le_length_pieces c
  rw [getModelFramework, splitOn_getModelFullName h, List.length_cons]
  simp only [List.headD_cons, String.ofList_toList]
  exact if_neg (by omega)

theorem fullName_eq_iff {c c' : ModelConfig} (h : PlainFramework c) (h' : PlainFramework c') :
    getModelFullName c = getModelFullName c' ↔ c.modelFramework = c'.modelFramework ∧ pieces c = pieces c' := by
  have hsplit := splitOn_getModelFullName h
  have hsplit' := splitOn_getModelFullName h'
  constructor
  · intro heq
    rw [heq, hsplit'] at hsplit
    obtain ⟨hframework, hpieces⟩ := List.cons_eq_cons.mp hsplit
    exact ⟨(String.toList_inj.mp hframework).symm, hpieces.symm⟩
  · rintro ⟨hframework, hpieces⟩
    rw [hframework, hpieces, ← hsplit'] at hsplit
    exact String.toList_inj.mp (splitOn_injective hsplit)

theorem sameModel_iff {c c' : ModelConfig} : SameModel c c' ↔ fields c = fields c' := by
  simp only [SameModel, fields, List.cons.injEq, String.toList_inj, and_true]

theorem sameModel_of_divided {c c' : ModelConfig} (h : PlainFramework c) (h' : PlainFramework c')
    (hdivided : DividedAlike c c') (heq : getModelFullName c = getModelFullName c') : SameModel c c' := by
  obtain ⟨hframework, hpieces⟩ := (fullName_eq_iff h h').mp heq
  have hlen : (fields c).length = (fields c').length := rfl
  refine sameModel_iff.mpr ((eq_iff_intercalate_eq (x := '_') hlen).mpr ⟨?_, ?_⟩)
  · rw [← toList_getModelFullName h.1, ← toList_getModelFullName h'.1, heq]
  · rw [fields_cons c, fields_cons c', List.map_cons, List.map_cons, hframework, hdivided hframework hpieces]

/-- Loading changes the models under one name only. -/
theorem load_other (factories : ModelFactories F R V) (framework : ModelFramework F R V) (c : ModelConfig)
    (modelPackageDir businessLine : String) {name : String} (hname : name ≠ getModelFullName c) :
    (framework.load factories c modelPackageDir businessLine).2 name = framework name := by
  unfold ModelFramework.load
  split
  · rfl
  split
  · rfl
  · exact Function.update_of_ne hname _ _

/-- Names identify two models exactly where equal pieces are divided alike. -/
theorem names_identify_iff {c c' : ModelConfig} (h : PlainFramework c) (h' : PlainFramework c') :
    Identified F R V c c' ↔ DividedAlike c c' := by
  constructor
  · intro hid hframework hpieces
    have hsame := hid.names ((fullName_eq_iff h h').mpr ⟨hframework, hpieces⟩)
    rw [sameModel_iff.mp hsame]
  · intro hdivided
    refine ⟨getModelFramework_fullName h, sameModel_of_divided h h' hdivided, fun hne factories framework _ _ => ?_⟩
    exact load_other factories framework c' _ _ fun heq => hne (sameModel_of_divided h h' hdivided heq)

/-- A model with a tag of its own. -/
theorem names_identify_tagged :
    let plain : ModelConfig := ⟨"tf", "estimator_multi", "xfea_extractor", "v0", "cpl_ctr", "NA", ""⟩
    let tagged : ModelConfig := ⟨"tf", "estimator_multi", "xfea_extractor", "v0", "cpl_ctr", "incr", ""⟩
    PlainFramework plain ∧ PlainFramework tagged ∧ Identified Nat Nat Nat plain tagged := by
  intro plain tagged
  have hplain : PlainFramework plain := ⟨by decide, by decide⟩
  have htagged : PlainFramework tagged := ⟨by decide, by decide⟩
  exact ⟨hplain, htagged, (names_identify_iff hplain htagged).mpr fun _ _ => by decide⟩

/-- The tag has taken a part of the model's name. -/
theorem one_name_for_two_models :
    let model : ModelConfig := ⟨"tf", "estimator_multi", "xfea_extractor", "v0", "cpl_ctr", "incr", ""⟩
    let other : ModelConfig := ⟨"tf", "estimator_multi", "xfea_extractor", "v0", "cpl", "ctr_incr", ""⟩
    let factories : ModelFactories Nat Nat Nat := fun _ => some fun _ _ _ => some Model.base
    let framework : ModelFramework Nat Nat Nat := fun _ => none
    PlainFramework model ∧ PlainFramework other ∧ getModelFullName model = getModelFullName other ∧
      ¬ SameModel model other ∧
      ((framework.load factories other "/models" "").2 (getModelFullName model)).isSome ∧
      ¬ Identified Nat Nat Nat model other := by
  intro model other factories framework
  have hmodel : PlainFramework model := ⟨by decide, by decide⟩
  have hother : PlainFramework other := ⟨by decide, by decide⟩
  have hname : getModelFullName model = getModelFullName other :=
    (fullName_eq_iff hmodel hother).mpr ⟨rfl, by decide⟩
  have hdiffer : ¬ SameModel model other := fun h => absurd h.2.2.2.2.1 (by decide)
  refine ⟨hmodel, hother, hname, hdiffer, ?_, fun h => hdiffer (h.names hname)⟩
  rw [hname]
  exact congrArg Option.isSome (Function.update_self (getModelFullName other) (some Model.base) framework)

end ModelNames

end PredictorService.Server
