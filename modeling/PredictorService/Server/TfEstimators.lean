/-
  PredictorService.Server.TfEstimators — the input tensors of two TensorFlow estimators
  (predictor/server/model_manager/framework/tf: tf_model_estimator_multi_fea.cc,
  tf_model_estimator_native.h and .cc).

  For each input of the signature both make a tensor with a row for each item, and fill an
  item's row with its feature of that name: its first values, and the type's default behind
  them. Where the signature has too few dimensions, an item lacks the feature, or the
  feature's type is not the tensor's, both return false. A feature whose type has no name
  makes the newer one return false as well; the older one leaves the row as it was
  allocated. So they agree exactly where such a feature is the only thing wrong nowhere
  (`builders_agree_iff`).

  A new tensor of strings is empty strings; any other holds what memory held (`Memory`).
  Sizes in the signature are not negative. Floats are a type parameter, and `narrow` makes
  a float of a double.
-/

import PredictorService.FeatureMaster.Feature
import PredictorService.Lib.Loops
import PredictorService.Lib.Writes

namespace PredictorService.Server

open PredictorService.FeatureMaster (Feature FeatureMap FeatureType)
open PredictorService.Lib

variable {Flt Dbl : Type}

/-- `tensorflow::DataType`, with the three that features have. -/
inductive DataType where
  | string
  | int64
  | float
  | other (n : Int32)
  deriving DecidableEq, Repr

/-- An element of an input tensor; one of another type is so many bits. -/
inductive Cell (Flt : Type) where
  | string (s : String)
  | int64 (n : Int64)
  | float (f : Flt)
  | other (bits : Nat)
  deriving DecidableEq, Repr

/-- `tensorflow::TensorInfo`; the sizes of the dimensions of its shape. -/
structure TensorInfo where
  name : String
  dtype : DataType
  dims : List Nat
  deriving DecidableEq, Repr

/-- A matrix, row after row. -/
structure InputTensor (Flt : Type) where
  dtype : DataType
  len : Nat
  rows : List (List (Cell Flt))
  deriving DecidableEq, Repr

/-- `inputs_map_`, in the order of its iteration. -/
abbrev InputsMap := List (String × TensorInfo)

/-- The named tensors that a session is run on. -/
abbrev Inputs (Flt : Type) := List (String × InputTensor Flt)

/-- What memory holds where a tensor is allocated for an input: a row, and a place in it. -/
structure Memory (Flt : Type) where
  int64At : String → Nat → Nat → Int64
  floatAt : String → Nat → Nat → Flt
  otherAt : String → Nat → Nat → Nat

/-- The row `i` of a new tensor. -/
def Memory.newRow (memory : Memory Flt) (feaName : String) (dtype : DataType) (len i : Nat) : List (Cell Flt) :=
  (List.range len).map fun index =>
    match dtype with
    | .string => .string ""
    | .int64 => .int64 (memory.int64At feaName i index)
    | .float => .float (memory.floatAt feaName i index)
    | .other _ => .other (memory.otherAt feaName i index)

/-- The loops that copy a feature's values into a row and fill it up. -/
def copyPad (len : Nat) (values : List (Cell Flt)) (defaultVal : Cell Flt) (row : List (Cell Flt)) : List (Cell Flt) :=
  if values.length < len then
    let row := values.zipIdx.foldl (fun row v => row.set v.2 v.1) row
    (List.range' values.length (len - values.length)).foldl (fun row index => row.set index defaultVal) row
  else
    (values.take len).zipIdx.foldl (fun row v => row.set v.2 v.1) row

/-- The loops over the inputs and over the examples, with what a round does to the row that
    it works on; `none` when the function returns false before it runs the session. -/
def buildInputs
    (fillRow : TensorInfo → Nat → String → FeatureMap Dbl → List (Cell Flt) → Option (List (Cell Flt)))
    (memory : Memory Flt) (inputsMap : InputsMap) (examples : List (Int64 × FeatureMap Dbl)) :
    Option (Inputs Flt) :=
  inputsMap.mapM fun (feaName, tensorInfo) => do
    let len ← tensorInfo.dims[1]?
    let rows ← examples.zipIdx.mapM fun (item, i) =>
      fillRow tensorInfo len feaName item.2 (memory.newRow feaName tensorInfo.dtype len i)
    return (tensorInfo.name, { dtype := tensorInfo.dtype, len := len, rows := rows })

variable (narrow : Dbl → Flt)

namespace TFModelEstimatorMultiFea

variable [OfNat Dbl 0]

/-- A round of the loop over the examples. -/
def fillRow (tensorInfo : TensorInfo) (len : Nat) (feaName : String) (feaInfo : FeatureMap Dbl) (row : List (Cell Flt)) :
    Option (List (Cell Flt)) :=
  match feaInfo.lookup feaName with
  | none => none
  | some feature =>
    match feature.featureType with
    | .stringList =>
      if tensorInfo.dtype ≠ .string then none
      else some (copyPad len (feature.stringValues.map .string) (.string "") row)
    | .int64List =>
      if tensorInfo.dtype ≠ .int64 then none
      else some (copyPad len (feature.int64Values.map .int64) (.int64 0) row)
    | .floatList =>
      if tensorInfo.dtype ≠ .float then none
      else some (copyPad len (feature.floatValues.map fun value => .float (narrow value)) (.float (narrow 0)) row)
    | .other _ => some row

/-- What `tfCalculateOutputs` runs the session on. -/
def inputs (memory : Memory Flt) (inputsMap : InputsMap) (examples : List (Int64 × FeatureMap Dbl)) :
    Option (Inputs Flt) :=
  buildInputs (fillRow narrow) memory inputsMap examples

end TFModelEstimatorMultiFea

namespace TFModelEstimatorNative

variable [OfNat Dbl 0]

/-- `none` when it returns false. -/
def buildTensor (row : List (Cell Flt)) (feaVals : List (Cell Flt)) (tensorType expectedType : DataType) (tensorLen : Nat)
    (defaultVal : Cell Flt) : Option (List (Cell Flt)) :=
  if tensorType ≠ expectedType then none
  else some (copyPad tensorLen feaVals defaultVal row)

def fillRow (tensorInfo : TensorInfo) (tensorLen : Nat) (feaName : String) (feaMap : FeatureMap Dbl)
    (row : List (Cell Flt)) : Option (List (Cell Flt)) :=
  match feaMap.lookup feaName with
  | none => none
  | some curFea =>
    match curFea.featureType with
    | .stringList =>
      buildTensor row (curFea.stringValues.map .string) tensorInfo.dtype .string tensorLen (.string "")
    | .int64List => buildTensor row (curFea.int64Values.map .int64) tensorInfo.dtype .int64 tensorLen (.int64 0)
    | .floatList =>
      buildTensor row (curFea.floatValues.map fun value => .float (narrow value)) tensorInfo.dtype .float tensorLen
        (.float (narrow 0))
    -- `rc` stays false
    | .other _ => none

/-- What `tfCalculateOutputs` runs the session on. -/
def inputs (memory : Memory Flt) (inputsMap : InputsMap) (itemFeatures : List (Int64 × FeatureMap Dbl)) :
    Option (Inputs Flt) :=
  buildInputs (fillRow narrow) memory inputsMap itemFeatures

end TFModelEstimatorNative

/-! ## Rows -/

@[simp] theorem Memory.length_newRow (memory : Memory Flt) (feaName : String) (dtype : DataType) (len i : Nat) :
    (memory.newRow feaName dtype len i).length = len := by
  rw [newRow, List.length_map, List.length_range]

theorem copyPad_eq {len : Nat} (values : List (Cell Flt)) (defaultVal : Cell Flt) {row : List (Cell Flt)}
    (h : row.length = len) : copyPad len values defaultVal row = padded len values defaultVal := by
  unfold copyPad padded
  split_ifs with hlt
  · have hcopy := foldl_set_zipIdx row values 0 (by omega)
    rw [List.take_zero, List.nil_append, Nat.zero_add] at hcopy
    have hlen : values.length + (len - values.length) ≤ (values ++ row.drop values.length).length := by
      rw [List.length_append, List.length_drop]
      omega
    rw [hcopy, foldl_set_range' defaultVal hlen, List.take_left', List.take_of_length_le hlt.le,
      List.drop_of_length_le (by rw [List.length_append, List.length_drop]; omega), List.append_nil]
    rfl
  · have hle : len ≤ values.length := not_lt.mp hlt
    have hcopy := foldl_set_zipIdx row (values.take len) 0 (by rw [List.length_take]; omega)
    rw [hcopy, List.take_zero, List.nil_append, Nat.sub_eq_zero_of_le hle, List.replicate_zero,
      List.drop_of_length_le (by rw [List.length_take]; omega)]

/-! ## The loops -/

section
variable {fillRow : TensorInfo → Nat → String → FeatureMap Dbl → List (Cell Flt) → Option (List (Cell Flt))}
  {memory : Memory Flt} {inputsMap : InputsMap} {examples : List (Int64 × FeatureMap Dbl)}

theorem buildInputs_eq_some_iff {inputs : Inputs Flt} :
    buildInputs fillRow memory inputsMap examples = some inputs ↔
      List.Forall₂ (fun input tensor => tensor.1 = input.2.name ∧ tensor.2.dtype = input.2.dtype ∧
        input.2.dims[1]? = some tensor.2.len ∧
        List.Forall₂ (fun p row => fillRow input.2 tensor.2.len input.1 p.1.2
          (memory.newRow input.1 input.2.dtype tensor.2.len p.2) = some row) examples.zipIdx tensor.2.rows)
        inputsMap inputs := by
  rw [buildInputs, mapM_eq_some_iff]
  refine iff_of_eq (congrArg (fun R => List.Forall₂ R inputsMap inputs) ?_)
  funext input tensor
  obtain ⟨feaName, tensorInfo⟩ := input
  obtain ⟨name, dtype, len, rows⟩ := tensor
  simp only [Option.bind_eq_bind, Option.bind_eq_some_iff, mapM_eq_some_iff, Option.pure_def, Option.some_inj,
    Prod.mk.injEq, InputTensor.mk.injEq, eq_iff_iff]
  constructor
  · intro h
    obtain ⟨len', hlen, rows', hrows, rfl, rfl, rfl, rfl⟩ := h
    exact ⟨rfl, rfl, hlen, hrows⟩
  · intro h
    obtain ⟨rfl, rfl, hlen, hrows⟩ := h
    exact ⟨len, hlen, rows, hrows, rfl, rfl, rfl, rfl⟩

theorem isSome_buildInputs_iff
    (ok : TensorInfo → Feature Dbl → Prop)
    (hfill : ∀ tensorInfo len feaName (features : FeatureMap Dbl) (row : List (Cell Flt)), row.length = len →
      ((fillRow tensorInfo len feaName features row).isSome ↔
        ∃ feature, features.lookup feaName = some feature ∧ ok tensorInfo feature)) :
    (buildInputs fillRow memory inputsMap examples).isSome ↔
      ∀ input ∈ inputsMap, 2 ≤ input.2.dims.length ∧
        ∀ item ∈ examples, ∃ feature, item.2.lookup input.1 = some feature ∧ ok input.2 feature := by
  have hitems : ∀ P : Int64 × FeatureMap Dbl → Prop,
      (∀ p ∈ examples.zipIdx, P p.1) ↔ ∀ item ∈ examples, P item := by
    intro P
    conv_rhs => rw [← List.zipIdx_map_fst 0 examples, List.forall_mem_map]
  rw [buildInputs, isSome_mapM_iff]
  refine forall₂_congr fun input _ => ?_
  obtain ⟨feaName, tensorInfo⟩ := input
  cases hdim : tensorInfo.dims[1]? with
  | none =>
    have hlt := List.getElem?_eq_none_iff.mp hdim
    simp only [hdim, Option.bind_eq_bind, Option.bind_none, Option.isSome_none, Bool.false_eq_true, false_iff, not_and]
    intro hle
    omega
  | some len =>
    obtain ⟨hlt, -⟩ := List.getElem?_eq_some_iff.mp hdim
    have hle : 2 ≤ tensorInfo.dims.length := hlt
    simp only [hdim, Option.bind_eq_bind, Option.bind_some, Option.pure_def, hle, true_and,
      ← hitems fun item => ∃ feature, item.2.lookup feaName = some feature ∧ ok tensorInfo feature]
    rw [← Function.comp_def some, ← Option.map_eq_bind, Option.isSome_map, isSome_mapM_iff]
    exact forall₂_congr fun p _ => hfill tensorInfo len feaName p.1.2 _ (memory.length_newRow feaName _ len p.2)

end

/-! ## What a row becomes -/

/-- The type of the tensors that take a feature; none for a type without a name. -/
def dataType : FeatureType → Option DataType
  | .stringList => some .string
  | .int64List => some .int64
  | .floatList => some .float
  | .other _ => none

variable [OfNat Dbl 0]

/-- The first values of a feature, padded with the type's default. -/
def paddedRow (len : Nat) (feature : Feature Dbl) : Option (List (Cell Flt)) :=
  match feature.featureType with
  | .stringList => some (padded len (feature.stringValues.map .string) (.string ""))
  | .int64List => some (padded len (feature.int64Values.map .int64) (.int64 0))
  | .floatList => some (padded len (feature.floatValues.map fun value => .float (narrow value)) (.float (narrow 0)))
  | .other _ => none

theorem isSome_paddedRow (len : Nat) (feature : Feature Dbl) :
    (paddedRow narrow len feature).isSome = (dataType feature.featureType).isSome := by
  rw [paddedRow]
  cases feature.featureType <;> rfl

theorem TFModelEstimatorNative.fillRow_eq {tensorInfo : TensorInfo} {len : Nat} {feaName : String}
    {feaMap : FeatureMap Dbl} {row : List (Cell Flt)} (h : row.length = len) :
    fillRow narrow tensorInfo len feaName feaMap row =
      (feaMap.lookup feaName).bind fun feature =>
        if dataType feature.featureType = some tensorInfo.dtype then paddedRow narrow len feature else none := by
  rw [fillRow]
  cases feaMap.lookup feaName with
  | none => rfl
  | some feature =>
    simp only [buildTensor, copyPad_eq _ _ h, Option.bind_some, paddedRow]
    cases feature.featureType <;> simp [dataType, eq_comm]

theorem TFModelEstimatorMultiFea.fillRow_eq {tensorInfo : TensorInfo} {len : Nat} {feaName : String}
    {feaInfo : FeatureMap Dbl} {row : List (Cell Flt)} (h : row.length = len) :
    fillRow narrow tensorInfo len feaName feaInfo row =
      (feaInfo.lookup feaName).bind fun feature =>
        if dataType feature.featureType = none then some row
        else if dataType feature.featureType = some tensorInfo.dtype then paddedRow narrow len feature else none := by
  rw [fillRow]
  cases feaInfo.lookup feaName with
  | none => rfl
  | some feature =>
    simp only [copyPad_eq _ _ h, Option.bind_some, paddedRow]
    cases feature.featureType <;> simp [dataType, eq_comm]

/-! ## Signatures and items -/

/-- The signature has a second dimension for each input, and each item a feature for it, of
    the tensor's type or of one without a name. -/
def Admissible (inputsMap : InputsMap) (examples : List (Int64 × FeatureMap Dbl)) : Prop :=
  ∀ input ∈ inputsMap, 2 ≤ input.2.dims.length ∧
    ∀ item ∈ examples, ∃ feature, item.2.lookup input.1 = some feature ∧
      ∀ type, dataType feature.featureType = some type → type = input.2.dtype

/-- No item has a feature for an input whose type has no name. -/
def KnownTypes (inputsMap : InputsMap) (examples : List (Int64 × FeatureMap Dbl)) : Prop :=
  ∀ input ∈ inputsMap, ∀ item ∈ examples, ∀ feature, item.2.lookup input.1 = some feature →
    (dataType feature.featureType).isSome

theorem TFModelEstimatorMultiFea.isSome_inputs_iff (memory : Memory Flt) {inputsMap : InputsMap}
    {examples : List (Int64 × FeatureMap Dbl)} :
    (inputs narrow memory inputsMap examples).isSome ↔ Admissible inputsMap examples := by
  refine isSome_buildInputs_iff
    (fun tensorInfo feature => ∀ type, dataType feature.featureType = some type → type = tensorInfo.dtype)
    fun tensorInfo len feaName features row h => ?_
  rw [fillRow_eq narrow h]
  cases features.lookup feaName with
  | none => simp
  | some feature =>
    have hpadded := isSome_paddedRow narrow len feature
    cases htype : dataType feature.featureType with
    | none => simp [htype]
    | some type =>
      rw [htype] at hpadded
      by_cases heq : type = tensorInfo.dtype <;> simp [htype, heq, hpadded]

theorem TFModelEstimatorNative.isSome_inputs_iff (memory : Memory Flt) {inputsMap : InputsMap}
    {itemFeatures : List (Int64 × FeatureMap Dbl)} :
    (inputs narrow memory inputsMap itemFeatures).isSome ↔
      Admissible inputsMap itemFeatures ∧ KnownTypes inputsMap itemFeatures := by
  have hiff : (inputs narrow memory inputsMap itemFeatures).isSome ↔
      ∀ input ∈ inputsMap, 2 ≤ input.2.dims.length ∧ ∀ item ∈ itemFeatures, ∃ feature,
        item.2.lookup input.1 = some feature ∧ dataType feature.featureType = some input.2.dtype := by
    refine isSome_buildInputs_iff (fun tensorInfo feature => dataType feature.featureType = some tensorInfo.dtype)
      fun tensorInfo len feaName features row h => ?_
    rw [fillRow_eq narrow h]
    cases features.lookup feaName with
    | none => simp
    | some feature =>
      have hpadded := isSome_paddedRow narrow len feature
      by_cases heq : dataType feature.featureType = some tensorInfo.dtype
      · rw [heq] at hpadded
        simp [heq, hpadded]
      · simp [heq]
  rw [hiff]
  constructor
  · intro h
    refine ⟨fun input hinput => ⟨(h input hinput).1, fun item hitem => ?_⟩,
      fun input hinput item hitem feature hf => ?_⟩
    · obtain ⟨feature, hf, htype⟩ := (h input hinput).2 item hitem
      exact ⟨feature, hf, fun type ht => Option.some_inj.mp (ht.symm.trans htype)⟩
    · obtain ⟨feature', hf', htype⟩ := (h input hinput).2 item hitem
      obtain rfl : feature = feature' := Option.some_inj.mp (hf.symm.trans hf')
      rw [htype]
      rfl
  · intro h input hinput
    refine ⟨(h.1 input hinput).1, fun item hitem => ?_⟩
    obtain ⟨feature, hf, htype⟩ := (h.1 input hinput).2 item hitem
    obtain ⟨type, hknown⟩ := Option.isSome_iff_exists.mp (h.2 input hinput item hitem feature hf)
    exact ⟨feature, hf, by rw [hknown, htype type hknown]⟩

/-! ## Agreement -/

/-- Where all types are known the two do the same, and memory does not show. -/
theorem inputs_eq_of_knownTypes (memory memory' : Memory Flt) {inputsMap : InputsMap}
    {examples : List (Int64 × FeatureMap Dbl)} (h : KnownTypes inputsMap examples) :
    TFModelEstimatorMultiFea.inputs narrow memory inputsMap examples =
      TFModelEstimatorNative.inputs narrow memory' inputsMap examples := by
  refine mapM_congr fun input hinput => ?_
  obtain ⟨feaName, tensorInfo⟩ := input
  cases hdim : tensorInfo.dims[1]? with
  | none => simp only [hdim, Option.bind_eq_bind, Option.bind_none]
  | some len =>
    simp only [hdim, Option.bind_eq_bind, Option.bind_some]
    rw [mapM_congr fun p hp => ?_]
    rw [TFModelEstimatorMultiFea.fillRow_eq narrow (memory.length_newRow ..),
      TFModelEstimatorNative.fillRow_eq narrow (memory'.length_newRow ..)]
    cases hf : p.1.2.lookup feaName with
    | none => rfl
    | some feature =>
      have hmem : p.1 ∈ examples := by
        rw [← List.zipIdx_map_fst 0 examples]
        exact List.mem_map_of_mem hp
      have hknown := h (feaName, tensorInfo) hinput p.1 hmem feature hf
      rw [Option.bind_some, Option.bind_some, if_neg (Option.ne_none_iff_isSome.mpr hknown)]

/-- The tensors are what they should be: in the order of the inputs, the row of an item the
    padded values of its feature. -/
def RowsPadded (inputsMap : InputsMap) (examples : List (Int64 × FeatureMap Dbl)) (inputs : Inputs Flt) : Prop :=
  List.Forall₂ (fun input tensor => tensor.1 = input.2.name ∧ tensor.2.dtype = input.2.dtype ∧
    input.2.dims[1]? = some tensor.2.len ∧
    List.Forall₂ (fun item row => ∃ feature, item.2.lookup input.1 = some feature ∧
      paddedRow narrow tensor.2.len feature = some row) examples tensor.2.rows) inputsMap inputs

theorem TFModelEstimatorNative.rowsPadded {memory : Memory Flt} {inputsMap : InputsMap}
    {itemFeatures : List (Int64 × FeatureMap Dbl)} {tensors : Inputs Flt}
    (h : inputs narrow memory inputsMap itemFeatures = some tensors) :
    RowsPadded narrow inputsMap itemFeatures tensors := by
  refine (buildInputs_eq_some_iff.mp h).imp fun input tensor htensor => ?_
  obtain ⟨hname, hdtype, hlen, hrows⟩ := htensor
  refine ⟨hname, hdtype, hlen, ?_⟩
  rw [← List.zipIdx_map_fst 0 itemFeatures, List.forall₂_map_left_iff]
  refine hrows.imp fun p row hrow => ?_
  rw [fillRow_eq narrow (memory.length_newRow ..), Option.bind_eq_some_iff] at hrow
  obtain ⟨feature, hf, hrow⟩ := hrow
  split_ifs at hrow
  exact ⟨feature, hf, hrow⟩

/-- Both builders return false, or both run the session on the same, rightly padded
    tensors. Each allocates in its own memory. -/
def BuildersAgree (memory memory' : Memory Flt) (inputsMap : InputsMap) (examples : List (Int64 × FeatureMap Dbl)) :
    Prop :=
  (TFModelEstimatorMultiFea.inputs narrow memory inputsMap examples = none ∧
    TFModelEstimatorNative.inputs narrow memory' inputsMap examples = none) ∨
  ∃ inputs, TFModelEstimatorMultiFea.inputs narrow memory inputsMap examples = some inputs ∧
    TFModelEstimatorNative.inputs narrow memory' inputsMap examples = some inputs ∧
    RowsPadded narrow inputsMap examples inputs

/-- They agree iff a feature whose type has no name is never all that is wrong. -/
theorem builders_agree_iff (memory memory' : Memory Flt) (inputsMap : InputsMap)
    (examples : List (Int64 × FeatureMap Dbl)) :
    BuildersAgree narrow memory memory' inputsMap examples ↔
      (Admissible inputsMap examples → KnownTypes inputsMap examples) := by
  constructor
  · intro hagree hadmissible
    have hbuilt := (TFModelEstimatorMultiFea.isSome_inputs_iff narrow memory).mpr hadmissible
    rcases hagree with ⟨hnone, -⟩ | ⟨inputs, -, hnative, -⟩
    · rw [hnone] at hbuilt
      cases hbuilt
    · exact ((TFModelEstimatorNative.isSome_inputs_iff narrow memory').mp (by rw [hnative]; rfl)).2
  · intro hknown
    by_cases hadmissible : Admissible inputsMap examples
    · have hboth := (TFModelEstimatorNative.isSome_inputs_iff narrow memory').mpr
        ⟨hadmissible, hknown hadmissible⟩
      obtain ⟨inputs, hnative⟩ := Option.isSome_iff_exists.mp hboth
      refine .inr ⟨inputs, ?_, hnative, TFModelEstimatorNative.rowsPadded narrow hnative⟩
      rw [inputs_eq_of_knownTypes narrow memory memory' (hknown hadmissible), hnative]
    · refine .inl ⟨?_, ?_⟩
      · rw [← Option.not_isSome_iff_eq_none, TFModelEstimatorMultiFea.isSome_inputs_iff]
        exact hadmissible
      · rw [← Option.not_isSome_iff_eq_none, TFModelEstimatorNative.isSome_inputs_iff]
        exact fun h => hadmissible h.1

/-- One input of two numbers. -/
def ageInput : InputsMap := [("age", ⟨"age:0", .int64, [1, 2]⟩)]

/-- One item, whose feature has a type without a name. -/
def unnamedType : List (Int64 × FeatureMap ℤ) :=
  [(1, FeatureMaster.featureMap [{ featureName := "age", featureType := .other 7 }])]

def zeroMemory : Memory ℤ := ⟨fun _ _ _ => 0, fun _ _ _ => 0, fun _ _ _ => 0⟩

/-- The older estimator runs the session on the row as it was allocated, the newer one does
    not run it. -/
theorem unnamed_type_is_built_by_one : ¬ BuildersAgree id zeroMemory zeroMemory ageInput unnamedType := by
  have hmulti : (TFModelEstimatorMultiFea.inputs id zeroMemory ageInput unnamedType).isSome := by decide
  have hnative : TFModelEstimatorNative.inputs id zeroMemory ageInput unnamedType = none := by decide
  rintro (⟨hnone, -⟩ | ⟨inputs, -, hsome, -⟩)
  · rw [hnone] at hmulti
    cases hmulti
  · cases hnative.symm.trans hsome

end PredictorService.Server
