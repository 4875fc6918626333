/-
  PredictorService.Server.BatchVector — the vectors of several items at once
  (`calculateVector` and `calculateBatchVector` in
  predictor/server/model_manager/framework/tf/tf_model_estimator_multi_fea.cc).

  The batch makes one tensor for each input, with a row for each item, where a single
  request makes it with the one row. A session that works row by row then gives each item
  of the batch what it gives the item alone, as long as the rows are the same. A row that
  nothing was written to is what memory held, and that need not be the same twice. So the
  two agree, whatever the session and the memory, exactly where every row is written, or
  no vectors are asked for (`batch_equals_single_iff`).
-/

import PredictorService.Server.TfEstimators
import PredictorService.Server.TfModel

namespace PredictorService.Server

open Std (ExtTreeMap)
open PredictorService.FeatureMaster (Feature Features FeatureMap featureMap)
open PredictorService.Lib

variable {Flt Dbl : Type}

structure TFModelEstimatorMultiFea (Flt Dbl : Type) where
  inputsMap : InputsMap
  outputTagsMap : ExtTreeMap String String
  modelTimestamp : String := ""
  /-- `Run` of the session; `none` when the status is not ok. -/
  sessionRun : Inputs Flt → List String → Option (List (Tensor Flt))
  /-- A double as a float, and a float as a double. -/
  narrow : Dbl → Flt
  toDouble : Flt → Dbl

namespace TFModelEstimatorMultiFea

variable [OfNat Dbl 0] (model : TFModelEstimatorMultiFea Flt Dbl)

/-- Its part of a `TFModel`; a call allocates its tensors in `memory`. -/
def toTFModel (memory : Memory Flt) : TFModel (FeatureMap Dbl) Flt Dbl where
  tfCalculateOutputs examples outputTags := do
    model.sessionRun (← inputs model.narrow memory model.inputsMap examples) outputTags
  outputTagsMap := model.outputTagsMap
  modelTimestamp := model.modelTimestamp
  toDouble := model.toDouble

def calculateVector (memory : Memory Flt) (response : CalculateVectorResponse (List Dbl))
    (request : CalculateVectorRequest (Features Dbl)) : Option (Bool × CalculateVectorResponse (List Dbl)) :=
  let response := { response with reqId := request.reqId, modelTimestamp := model.modelTimestamp }
  let examples := [(1, featureMap request.features)]
  let tfModel := model.toTFModel memory
  tfModel.tfCalculateVector tfModel.constructVectorResponse response examples request.outputNames

/-- The examples of a batch, in the order of the items. -/
def batchExamples (featuresMap : ExtTreeMap Int64 (Features Dbl)) : List (Int64 × FeatureMap Dbl) :=
  featuresMap.toList.map fun itemFeatures => (itemFeatures.1, featureMap itemFeatures.2)

def calculateBatchVector (memory : Memory Flt) (response : CalculateBatchVectorResponse (List Dbl))
    (request : CalculateBatchVectorRequest (Features Dbl)) :
    Option (Bool × CalculateBatchVectorResponse (List Dbl)) :=
  let response := { response with reqId := request.reqId, modelTimestamp := model.modelTimestamp }
  let examples := batchExamples request.featuresMap
  let tfModel := model.toTFModel memory
  tfModel.tfCalculateVector tfModel.constructBatchVectorResponse response examples request.outputNames

end TFModelEstimatorMultiFea

/-! ## Sessions that work row by row -/

/-- The rows of the inputs at one place, with the names of the tensors. -/
abbrev InputRows (Flt : Type) := List (String × List (Cell Flt))

/-- What such a session makes of the input rows of one place: the output row of each tag. -/
structure RowSession (Flt : Type) where
  width : String → Nat
  row : InputRows Flt → String → List Flt
  length_row : ∀ rows tag, (row rows tag).length = width tag

def rowsAt (inputs : Inputs Flt) (i : Nat) : InputRows Flt :=
  inputs.map fun input => (input.1, input.2.rows[i]?.getD [])

/-- The rows that the inputs have. -/
def rowCount (inputs : Inputs Flt) : Nat := (inputs.head?.map fun input => input.2.rows.length).getD 0

/-- The output of a tag. -/
def RowSession.output (session : RowSession Flt) (inputs : Inputs Flt) (tag : String) : Tensor Flt :=
  { dims := [rowCount inputs, session.width tag]
    data := (List.range (rowCount inputs)).flatMap fun i => session.row (rowsAt inputs i) tag }

def RowSession.run (session : RowSession Flt) (inputs : Inputs Flt) (outputTags : List String) :
    Option (List (Tensor Flt)) :=
  some (outputTags.map (session.output inputs))

theorem RowSession.row?_output (session : RowSession Flt) (toDouble : Flt → Dbl) (inputs : Inputs Flt) (tag : String)
    {i : Nat} (h : i < rowCount inputs) :
    (session.output inputs tag).row? toDouble i = some ((session.row (rowsAt inputs i) tag).map toDouble) := by
  rw [Tensor.row?, output, mapM_eq_some_iff, List.forall₂_iff_get]
  refine ⟨by rw [List.length_range, List.length_map, session.length_row], fun j hj hj' => ?_⟩
  rw [List.length_range] at hj
  rw [List.length_map] at hj'
  simp only [List.get_eq_getElem, List.getElem_range, List.getElem_map]
  rw [getElem?_flatMap_uniform (fun i => session.length_row (rowsAt inputs i) tag) _ i hj]
  simp [h, hj']

/-- The vectors that the requested names get for some input rows. -/
def RowSession.vectorMap (session : RowSession Flt) {X : Type} (model : TFModel X Flt Dbl) (outputNames : List String)
    (rows : InputRows Flt) : VectorMapType Dbl :=
  emplaceAll ∅ (outputNames.zip ((model.outputTags outputNames).map fun tag =>
    (session.row rows tag).map model.toDouble))

theorem RowSession.vectorMap_nil (session : RowSession Flt) {X : Type} (model : TFModel X Flt Dbl)
    (rows : InputRows Flt) : session.vectorMap model [] rows = ∅ :=
  rfl

/-- The vector of a first name that has a tag. -/
theorem RowSession.vectorMap_head (session : RowSession Flt) {X : Type} {model : TFModel X Flt Dbl} {name tag : String}
    (htag : model.outputTagsMap[name]? = some tag) (names : List String) (rows : InputRows Flt) :
    (session.vectorMap model (name :: names) rows)[name]? = some ((session.row rows tag).map model.toDouble) := by
  rw [vectorMap, TFModel.outputTags, List.filterMap_cons, htag, getElem?_emplaceAll]
  simp

section
variable {X : Type} (model : TFModel X Flt Dbl) (session : RowSession Flt) {names : List String} {inputs : Inputs Flt}

/-- Each place gets the vectors of its input rows. -/
theorem RowSession.constructVectorMap_eq {size i : Nat}
    (h : model.outputTags names = [] ∨ (rowCount inputs = size ∧ i < size)) :
    model.constructVectorMap i size ∅ names ((model.outputTags names).map (session.output inputs)) =
      some (true, session.vectorMap model names (rowsAt inputs i)) := by
  rw [TFModel.constructVectorMap_true_iff]
  refine ⟨_, ?_, ?_, rfl⟩
  · rw [List.forall₂_map_left_iff, List.forall₂_map_right_iff, List.forall₂_same]
    intro tag htag
    rcases h with hnil | ⟨rfl, hi⟩
    · rw [hnil] at htag
      cases htag
    · exact ⟨rfl, session.row?_output model.toDouble inputs tag hi⟩
  · rw [List.length_map]
    exact List.length_filterMap_le _ _

theorem RowSession.rowCount_of_constructVectorMap {size i : Nat} {m : VectorMapType Dbl}
    (h : model.constructVectorMap i size ∅ names ((model.outputTags names).map (session.output inputs)) =
      some (true, m)) :
    model.outputTags names = [] ∨ rowCount inputs = size := by
  obtain ⟨rows, hrows, -, -⟩ := TFModel.constructVectorMap_true_iff.mp h
  rcases List.eq_nil_or_concat (model.outputTags names) with hnil | ⟨tags, tag, hconcat⟩
  · exact .inl hnil
  · have hmem : session.output inputs tag ∈ (model.outputTags names).map (session.output inputs) := by
      rw [hconcat]
      simp
    obtain ⟨v, -, hdims, -⟩ := exists_right_of_mem hrows hmem
    exact .inr (Option.some_inj.mp hdims)

end

/-! ## The rows of the batch and of an item -/

/-- What is right in a batch is right in an item alone. -/
theorem Admissible.alone {inputsMap : InputsMap} {examples : List (Int64 × FeatureMap Dbl)}
    (h : Admissible inputsMap examples) {item : Int64} {features : FeatureMap Dbl}
    (hitem : (item, features) ∈ examples) : Admissible inputsMap [(1, features)] := by
  intro input hinput
  refine ⟨(h input hinput).1, fun item' hitem' => ?_⟩
  rw [List.mem_singleton.mp hitem']
  exact (h input hinput).2 (item, features) hitem

namespace TFModelEstimatorMultiFea

theorem nodup_batchItems (featuresMap : ExtTreeMap Int64 (Features Dbl)) :
    ((batchExamples featuresMap).map (·.1)).Nodup := by
  rw [batchExamples, List.map_map, List.Nodup, List.pairwise_map]
  exact ExtTreeMap.distinct_keys_toList.imp fun hne heq => hne (by simpa using heq)

theorem mem_batchItems {featuresMap : ExtTreeMap Int64 (Features Dbl)} {item : Int64} :
    item ∈ (batchExamples featuresMap).map (·.1) ↔ item ∈ featuresMap := by
  rw [batchExamples, List.map_map, ExtTreeMap.mem_iff_isSome_getElem?]
  constructor
  · intro h
    obtain ⟨p, hp, rfl⟩ := List.mem_map.mp h
    rw [Function.comp_apply, ExtTreeMap.mem_toList_iff_getElem?_eq_some.mp hp]
    rfl
  · intro h
    obtain ⟨features, hf⟩ := Option.isSome_iff_exists.mp h
    exact List.mem_map.mpr ⟨(item, features), ExtTreeMap.mem_toList_iff_getElem?_eq_some.mpr hf, rfl⟩

/-- The row of an item, with what made it. -/
theorem exists_row {fill : (Int64 × FeatureMap Dbl) × Nat → Option (List (Cell Flt))}
    {examples : List (Int64 × FeatureMap Dbl)} {rows : List (List (Cell Flt))}
    (h : List.Forall₂ (fun p row => fill p = some row) examples.zipIdx rows) {i : Nat} {item : Int64 × FeatureMap Dbl}
    (hi : examples[i]? = some item) : ∃ row, rows[i]? = some row ∧ fill (item, i) = some row := by
  refine exists_getElem?_of_forall₂ h ?_
  rw [List.getElem?_zipIdx, hi]
  simp

variable [OfNat Dbl 0]

/-- No row is left as it was allocated, unless it is empty or of strings. -/
def RowsWritten (inputsMap : InputsMap) (examples : List (Int64 × FeatureMap Dbl)) : Prop :=
  ∀ input ∈ inputsMap, ∀ item ∈ examples, ∀ feature, item.2.lookup input.1 = some feature →
    dataType feature.featureType = none → input.2.dtype = .string ∨ input.2.dims[1]? = some 0

theorem rowCount_inputs {narrow : Dbl → Flt} {memory : Memory Flt} {inputsMap : InputsMap}
    {examples : List (Int64 × FeatureMap Dbl)} {tensors : Inputs Flt}
    (h : inputs narrow memory inputsMap examples = some tensors) :
    rowCount tensors = if inputsMap = [] then 0 else examples.length := by
  have hbuilt := buildInputs_eq_some_iff.mp h
  cases hbuilt with
  | nil => rfl
  | cons htensor _ =>
    have hlen := htensor.2.2.2.length_eq
    rw [List.length_zipIdx] at hlen
    rw [if_neg (List.cons_ne_nil _ _), hlen]
    rfl

/-- An item alone has its one row, where the batch has one for each item. -/
theorem rowCount_alone {narrow : Dbl → Flt} {memory memory' : Memory Flt} {inputsMap : InputsMap}
    {examples : List (Int64 × FeatureMap Dbl)} {item : Int64 × FeatureMap Dbl} {tensors tensors' : Inputs Flt}
    (h : inputs narrow memory inputsMap examples = some tensors)
    (h' : inputs narrow memory' inputsMap [item] = some tensors') (hne : examples ≠ [])
    (hrows : rowCount tensors = examples.length) : rowCount tensors' = 1 := by
  have hpos := List.length_pos_iff.mpr hne
  rw [rowCount_inputs h] at hrows
  rw [rowCount_inputs h']
  split_ifs at hrows ⊢
  · omega
  · rfl

/-- The row of an item is the same in the batch and alone, where it is written. -/
theorem rowsAt_eq {narrow : Dbl → Flt} {memory memory' : Memory Flt} {inputsMap : InputsMap}
    {examples : List (Int64 × FeatureMap Dbl)} {item item' : Int64 × FeatureMap Dbl} {i : Nat}
    {tensors tensors' : Inputs Flt} (h : inputs narrow memory inputsMap examples = some tensors)
    (h' : inputs narrow memory' inputsMap [item'] = some tensors') (hi : examples[i]? = some item)
    (hitem : item'.2 = item.2) (hwritten : RowsWritten inputsMap examples) : rowsAt tensors i = rowsAt tensors' 0 := by
  refine map_eq_map_of_forall₂ (buildInputs_eq_some_iff.mp h) (buildInputs_eq_some_iff.mp h')
    fun input hinput tensor tensor' ht ht' => ?_
  obtain ⟨hname, -, hlen, hrows⟩ := ht
  obtain ⟨hname', -, hlen', hrows'⟩ := ht'
  have hsame : tensor'.2.len = tensor.2.len := Option.some_inj.mp (hlen'.symm.trans hlen)
  obtain ⟨row, hrow, hfill⟩ := exists_row hrows hi
  obtain ⟨row', hrow', hfill'⟩ := exists_row (i := 0) hrows' rfl
  rw [hsame, hitem] at hfill'
  rw [hname, hname', hrow, hrow', Option.getD_some, Option.getD_some]
  refine Prod.ext rfl (Option.some_inj.mp ?_)
  rw [← hfill, ← hfill', fillRow_eq narrow (memory.length_newRow ..), fillRow_eq narrow (memory'.length_newRow ..)]
  cases hf : item.2.lookup input.1 with
  | none => rfl
  | some feature =>
    rw [Option.bind_some, Option.bind_some]
    split_ifs with hunnamed
    · -- nothing is written, and there is nothing that memory could show
      rcases hwritten input hinput item (List.mem_of_getElem? hi) feature hf hunnamed with hstring | hzero
      · rw [Memory.newRow, Memory.newRow, hstring]
      · rw [Option.some_inj.mp (hlen.symm.trans hzero)]
        rfl
    · rfl
    · rfl

/-! ## The calls -/

/-- The model over a session that works row by row. -/
def withSession (model : TFModelEstimatorMultiFea Flt Dbl) (session : RowSession Flt) :
    TFModelEstimatorMultiFea Flt Dbl :=
  { model with sessionRun := session.run }

section
variable {model : TFModelEstimatorMultiFea Flt Dbl} {session : RowSession Flt} {memory : Memory Flt}

@[simp] theorem outputTagsMap_toTFModel : (model.toTFModel memory).outputTagsMap = model.outputTagsMap := rfl

@[simp] theorem toDouble_toTFModel : (model.toTFModel memory).toDouble = model.toDouble := rfl

/-- The tags do not depend on memory. -/
theorem outputTags_toTFModel (memory memory' : Memory Flt) (names : List String) :
    (model.toTFModel memory).outputTags names = (model.toTFModel memory').outputTags names := by
  simp only [TFModel.outputTags, outputTagsMap_toTFModel]

theorem vectorMap_toTFModel (memory memory' : Memory Flt) (names : List String) (rows : InputRows Flt) :
    session.vectorMap (model.toTFModel memory) names rows = session.vectorMap (model.toTFModel memory') names rows := by
  rw [RowSession.vectorMap, RowSession.vectorMap, outputTags_toTFModel memory memory', toDouble_toTFModel,
    toDouble_toTFModel]

theorem tfCalculateOutputs_withSession {examples : List (Int64 × FeatureMap Dbl)} {tensors : Inputs Flt}
    (h : inputs model.narrow memory model.inputsMap examples = some tensors) (outputTags : List String) :
    ((model.withSession session).toTFModel memory).tfCalculateOutputs examples outputTags =
      some (outputTags.map (session.output tensors)) := by
  show (inputs model.narrow memory model.inputsMap examples).bind _ = _
  rw [h]
  rfl

/-- An item by itself. -/
theorem calculateVector_withSession (session : RowSession Flt)
    {request : CalculateVectorRequest (Features Dbl)} {tensors : Inputs Flt}
    (h : inputs model.narrow memory model.inputsMap [(1, featureMap request.features)] = some tensors)
    (hcount : (model.toTFModel memory).outputTags request.outputNames = [] ∨ rowCount tensors = 1)
    (response : CalculateVectorResponse (List Dbl)) :
    ∃ response', (model.withSession session).calculateVector memory response request = some (true, response') ∧
      response'.vectorMap = session.vectorMap (model.toTFModel memory) request.outputNames (rowsAt tensors 0) := by
  have hmap := RowSession.constructVectorMap_eq ((model.withSession session).toTFModel memory) session
    (hcount.imp_right fun hone => ⟨hone, Nat.one_pos⟩)
  have hcall : (model.withSession session).calculateVector memory response request =
      some (true, { response with
        reqId := request.reqId
        modelTimestamp := model.modelTimestamp
        vectorMap := session.vectorMap (model.toTFModel memory) request.outputNames (rowsAt tensors 0) }) := by
    rw [calculateVector, TFModel.tfCalculateVector_of_outputs (tfCalculateOutputs_withSession h _)]
    exact TFModel.constructVectorResponse_true_iff.mpr ⟨_, hmap, rfl⟩
  exact ⟨_, hcall, rfl⟩

/-- A batch whose tensors could be built succeeds. -/
theorem calculateBatchVector_of_inputs (session : RowSession Flt)
    {request : CalculateBatchVectorRequest (Features Dbl)} {tensors : Inputs Flt}
    (h : inputs model.narrow memory model.inputsMap (batchExamples request.featuresMap) = some tensors)
    (hcount : rowCount tensors = (batchExamples request.featuresMap).length)
    (response : CalculateBatchVectorResponse (List Dbl)) :
    ∃ response', (model.withSession session).calculateBatchVector memory response request = some (true, response') := by
  have hmaps : ∀ i, 0 ≤ i → i < 0 + ((batchExamples request.featuresMap).map (·.1)).length →
      ((model.withSession session).toTFModel memory).constructVectorMap i
        ((batchExamples request.featuresMap).map (·.1)).length ∅ request.outputNames
        (((model.toTFModel memory).outputTags request.outputNames).map (session.output tensors)) =
      some (true, session.vectorMap (model.toTFModel memory) request.outputNames (rowsAt tensors i)) := by
    intro i _ hi
    exact RowSession.constructVectorMap_eq ((model.withSession session).toTFModel memory) session
      (.inr ⟨by rw [hcount, List.length_map], by omega⟩)
  rw [calculateBatchVector, TFModel.tfCalculateVector_of_outputs (tfCalculateOutputs_withSession h _)]
  exact ⟨_, TFModel.constructBatchVectorResponse_true_iff.mpr
    ⟨_, TFModel.constructBatchVectorMap_of_maps _ hmaps, rfl⟩⟩

/-- What a batch that succeeds was made of. -/
theorem calculateBatchVector_withSession {request : CalculateBatchVectorRequest (Features Dbl)}
    {response response' : CalculateBatchVectorResponse (List Dbl)}
    (h : (model.withSession session).calculateBatchVector memory response request = some (true, response')) :
    ∃ tensors, inputs model.narrow memory model.inputsMap (batchExamples request.featuresMap) = some tensors ∧
      ((model.withSession session).toTFModel memory).constructBatchVectorMap
        ((batchExamples request.featuresMap).map (·.1)).length request.outputNames
        (((model.toTFModel memory).outputTags request.outputNames).map (session.output tensors)) 0 ∅
        ((batchExamples request.featuresMap).map (·.1)) = some (true, response'.vectorMap) := by
  cases hinputs : inputs model.narrow memory model.inputsMap (batchExamples request.featuresMap) with
  | none =>
    have hnone : ∀ tags, ((model.withSession session).toTFModel memory).tfCalculateOutputs
        (batchExamples request.featuresMap) tags = none := by
      intro tags
      show (inputs model.narrow memory model.inputsMap _).bind _ = _
      rw [hinputs]
      rfl
    simp only [calculateBatchVector, TFModel.tfCalculateVector, hnone] at h
    cases h
  | some tensors =>
    rw [calculateBatchVector, TFModel.tfCalculateVector_of_outputs (tfCalculateOutputs_withSession hinputs _)] at h
    obtain ⟨batch, hbatch, rfl⟩ := TFModel.constructBatchVectorResponse_true_iff.mp h
    exact ⟨tensors, rfl, hbatch⟩

end

/-- What a batch that succeeds gives: its items, and each the vectors of its row. -/
theorem calculateBatchVector_entries {model : TFModelEstimatorMultiFea Flt Dbl} {session : RowSession Flt}
    {memory : Memory Flt} {request : CalculateBatchVectorRequest (Features Dbl)}
    {response response' : CalculateBatchVectorResponse (List Dbl)}
    (h : (model.withSession session).calculateBatchVector memory response request = some (true, response')) :
    ∃ tensors, inputs model.narrow memory model.inputsMap (batchExamples request.featuresMap) = some tensors ∧
      (∀ item, item ∈ response'.vectorMap ↔ item ∈ request.featuresMap) ∧
      ∀ i e, (batchExamples request.featuresMap)[i]? = some e →
        ((model.toTFModel memory).outputTags request.outputNames = [] ∨
          rowCount tensors = (batchExamples request.featuresMap).length) ∧
        response'.vectorMap[e.1]? =
          some (session.vectorMap (model.toTFModel memory) request.outputNames (rowsAt tensors i)) := by
  obtain ⟨tensors, htensors, hbatch⟩ := calculateBatchVector_withSession h
  obtain ⟨hitems, hentries⟩ := TFModel.constructBatchVectorMap_entries hbatch
  refine ⟨tensors, htensors, fun item => (hitems item).trans mem_batchItems, fun i e he => ?_⟩
  have hi : ((batchExamples request.featuresMap).map (·.1))[i]? = some e.1 := by
    rw [List.getElem?_map, he]
    rfl
  obtain ⟨hlt, -⟩ := List.getElem?_eq_some_iff.mp hi
  have hmem : e.1 ∈ response'.vectorMap := (hitems e.1).mpr (List.mem_of_getElem? hi)
  obtain ⟨m, hm⟩ := Option.isSome_iff_exists.mp (ExtTreeMap.mem_iff_isSome_getElem?.mp hmem)
  obtain ⟨j, hj, hmap⟩ := hentries e.1 m hm
  -- an item stands at one place
  obtain rfl : i = j := 
    (List.getElem?_inj hlt (nodup_batchItems request.featuresMap)).mp (hi.trans hj.symm)
  have hcount := RowSession.rowCount_of_constructVectorMap _ session hmap
  have hrow := hmap.symm.trans
    (RowSession.constructVectorMap_eq _ session (hcount.imp_right fun hrows => ⟨hrows, hlt⟩))
  rw [List.length_map] at hcount
  refine ⟨hcount, ?_⟩
  rw [hm, (Prod.mk.inj (Option.some_inj.mp hrow)).2]
  rfl

/-! ## Batch and single -/

/-- Whatever the session, as long as it works row by row, and whatever memory holds: a batch
    that succeeds has the items of the request and gives each the vectors that it gets
    alone. -/
def BatchEqualsSingle (model : TFModelEstimatorMultiFea Flt Dbl) (request : CalculateBatchVectorRequest (Features Dbl)) :
    Prop :=
  ∀ (session : RowSession Flt) (memory : Memory Flt) response response',
    (model.withSession session).calculateBatchVector memory response request = some (true, response') →
    (∀ item, item ∈ response'.vectorMap ↔ item ∈ request.featuresMap) ∧
    ∀ (item : Int64) features, request.featuresMap[item]? = some features →
      ∀ (memory' : Memory Flt) single (singleRequest : CalculateVectorRequest (Features Dbl)),
        singleRequest.features = features → singleRequest.outputNames = request.outputNames →
        ∃ single', (model.withSession session).calculateVector memory' single singleRequest = some (true, single') ∧
          response'.vectorMap[item]? = some single'.vectorMap

/-- Where every row is written, or nothing is asked for. -/
theorem batchEqualsSingle_of_written {model : TFModelEstimatorMultiFea Flt Dbl}
    {request : CalculateBatchVectorRequest (Features Dbl)}
    (h : request.outputNames = [] ∨ (Admissible model.inputsMap (batchExamples request.featuresMap) →
      RowsWritten model.inputsMap (batchExamples request.featuresMap))) : model.BatchEqualsSingle request := by
  intro session memory response response' hcall
  obtain ⟨tensors, htensors, hitems, hentries⟩ := calculateBatchVector_entries hcall
  refine ⟨hitems, fun item features hfeatures memory' single singleRequest hsf hsn => ?_⟩
  have hadmissible : Admissible model.inputsMap (batchExamples request.featuresMap) :=
    (isSome_inputs_iff model.narrow memory).mp (by rw [htensors]; rfl)
  have hmem : (item, featureMap singleRequest.features) ∈ batchExamples request.featuresMap := by
    rw [hsf]
    exact List.mem_map.mpr ⟨(item, features), ExtTreeMap.mem_toList_iff_getElem?_eq_some.mpr hfeatures, rfl⟩
  obtain ⟨i, hi⟩ := List.getElem?_of_mem hmem
  obtain ⟨hcount, hentry⟩ := hentries i _ hi
  -- what the batch could build, the item alone can
  obtain ⟨tensors', htensors'⟩ :=
    Option.isSome_iff_exists.mp ((isSome_inputs_iff model.narrow memory').mpr (hadmissible.alone hmem))
  have hcount' : (model.toTFModel memory').outputTags singleRequest.outputNames = [] ∨ rowCount tensors' = 1 := by
    rw [hsn, outputTags_toTFModel memory' memory]
    exact hcount.imp_right (rowCount_alone htensors htensors' (List.ne_nil_of_mem hmem))
  obtain ⟨single', hsingle, hvectors⟩ := calculateVector_withSession session htensors' hcount' single
  refine ⟨single', hsingle, ?_⟩
  rw [hentry, hvectors, hsn]
  rcases h with hnil | hwritten
  · rw [hnil, RowSession.vectorMap_nil, RowSession.vectorMap_nil]
  · rw [rowsAt_eq htensors htensors' hi rfl (hwritten hadmissible), vectorMap_toTFModel]

/-! ## A row that is not written -/

/-- Memory with the same everywhere. -/
def constMemory (n : Int64) (f : Flt) (bits : Nat) : Memory Flt where
  int64At _ _ _ := n
  floatAt _ _ _ := f
  otherAt _ _ _ := bits

/-- Two memories can show in any row that is not empty or of strings. -/
theorem newRow_constMemory_ne {f g : Flt} (hne : f ≠ g) {dtype : DataType} (hstring : dtype ≠ .string) {len : Nat}
    (hlen : 0 < len) (feaName : String) (i j : Nat) :
    (constMemory 0 f 0).newRow feaName dtype len i ≠ (constMemory 1 g 1).newRow feaName dtype len j := by
  intro heq
  have hfirst := congrArg (·[0]?) heq
  simp only [Memory.newRow, List.getElem?_map, List.getElem?_range hlen, Option.map_some, Option.some_inj] at hfirst
  cases dtype with
  | string => exact hstring rfl
  | int64 =>
    have hbad : (0 : Int64) = 1 := Cell.int64.inj hfirst
    revert hbad
    decide
  | float => exact hne (Cell.float.inj hfirst)
  | other _ => exact Nat.zero_ne_one (Cell.other.inj hfirst)

open Classical in
/-- The session that tells some input rows from all others. -/
noncomputable def telling (rows : InputRows Flt) (f g : Flt) : RowSession Flt where
  width _ := 1
  row rows' _ := [if rows' = rows then f else g]
  length_row _ _ := rfl

open Classical in
theorem row_telling (rows rows' : InputRows Flt) (f g : Flt) (tag : String) :
    (telling rows f g).row rows' tag = [if rows' = rows then f else g] :=
  rfl

/-- What memory held is the row of an item whose feature is of a type without a name. -/
theorem rowsAt_of_unnamed {narrow : Dbl → Flt} {memory : Memory Flt} {inputsMap : InputsMap}
    {examples : List (Int64 × FeatureMap Dbl)} {tensors : Inputs Flt}
    (h : inputs narrow memory inputsMap examples = some tensors) {k i len : Nat}
    {input : String × TensorInfo} {item : Int64 × FeatureMap Dbl} {feature : Feature Dbl}
    (hk : inputsMap[k]? = some input) (hi : examples[i]? = some item) (hf : item.2.lookup input.1 = some feature)
    (hunnamed : dataType feature.featureType = none) (hlen : input.2.dims[1]? = some len) :
    (rowsAt tensors i)[k]? = some (input.2.name, memory.newRow input.1 input.2.dtype len i) := by
  obtain ⟨tensor, htensor, hname, -, hlen', hrows⟩ := exists_getElem?_of_forall₂ (buildInputs_eq_some_iff.mp h) hk
  obtain rfl : len = tensor.2.len := Option.some_inj.mp (hlen.symm.trans hlen')
  obtain ⟨row, hrow, hfill⟩ := exists_row hrows hi
  rw [fillRow_eq narrow (memory.length_newRow ..), hf, Option.bind_some, if_pos hunnamed, Option.some_inj] at hfill
  rw [rowsAt, List.getElem?_map, htensor, Option.map_some, hrow, Option.getD_some, hname, hfill]

/-- Where the batch gives an item what it gets alone, the item's row is the same in both:
    else a session could tell. -/
theorem rowsAt_eq_of_batchEqualsSingle {model : TFModelEstimatorMultiFea Flt Dbl} {f g : Flt}
    (hfg : model.toDouble f ≠ model.toDouble g) {request : CalculateBatchVectorRequest (Features Dbl)}
    {name tag : String} {names : List String} (hnames : request.outputNames = name :: names)
    (htag : model.outputTagsMap[name]? = some tag) (h : model.BatchEqualsSingle request) (hinputs : model.inputsMap ≠ [])
    {memory memory' : Memory Flt} {i : Nat} {item : Int64} {features : Features Dbl} {tensors tensors' : Inputs Flt}
    (hfeatures : request.featuresMap[item]? = some features)
    (hi : (batchExamples request.featuresMap)[i]? = some (item, featureMap features))
    (htensors : inputs model.narrow memory model.inputsMap (batchExamples request.featuresMap) = some tensors)
    (htensors' : inputs model.narrow memory' model.inputsMap [(1, featureMap features)] = some tensors') :
    rowsAt tensors' 0 = rowsAt tensors i := by
  by_contra hrows
  obtain ⟨single, rfl, hsn⟩ : ∃ single : CalculateVectorRequest (Features Dbl),
      single.features = features ∧ single.outputNames = request.outputNames :=
    ⟨{ features := features, outputNames := request.outputNames }, rfl, rfl⟩
  have hcount : rowCount tensors = (batchExamples request.featuresMap).length := by
    rw [rowCount_inputs htensors, if_neg hinputs]
  have hcount' := rowCount_alone htensors htensors' (List.ne_nil_of_mem (List.mem_of_getElem? hi)) hcount
  obtain ⟨response', hcall⟩ := calculateBatchVector_of_inputs (telling (rowsAt tensors i) f g) htensors hcount {}
  obtain ⟨tensors₁, htensors₁, -, hentries⟩ := calculateBatchVector_entries hcall
  obtain rfl : tensors = tensors₁ := Option.some_inj.mp (htensors.symm.trans htensors₁)
  obtain ⟨-, hitems⟩ := h _ _ _ _ hcall
  obtain ⟨single', hsingle, hequal⟩ := hitems item single.features hfeatures memory' {} single rfl hsn
  obtain ⟨single₁, hsingle₁, hvectors⟩ :=
    calculateVector_withSession (telling (rowsAt tensors i) f g) htensors' (.inr hcount') {}
  obtain rfl : single' = single₁ := (Prod.mk.inj (Option.some_inj.mp (hsingle.symm.trans hsingle₁))).2
  rw [(hentries i _ hi).2, hvectors, hsn, hnames, Option.some_inj] at hequal
  -- the first name has its vector in both
  have hfirst := congrArg (·[name]?) hequal
  rw [RowSession.vectorMap_head _ htag, RowSession.vectorMap_head _ htag, row_telling, row_telling, if_pos rfl,
    if_neg hrows] at hfirst
  exact hfg (List.singleton_inj.mp (Option.some_inj.mp hfirst))

/-- A row that is not written can be two different ones. -/
theorem written_of_batchEqualsSingle {model : TFModelEstimatorMultiFea Flt Dbl}
    (hdistinct : ∃ f g, model.toDouble f ≠ model.toDouble g) {request : CalculateBatchVectorRequest (Features Dbl)}
    {name : String} {names : List String} (hnames : request.outputNames = name :: names)
    (hknown : model.outputTagsMap[name]?.isSome) (h : model.BatchEqualsSingle request)
    (hadmissible : Admissible model.inputsMap (batchExamples request.featuresMap)) :
    RowsWritten model.inputsMap (batchExamples request.featuresMap) := by
  intro input hinput e hitem feature hf hunnamed
  by_contra hshows
  obtain ⟨hstring, hzero⟩ := not_or.mp hshows
  obtain ⟨f, g, hfg⟩ := hdistinct
  obtain ⟨tag, htag⟩ := Option.isSome_iff_exists.mp hknown
  obtain ⟨k, hk⟩ := List.getElem?_of_mem hinput
  obtain ⟨i, hi⟩ := List.getElem?_of_mem hitem
  obtain ⟨len, hlen⟩ : ∃ len, input.2.dims[1]? = some len :=
    ⟨_, List.getElem?_eq_getElem (hadmissible input hinput).1⟩
  have hpos : 0 < len := by
    refine Nat.pos_of_ne_zero fun hnone => hzero ?_
    rw [hlen, hnone]
  obtain ⟨p, hp, rfl⟩ := List.mem_map.mp hitem
  have hfeatures := ExtTreeMap.mem_toList_iff_getElem?_eq_some.mp hp
  -- the batch in one memory, the item in another
  obtain ⟨tensors, htensors⟩ :=
    Option.isSome_iff_exists.mp ((isSome_inputs_iff model.narrow (constMemory 0 f 0)).mpr hadmissible)
  obtain ⟨tensors', htensors'⟩ :=
    Option.isSome_iff_exists.mp ((isSome_inputs_iff model.narrow (constMemory 1 g 1)).mpr (hadmissible.alone hitem))
  have heq := rowsAt_eq_of_batchEqualsSingle hfg hnames htag h (List.ne_nil_of_mem hinput) hfeatures hi htensors
    htensors'
  have hbatchRow := rowsAt_of_unnamed htensors hk hi hf hunnamed hlen
  have haloneRow := rowsAt_of_unnamed (i := 0) htensors' hk rfl hf hunnamed hlen
  rw [heq, hbatchRow, Option.some_inj, Prod.mk.injEq] at haloneRow
  exact newRow_constMemory_ne (fun hsame => hfg (congrArg model.toDouble hsame)) hstring hpos _ _ _ haloneRow.2

/-- For names that are known: the batch gives every item what it gets alone iff nothing is
    asked for, or no row of a tensor that can be built is left as memory had it. -/
theorem batch_equals_single_iff (model : TFModelEstimatorMultiFea Flt Dbl)
    (hdistinct : ∃ f g, model.toDouble f ≠ model.toDouble g) {request : CalculateBatchVectorRequest (Features Dbl)}
    (hnames : ∀ name ∈ request.outputNames, model.outputTagsMap[name]?.isSome) :
    model.BatchEqualsSingle request ↔
      request.outputNames = [] ∨ (Admissible model.inputsMap (batchExamples request.featuresMap) →
        RowsWritten model.inputsMap (batchExamples request.featuresMap)) := by
  constructor
  · intro h
    cases hasked : request.outputNames with
    | nil => exact .inl rfl
    | cons name names =>
      have hknown := hnames name (by rw [hasked]; exact List.mem_cons_self)
      exact .inr (written_of_batchEqualsSingle hdistinct hasked hknown h)
  · exact batchEqualsSingle_of_written

/-! ## A model with one input -/

/-- Its input is two numbers, and it knows the output "a". -/
def ageModel : TFModelEstimatorMultiFea ℤ ℤ where
  inputsMap := ageInput
  outputTagsMap := {("a", "tag")}
  sessionRun _ _ := none
  narrow := id
  toDouble := id

/-- One feature, of this type. -/
def age (featureType : FeatureMaster.FeatureType) : Features ℤ :=
  [{ featureName := "age", featureType, int64Values := [30] }]

/-- The batch of the item 5. -/
def ageBatch (featureType : FeatureMaster.FeatureType) : CalculateBatchVectorRequest (Features ℤ) where
  featuresMap := {((5 : Int64), age featureType)}
  outputNames := ["a"]

/-- The item alone. -/
def ageAlone (featureType : FeatureMaster.FeatureType) : CalculateVectorRequest (Features ℤ) where
  features := age featureType
  outputNames := ["a"]

/-- A feature of numbers has its row written. -/
theorem numbers_are_the_same_alone : ageModel.BatchEqualsSingle (ageBatch .int64List) := by
  refine (batch_equals_single_iff ageModel ⟨0, 1, by decide⟩ (by decide)).mpr (.inr fun _ => ?_)
  unfold RowsWritten
  decide

/-- A session that sums up the numbers of a row. -/
def summing : RowSession ℤ where
  width _ := 1
  row rows _ := [((rows.flatMap (·.2)).map fun cell => match cell with
    | .int64 n => n.toInt
    | _ => 0).sum]
  length_row _ _ := rfl

/-- The row of a feature whose type has no name is what memory held, once this and once that. -/
theorem unnamed_type_is_not_the_same_alone :
    ¬ ∀ request : CalculateBatchVectorRequest (Features ℤ),
      (∀ name ∈ request.outputNames, ageModel.outputTagsMap[name]?.isSome) → ageModel.BatchEqualsSingle request := by
  intro h
  have hbatch : (ageModel.withSession summing).calculateBatchVector (constMemory 0 0 0) {} (ageBatch (.other 7)) =
      some (true, { vectorMap := {((5 : Int64), {("a", [(0 : ℤ)])})} }) := by
    decide
  have hsingle : (ageModel.withSession summing).calculateVector (constMemory 1 0 0) {} (ageAlone (.other 7)) =
      some (true, { vectorMap := {("a", [(2 : ℤ)])} }) := by
    decide
  obtain ⟨-, hitems⟩ := h (ageBatch (.other 7)) (by decide) summing _ _ _ hbatch
  obtain ⟨single', hsingle', hequal⟩ :=
    hitems 5 (age (.other 7)) (by decide) (constMemory 1 0 0) {} (ageAlone (.other 7)) rfl rfl
  obtain rfl := (Prod.mk.inj (Option.some_inj.mp (hsingle.symm.trans hsingle'))).2
  revert hequal
  decide

end TFModelEstimatorMultiFea

end PredictorService.Server
