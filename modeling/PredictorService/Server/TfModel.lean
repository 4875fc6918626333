/-
  PredictorService.Server.TfModel — the vectors of a TensorFlow model
  (predictor/server/model_manager/framework/tf/tf_model.h).

  A request names outputs, and `output_tags_map_` says under which tag the session knows
  each. Names without a tag are left out of the tags; the session answers with a tensor for
  each tag, and the tensors go to the names by position. So every vector carries the name
  that it was computed for exactly when no known name stands behind an unknown one
  (`vectors_carry_their_names_iff`), of one item or, in the batch form, of each.

  The session is outside, below `tfCalculateOutputs`. A read past a tensor's end or past
  the names is `none`. The metrics and logs are left out, and so is `predict`.
-/

import PredictorService.Lib.Emplace
import PredictorService.Lib.Loops
import PredictorService.Lib.Rejoin
import PredictorService.Server.Models

namespace PredictorService.Server

open Std (ExtTreeMap)
open PredictorService.Lib

variable {X Flt Dbl : Type}

abbrev VectorMapType (Dbl : Type) := ExtTreeMap String (List Dbl)

abbrev BatchVectorMapType (Dbl : Type) := ExtTreeMap Int64 (VectorMapType Dbl)

/-- The row `i` of a matrix, `tmap(i, j)` for each `j`. -/
def Tensor.row? (toDouble : Flt → Dbl) (tensor : Tensor Flt) (i : Nat) : Option (List Dbl) :=
  match tensor.dims with
  | [_, vectorLen] => (List.range vectorLen).mapM fun j => (tensor.data[i * vectorLen + j]?).map toDouble
  | _ => none

structure TFModel (X Flt Dbl : Type) where
  /-- `none` when it returns false. -/
  tfCalculateOutputs : List (Int64 × X) → List String → Option (List (Tensor Flt))
  /-- From an output's name to its tag. -/
  outputTagsMap : ExtTreeMap String String
  modelTimestamp : String := ""
  /-- A float as a double. -/
  toDouble : Flt → Dbl

namespace TFModel

variable (model : TFModel X Flt Dbl)

/-- The loop over the outputs; a name that is there keeps its vector. -/
def constructVectorMap (itemIdx expectOutputSize : Nat) (vectorMap : VectorMapType Dbl) :
    List String → List (Tensor Flt) → Option (Bool × VectorMapType Dbl)
  | _, [] => some (true, vectorMap)
  | outputNames, output :: outputs =>
    match output.dims with
    | [outputSize, _] =>
      if expectOutputSize ≠ outputSize then some (false, vectorMap)
      else do
        let v ← output.row? model.toDouble itemIdx
        match outputNames with
        | [] => none
        | outputName :: outputNames =>
          constructVectorMap itemIdx expectOutputSize (vectorMap.insertIfNew outputName v) outputNames outputs
    | _ => some (false, vectorMap)

/-- `constructVectorResponseFromTFOutputs` for one item. -/
def constructVectorResponse (response : CalculateVectorResponse (List Dbl)) (_ : List Int64) (outputNames : List String)
    (outputs : List (Tensor Flt)) : Option (Bool × CalculateVectorResponse (List Dbl)) := do
  let (ok, vectorMap) ← model.constructVectorMap 0 1 ∅ outputNames outputs
  if !ok then
    return (false, response)
  return (true, { response with vectorMap := vectorMap })

/-- The loop over the items, from the `i`-th on. -/
def constructBatchVectorMap (itemNum : Nat) (outputNames : List String) (outputs : List (Tensor Flt)) (i : Nat)
    (batchVectorMap : BatchVectorMapType Dbl) : List Int64 → Option (Bool × BatchVectorMapType Dbl)
  | [] => some (true, batchVectorMap)
  | item :: itemVec => do
    let (ok, vectorMap) ← model.constructVectorMap i itemNum ∅ outputNames outputs
    if !ok then
      return (false, batchVectorMap)
    constructBatchVectorMap itemNum outputNames outputs (i + 1) (batchVectorMap.insertIfNew item vectorMap) itemVec

/-- `constructVectorResponseFromTFOutputs` for a batch. -/
def constructBatchVectorResponse (response : CalculateBatchVectorResponse (List Dbl)) (itemVec : List Int64)
    (outputNames : List String) (outputs : List (Tensor Flt)) :
    Option (Bool × CalculateBatchVectorResponse (List Dbl)) := do
  let (ok, batchVectorMap) ← model.constructBatchVectorMap itemVec.length outputNames outputs 0 ∅ itemVec
  if !ok then
    return (false, response)
  return (true, { response with vectorMap := batchVectorMap })

/-- The tags of the names that have one. -/
def outputTags (outputNames : List String) : List String := outputNames.filterMap (model.outputTagsMap[·]?)

/-- The type of the response decides how it is constructed. -/
def tfCalculateVector {R : Type}
    (construct : R → List Int64 → List String → List (Tensor Flt) → Option (Bool × R)) (response : R)
    (examples : List (Int64 × X)) (outputNames : List String) : Option (Bool × R) :=
  match model.tfCalculateOutputs examples (model.outputTags outputNames) with
  | none => some (false, response)
  | some outputs =>
    if (model.outputTags outputNames).length ≠ outputs.length then some (false, response)
    else construct response (examples.map (·.1)) outputNames outputs

/-! ## The maps that are made -/

variable {model}

/-- Each output is a matrix with the expected rows, and its row goes to the name at its
    place. -/
theorem constructVectorMap_true_iff {i size : Nat} {m m' : VectorMapType Dbl} {names : List String}
    {outputs : List (Tensor Flt)} :
    model.constructVectorMap i size m names outputs = some (true, m') ↔
      ∃ rows, List.Forall₂ (fun output v => output.dims.head? = some size ∧ output.row? model.toDouble i = some v)
          outputs rows ∧
        outputs.length ≤ names.length ∧ m' = emplaceAll m (names.zip rows) := by
  induction outputs generalizing m names with
  | nil =>
    simp [constructVectorMap, emplaceAll, eq_comm]
  | cons output outputs ih =>
    obtain ⟨dims, data⟩ := output
    simp only [List.forall₂_cons_left_iff]
    rcases dims with _ | ⟨n, _ | ⟨len, _ | _⟩⟩
    · simp [constructVectorMap]
    · simp [constructVectorMap, Tensor.row?]
    · simp only [constructVectorMap]
      by_cases hsize : size = n
      · subst hsize
        cases hrow : Tensor.row? model.toDouble ⟨[size, len], data⟩ i with
        | none => simp
        | some v =>
          cases names with
          | nil => simp
          | cons name names =>
            simp only [ne_eq, not_true_eq_false, if_false, Option.bind_eq_bind, Option.bind_some, ih]
            constructor
            · intro h
              obtain ⟨rows, hrows, hlen, rfl⟩ := h
              exact ⟨v :: rows, ⟨v, rows, ⟨rfl, rfl⟩, hrows, rfl⟩, Nat.succ_le_succ hlen, rfl⟩
            · intro h
              obtain ⟨_, ⟨v', rows, ⟨-, hv⟩, hrows, rfl⟩, hlen, rfl⟩ := h
              cases hv
              exact ⟨rows, hrows, Nat.le_of_succ_le_succ hlen, rfl⟩
      · simp [hsize, Ne.symm hsize]
    · simp [constructVectorMap, Tensor.row?]

/-- The map of the row `i` of some outputs, one for each tag. -/
theorem constructVectorMap_tags {i size : Nat} {m' : VectorMapType Dbl} {names : List String}
    {tensorOf : String → Tensor Flt}
    (h : model.constructVectorMap i size ∅ names ((model.outputTags names).map tensorOf) = some (true, m')) :
    ∃ rows,
      List.Forall₂ (fun tag v => (tensorOf tag).row? model.toDouble i = some v) (model.outputTags names) rows ∧
      m' = emplaceAll ∅ (names.zip rows) := by
  obtain ⟨rows, hrows, -, rfl⟩ := constructVectorMap_true_iff.mp h
  exact ⟨rows, (List.forall₂_map_left_iff.mp hrows).imp fun _ _ hrow => hrow.2, rfl⟩

/-- Every vector under a name is the row `i` of the tensor of the name's tag, and every
    requested name that has a tag has its vector. -/
structure RightlyNamed (model : TFModel X Flt Dbl) (tensorOf : String → Tensor Flt) (outputNames : List String)
    (i : Nat) (vectorMap : VectorMapType Dbl) : Prop where
  entries : ∀ (name : String) v, vectorMap[name]? = some v →
    ∃ tag, model.outputTagsMap[name]? = some tag ∧ (tensorOf tag).row? model.toDouble i = some v
  known : ∀ name ∈ outputNames, model.outputTagsMap[name]?.isSome → name ∈ vectorMap

/-- No name with a tag stands behind one without. -/
abbrev KnownFirst (model : TFModel X Flt Dbl) (outputNames : List String) : Prop :=
  AskedFirst (model.outputTagsMap[·]?) outputNames

theorem RightlyNamed.isSome_tag {i : Nat} {names : List String} {tensorOf : String → Tensor Flt} {m : VectorMapType Dbl}
    (h : model.RightlyNamed tensorOf names i m) (name : String) (hname : name ∈ m) :
    model.outputTagsMap[name]?.isSome := by
  obtain ⟨v, hv⟩ := Option.isSome_iff_exists.mp (ExtTreeMap.mem_iff_isSome_getElem?.mp hname)
  obtain ⟨tag, htag, -⟩ := h.entries name v hv
  rw [htag]
  rfl

/-- Names without a tag get no vector where the others come first, and only there. -/
theorem knownFirst_of_tags {i size : Nat} {m' : VectorMapType Dbl} {names : List String}
    {tensorOf : String → Tensor Flt}
    (h : model.constructVectorMap i size ∅ names ((model.outputTags names).map tensorOf) = some (true, m'))
    (htags : ∀ name ∈ m', model.outputTagsMap[name]?.isSome) : model.KnownFirst names := by
  obtain ⟨rows, hrows, rfl⟩ := constructVectorMap_tags h
  refine (zip_filterMap_iff hrows.length_eq.symm).mp fun p hp => htags p.1 ?_
  exact mem_emplaceAll.mpr (.inr (List.mem_map_of_mem hp))

theorem rightlyNamed_iff {i size : Nat} {m' : VectorMapType Dbl} {names : List String} {tensorOf : String → Tensor Flt}
    (h : model.constructVectorMap i size ∅ names ((model.outputTags names).map tensorOf) = some (true, m')) :
    model.RightlyNamed tensorOf names i m' ↔ model.KnownFirst names := by
  constructor
  · intro hright
    exact knownFirst_of_tags h hright.isSome_tag
  · intro hfirst
    obtain ⟨rows, hrows, rfl⟩ := constructVectorMap_tags h
    refine ⟨fun name v hv => ?_, fun name hname hknown => ?_⟩
    · rw [getElem?_emplaceAll, ExtTreeMap.getElem?_empty, Option.none_or, Option.map_eq_some_iff] at hv
      obtain ⟨p, hp, rfl⟩ := hv
      have hname := List.find?_some hp
      simp only [decide_eq_true_eq] at hname
      subst hname
      exact of_mem_zip_filterMap hfirst hrows (List.mem_of_find?_eq_some hp)
    · exact mem_emplaceAll.mpr (.inr (mem_fst_zip_filterMap hfirst hrows hname hknown))

/-! ## The responses -/

/-- Each item has the map of its own row, the first of it if it stands there twice. -/
theorem constructBatchVectorMap_true {size i : Nat} {names : List String} {outputs : List (Tensor Flt)}
    {batch batch' : BatchVectorMapType Dbl} {items : List Int64}
    (h : model.constructBatchVectorMap size names outputs i batch items = some (true, batch')) :
    ∃ maps, List.Forall₂ (fun k m => model.constructVectorMap k size ∅ names outputs = some (true, m))
        (List.range' i items.length) maps ∧
      batch' = emplaceAll batch (items.zip maps) := by
  induction items generalizing i batch with
  | nil =>
    cases h
    exact ⟨[], .nil, rfl⟩
  | cons item items ih =>
    simp only [constructBatchVectorMap, Option.bind_eq_bind, Option.bind_eq_some_iff] at h
    obtain ⟨⟨ok, m⟩, hm, h⟩ := h
    cases ok with
    | false => cases h
    | true =>
      obtain ⟨maps, hmaps, rfl⟩ := ih h
      exact ⟨m :: maps, .cons hm hmaps, rfl⟩

theorem constructBatchVectorMap_of_maps {size i : Nat} {names : List String} {outputs : List (Tensor Flt)}
    {batch : BatchVectorMapType Dbl} {items : List Int64} (mapOf : Nat → VectorMapType Dbl)
    (h : ∀ k, i ≤ k → k < i + items.length → model.constructVectorMap k size ∅ names outputs = some (true, mapOf k)) :
    model.constructBatchVectorMap size names outputs i batch items =
      some (true, emplaceAll batch (items.zip ((List.range' i items.length).map mapOf))) := by
  induction items generalizing i batch with
  | nil => rfl
  | cons item items ih =>
    rw [List.length_cons] at h
    rw [constructBatchVectorMap, h i le_rfl (by omega)]
    exact ih fun k hk hlt => h k (by omega) (by omega)

/-- Each item has a map, of a row at one of its places, and nothing else has one. -/
def BatchRightlyNamed (model : TFModel X Flt Dbl) (tensorOf : String → Tensor Flt) (outputNames : List String)
    (items : List Int64) (batch : BatchVectorMapType Dbl) : Prop :=
  (∀ item, item ∈ batch ↔ item ∈ items) ∧
    ∀ (item : Int64) vectorMap, batch[item]? = some vectorMap →
      ∃ i, items[i]? = some item ∧ model.RightlyNamed tensorOf outputNames i vectorMap

theorem constructBatchVectorMap_entries {size : Nat} {names : List String} {outputs : List (Tensor Flt)}
    {items : List Int64} {batch : BatchVectorMapType Dbl}
    (h : model.constructBatchVectorMap size names outputs 0 ∅ items = some (true, batch)) :
    (∀ item, item ∈ batch ↔ item ∈ items) ∧
      ∀ (item : Int64) m, batch[item]? = some m →
        ∃ i, items[i]? = some item ∧ model.constructVectorMap i size ∅ names outputs = some (true, m) := by
  obtain ⟨maps, hmaps, rfl⟩ := constructBatchVectorMap_true h
  have hlen : items.length = maps.length := by rw [← hmaps.length_eq, List.length_range']
  refine ⟨fun item => ?_, fun item m hm => ?_⟩
  · rw [mem_emplaceAll, List.map_fst_zip (by omega)]
    simp
  · rw [getElem?_emplaceAll, ExtTreeMap.getElem?_empty, Option.none_or, Option.map_eq_some_iff] at hm
    obtain ⟨p, hp, rfl⟩ := hm
    have hkey := List.find?_some hp
    simp only [decide_eq_true_eq] at hkey
    subst hkey
    obtain ⟨i, hi⟩ := List.getElem?_of_mem (List.mem_of_find?_eq_some hp)
    obtain ⟨hitem, hm⟩ := List.getElem?_zip_eq_some.mp hi
    obtain ⟨hlt, hget⟩ := List.getElem?_eq_some_iff.mp hm
    -- the map at a place is that of the row there
    have hrow := (List.forall₂_iff_get.mp hmaps).2 i (by rw [List.length_range']; omega) hlt
    refine ⟨i, hitem, ?_⟩
    rw [← hget]
    simpa using hrow

theorem batchRightlyNamed_iff {names : List String} {tensorOf : String → Tensor Flt} {items : List Int64}
    {batch : BatchVectorMapType Dbl}
    (h : model.constructBatchVectorMap items.length names ((model.outputTags names).map tensorOf) 0 ∅ items =
      some (true, batch)) :
    model.BatchRightlyNamed tensorOf names items batch ↔ items = [] ∨ model.KnownFirst names := by
  obtain ⟨hitems, hentry⟩ := constructBatchVectorMap_entries h
  constructor
  · intro hright
    rcases List.eq_nil_or_concat items with hnil | ⟨_, item, hconcat⟩
    · exact .inl hnil
    · have hmem : item ∈ batch := by
        rw [hitems, hconcat]
        simp
      obtain ⟨m, hm⟩ := Option.isSome_iff_exists.mp (ExtTreeMap.mem_iff_isSome_getElem?.mp hmem)
      obtain ⟨i, -, hmap⟩ := hentry item m hm
      obtain ⟨j, -, hnamed⟩ := hright.2 item m hm
      exact .inr (knownFirst_of_tags hmap hnamed.isSome_tag)
  · intro hfirst
    refine ⟨hitems, fun item m hm => ?_⟩
    obtain ⟨i, hi, hmap⟩ := hentry item m hm
    refine ⟨i, hi, (rightlyNamed_iff hmap).mpr (hfirst.resolve_left ?_)⟩
    rintro rfl
    cases hi

theorem tfCalculateVector_of_outputs {R : Type}
    {construct : R → List Int64 → List String → List (Tensor Flt) → Option (Bool × R)} {response : R}
    {examples : List (Int64 × X)} {names : List String} {tensorOf : String → Tensor Flt}
    (h : model.tfCalculateOutputs examples (model.outputTags names) = some ((model.outputTags names).map tensorOf)) :
    model.tfCalculateVector construct response examples names =
      construct response (examples.map (·.1)) names ((model.outputTags names).map tensorOf) := by
  simp only [tfCalculateVector, h, List.length_map, ne_eq, not_true_eq_false, if_false]

theorem constructVectorResponse_true_iff {response response' : CalculateVectorResponse (List Dbl)} {items : List Int64}
    {names : List String} {outputs : List (Tensor Flt)} :
    model.constructVectorResponse response items names outputs = some (true, response') ↔
      ∃ m, model.constructVectorMap 0 1 ∅ names outputs = some (true, m) ∧
        response' = { response with vectorMap := m } := by
  simp only [constructVectorResponse, Option.bind_eq_bind, Option.bind_eq_some_iff]
  constructor
  · rintro ⟨⟨ok, m⟩, hmap, h⟩
    cases ok <;> cases h
    exact ⟨m, hmap, rfl⟩
  · rintro ⟨m, hmap, rfl⟩
    exact ⟨(true, m), hmap, rfl⟩

theorem constructBatchVectorResponse_true_iff {response response' : CalculateBatchVectorResponse (List Dbl)}
    {items : List Int64} {names : List String} {outputs : List (Tensor Flt)} :
    model.constructBatchVectorResponse response items names outputs = some (true, response') ↔
      ∃ batch, model.constructBatchVectorMap items.length names outputs 0 ∅ items = some (true, batch) ∧
        response' = { response with vectorMap := batch } := by
  simp only [constructBatchVectorResponse, Option.bind_eq_bind, Option.bind_eq_some_iff]
  constructor
  · rintro ⟨⟨ok, batch⟩, hmap, h⟩
    cases ok <;> cases h
    exact ⟨batch, hmap, rfl⟩
  · rintro ⟨batch, hmap, rfl⟩
    exact ⟨(true, batch), hmap, rfl⟩

/-- Where the session answers with a tensor for each tag, and the call succeeds: for one
    item the vectors carry their names iff no known name stands behind an unknown one, and
    in the batch form iff this is so or there are no items. -/
theorem vectors_carry_their_names_iff {examples : List (Int64 × X)} {names : List String}
    {tensorOf : String → Tensor Flt}
    (hsession : model.tfCalculateOutputs examples (model.outputTags names) =
      some ((model.outputTags names).map tensorOf)) :
    (∀ response response', model.tfCalculateVector model.constructVectorResponse response examples names =
        some (true, response') →
      (model.RightlyNamed tensorOf names 0 response'.vectorMap ↔ model.KnownFirst names)) ∧
    ∀ response response', model.tfCalculateVector model.constructBatchVectorResponse response examples names =
        some (true, response') →
      (model.BatchRightlyNamed tensorOf names (examples.map (·.1)) response'.vectorMap ↔
        examples = [] ∨ model.KnownFirst names) := by
  constructor
  · intro response response' h
    rw [tfCalculateVector_of_outputs hsession] at h
    obtain ⟨m, hmap, rfl⟩ := constructVectorResponse_true_iff.mp h
    exact rightlyNamed_iff hmap
  · intro response response' h
    rw [tfCalculateVector_of_outputs hsession] at h
    obtain ⟨batch, hmap, rfl⟩ := constructBatchVectorResponse_true_iff.mp h
    rw [batchRightlyNamed_iff hmap, List.map_eq_nil_iff]

/-! ## A model with one output -/

/-- A column of sevens. -/
def sevens (n : Nat) (_ : String) : Tensor ℤ := ⟨[n, 1], List.replicate n 7⟩

/-- It knows the output "a". -/
def oneOutput : TFModel Unit ℤ ℤ where
  tfCalculateOutputs examples tags := some (tags.map (sevens examples.length))
  outputTagsMap := {("a", "tag")}
  toDouble := id

/-- The known name comes first. -/
theorem known_name_first_is_right :
    oneOutput.RightlyNamed (sevens 1) ["a", "x"] 0 {("a", [7])} := by
  have hsession : oneOutput.tfCalculateOutputs [(1, ())] (oneOutput.outputTags ["a", "x"]) =
      some ((oneOutput.outputTags ["a", "x"]).map (sevens 1)) := rfl
  have hcall : oneOutput.tfCalculateVector oneOutput.constructVectorResponse {} [(1, ())] ["a", "x"] =
      some (true, { vectorMap := {("a", [7])} }) := by
    decide
  exact ((vectors_carry_their_names_iff hsession).1 {} _ hcall).mpr (by decide)

/-- The unknown name comes first, and gets the vector of the other. -/
theorem unknown_name_first_gets_the_vector :
    ¬ ∀ names response response',
      oneOutput.tfCalculateVector oneOutput.constructVectorResponse response [(1, ())] names = some (true, response') →
        oneOutput.RightlyNamed (sevens 1) names 0 response'.vectorMap := by
  intro h
  have hcall : oneOutput.tfCalculateVector oneOutput.constructVectorResponse {} [(1, ())] ["x", "a"] =
      some (true, { vectorMap := {("x", [7])} }) := by
    decide
  have hknown := (h ["x", "a"] {} _ hcall).isSome_tag "x" (by decide)
  revert hknown
  decide

end TFModel

end PredictorService.Server
