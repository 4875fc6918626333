/-
  PredictorService.Server.XGBoost — the tree model of xgboost
  (predictor/server/model_manager/framework: xgboost/xgboost_model_tree.cc,
  xgboost/xgboost_predictor.cc, fea_extract/xgboost_example/xgboost_example_extract.cc;
  thirdparty/xgboost/include/xgboost/data.h).

  The items whose features could be extracted are the rows of a sparse matrix, one row laid
  behind the other, and the scores go back to the items by position. A column index has 64
  bits in the encode file and 32 in `xgboost::Entry`, so a row stands in the matrix as it was
  given exactly where its indexes have no more than 32 bits (`rows_keep_items_iff`).

  The learner is a parameter: a list of scores for a matrix, or nothing where it throws. Sizes
  of vectors are numbers. Floats and doubles are type parameters, `narrow` makes a float of a
  double and `widen` the other way round. Logs are left out.
-/

import PredictorService.Lib.Csr
import PredictorService.Lib.MachineInts
import PredictorService.Lib.Writes
import PredictorService.Server.ParallelPredict

namespace PredictorService.Server

open Std (ExtTreeMap)
open PredictorService.FeatureMaster
open PredictorService.Lib

variable {F Flt Dbl : Type}

/-! ## The extractor (xgboost_example_extract.cc) -/

namespace XGBoostExample_Extract

/-- `fea_encode_` after the loop of `readEncodeConfig`; `entries` is what `input >> name >>
    index` reads until it fails. -/
def readEncodeConfig (feaEncode : FinMap String UInt64) (entries : List (String × UInt64)) : FinMap String UInt64 :=
  FinMap.emplaceAll feaEncode entries

/-- What a feature pushes to the row. -/
def getFeature (feaEncode : FinMap String UInt64) (feature : Feature Dbl) : List (UInt64 × Dbl) :=
  match feaEncode.lookup feature.featureName with
  | none => []
  | some index =>
    match feature.featureType with
    | .floatList =>
      match feature.floatValues with
      | [value] => [(index, value)]
      | _ => []
    | _ => []

def getFeatures (feaEncode : FinMap String UInt64) (features : Features Dbl) : List (UInt64 × Dbl) :=
  features.flatMap (getFeature feaEncode)

/-- The caller hands over the features of the item first. -/
def extractXGboostParameters (feaEncode : FinMap String UInt64) (commonFeatures itemFeatures : Features Dbl) :
    Option (List (UInt64 × Dbl)) :=
  some (getFeatures feaEncode commonFeatures ++ getFeatures feaEncode itemFeatures)

end XGBoostExample_Extract

/-! ## The matrix (xgboost_predictor.cc) -/

/-- `xgboost::Entry`. -/
structure Entry (Flt : Type) where
  index : UInt32
  fvalue : Flt
  deriving DecidableEq, Repr

/-- `SimpleCSRSource`: its page, and of its info what is set. -/
structure DMatrix (Flt : Type) where
  offset : List Nat
  data : List (Entry Flt)
  numRow : Nat
  numCol : UInt64
  numNonzero : Nat
  deriving DecidableEq, Repr

/-- Row `i` of the page. -/
def DMatrix.row (matrix : DMatrix Flt) (i : Nat) : List (Entry Flt) :=
  Csr.slice matrix.data (matrix.offset.getD i 0) (matrix.offset.getD (i + 1) 0)

def DMatrix.rows (matrix : DMatrix Flt) : List (List (Entry Flt)) := (List.range matrix.numRow).map matrix.row

namespace XGBoostPredictor

def createMatrix (narrow : Dbl → Flt) (rows : List (List (UInt64 × Dbl))) : DMatrix Flt :=
  let offset := rows.zipIdx.foldl (fun offset row => offset.set (row.2 + 1) (offset.getD row.2 0 + row.1.length))
    (List.replicate (1 + rows.length) 0)
  let data := rows.flatMap fun row => row.map fun v => ⟨v.1.toUInt32, narrow v.2⟩
  let numColumn := rows.foldl (fun numColumn row => row.foldl (fun numColumn v => max numColumn (v.1 + 1)) numColumn) 0
  ⟨offset, data, rows.length, numColumn, data.length⟩

/-- `none` when it returns false. -/
def predict (learner : DMatrix Flt → Option (List Flt)) (narrow : Dbl → Flt) (widen : Flt → Dbl)
    (rows : List (List (UInt64 × Dbl))) : Option (List Dbl) :=
  if rows.isEmpty then none else (learner (createMatrix narrow rows)).map (·.map widen)

end XGBoostPredictor

/-! ## The model (xgboost_model_tree.cc) -/

namespace XGBoostModelTree

def resultOf (ctr : Dbl) : PredictResults Dbl := { preds := {("ctr", ctr)} }

/-- `none` when it returns false. -/
def predict (extractXGboostParameters : F → F → Option (List (UInt64 × Dbl)))
    (learner : DMatrix Flt → Option (List Flt)) (narrow : Dbl → Flt) (widen : Flt → Dbl) (request : PredictRequest F) :
    Option (PredictResponse (PredictResults Dbl)) := do
  let extracted := Model.extractOneByOne extractXGboostParameters request
  let rows := extracted.map (·.2)
  let itemidVector := extracted.map (·.1)
  let xgboostPreds ← XGBoostPredictor.predict learner narrow widen rows
  if xgboostPreds.length ≠ itemidVector.length then none
  else
    let resultsMap := insertAll ∅ ((itemidVector.zip xgboostPreds).map fun item => (item.1, resultOf item.2))
    return { reqId := request.reqId, resultsMap := resultsMap }

end XGBoostModelTree

/-! ## What a matrix should hold -/

/-- A row of the page, whatever the width of an index. -/
def Entry.pair (entry : Entry Flt) : Nat × Flt := (entry.index.toNat, entry.fvalue)

/-- A row as it is given. -/
def givenRow (narrow : Dbl → Flt) (row : List (UInt64 × Dbl)) : List (Nat × Flt) :=
  row.map fun v => (v.1.toNat, narrow v.2)

/-- A sparse page that fits its info. -/
structure DMatrix.WellFormed (matrix : DMatrix Flt) : Prop where
  length : matrix.offset.length = matrix.numRow + 1
  first : matrix.offset.head? = some 0
  last : matrix.offset.getLast? = some matrix.data.length
  grows : matrix.offset.Pairwise (· ≤ ·)
  below : ∀ entry ∈ matrix.data, entry.index.toNat < matrix.numCol.toNat
  nonzero : matrix.numNonzero = matrix.data.length

/-- The page holds the rows as they are given. -/
structure DMatrix.Holds (matrix : DMatrix Flt) (narrow : Dbl → Flt) (rows : List (List (UInt64 × Dbl))) : Prop where
  wellFormed : matrix.WellFormed
  rows : matrix.rows.map (·.map Entry.pair) = rows.map (givenRow narrow)

/-- Where it does not throw, the learner scores each row of a page on its own. -/
def ScoresRows (learner : DMatrix Flt → Option (List Flt)) (score : List (Nat × Flt) → Flt) : Prop :=
  ∀ matrix : DMatrix Flt, matrix.WellFormed →
    learner matrix = none ∨ learner matrix = some (matrix.rows.map fun row => score (row.map Entry.pair))

section
variable (extractXGboostParameters : F → F → Option (List (UInt64 × Dbl))) (narrow : Dbl → Flt) (widen : Flt → Dbl)
  (request : PredictRequest F)

/-- The rows of a request. -/
def rowsOf : List (List (UInt64 × Dbl)) := (Model.extractOneByOne extractXGboostParameters request).map (·.2)

/-- Each item whose features could be extracted has the score of its row, and no other item
    has one. -/
def ScoredRight (score : List (Nat × Flt) → Flt) (response : PredictResponse (PredictResults Dbl)) : Prop :=
  ∀ id : Int64, response.resultsMap[id]? =
    (request.itemFeatures[id]?.bind (extractXGboostParameters · request.commonFeatures)).map fun row =>
      XGBoostModelTree.resultOf (widen (score (givenRow narrow row)))

/-- The rows keep their items. -/
structure RowsKeepItems : Prop where
  scores : ∀ (learner : DMatrix Flt → Option (List Flt)) (score : List (Nat × Flt) → Flt), ScoresRows learner score →
    ∀ response, XGBoostModelTree.predict extractXGboostParameters learner narrow widen request = some response →
      ScoredRight extractXGboostParameters narrow widen request score response
  matrix : (XGBoostPredictor.createMatrix narrow (rowsOf extractXGboostParameters request)).Holds narrow
    (rowsOf extractXGboostParameters request)

end

/-! ## The two passes -/

section
variable (narrow : Dbl → Flt) (rows : List (List (UInt64 × Dbl)))

/-- A row as the page stores it. -/
def storedRow (row : List (UInt64 × Dbl)) : List (Entry Flt) := row.map fun v => ⟨v.1.toUInt32, narrow v.2⟩

theorem createMatrix_data : (XGBoostPredictor.createMatrix narrow rows).data = (rows.map (storedRow narrow)).flatten :=
  List.flatMap_def

/-- The first pass is a scan, so it makes the offsets of the second one's rows. -/
theorem createMatrix_offset :
    (XGBoostPredictor.createMatrix narrow rows).offset = Csr.offsets (rows.map (storedRow narrow)) := by
  have hpass := foldl_set_scanl (fun start (row : List (UInt64 × Dbl)) => start + row.length) 0 [] 0
    (List.replicate rows.length 0) rows List.length_replicate
  have hzeros : [] ++ 0 :: List.replicate rows.length 0 = List.replicate (1 + rows.length) 0 := by
    rw [List.nil_append, Nat.add_comm]
    rfl
  rw [hzeros, List.nil_append, List.length_nil] at hpass
  rw [Csr.offsets, List.scanl_map]
  simp only [storedRow, List.length_map]
  exact hpass

theorem createMatrix_rows : (XGBoostPredictor.createMatrix narrow rows).rows = rows.map (storedRow narrow) := by
  have hnum : (XGBoostPredictor.createMatrix narrow rows).numRow = rows.length := rfl
  rw [DMatrix.rows, hnum]
  refine List.ext_getElem (by simp) fun i hi hi' => ?_
  rw [List.length_map, List.length_range] at hi
  rw [List.getElem_map, List.getElem_range, DMatrix.row, createMatrix_offset, createMatrix_data]
  have hstart : i < (Csr.offsets (rows.map (storedRow narrow))).length := by
    rw [Csr.length_offsets]
    omega
  have hstop : i + 1 < (Csr.offsets (rows.map (storedRow narrow))).length := by
    rw [Csr.length_offsets]
    omega
  rw [List.getD_eq_getElem?_getD, List.getD_eq_getElem?_getD, List.getElem?_eq_getElem hstart,
    List.getElem?_eq_getElem hstop, Option.getD_some, Option.getD_some]
  exact Csr.slice_offsets _ hi' (List.getElem?_eq_getElem hstart) (List.getElem?_eq_getElem hstop)

end

/-! ## Columns -/

/-- Every index below 2^32 is below `num_col_`. -/
theorem lt_numCol {narrow : Dbl → Flt} {rows : List (List (UInt64 × Dbl))} {row : List (UInt64 × Dbl)}
    (hrow : row ∈ rows) {v : UInt64 × Dbl} (hv : v ∈ row) (h : v.1.toNat < 2 ^ 32) :
    v.1.toNat < (XGBoostPredictor.createMatrix narrow rows).numCol.toNat := by
  have hcol : (XGBoostPredictor.createMatrix narrow rows).numCol =
      rows.flatten.foldl (fun numColumn v => max numColumn (v.1 + 1)) 0 := List.foldl_flatten.symm
  have hsucc : (v.1 + 1).toNat = v.1.toNat + 1 := by
    have hone : (1 : UInt64).toNat = 1 := rfl
    rw [UInt64.toNat_add]
    exact Nat.mod_eq_of_lt (by omega)
  have hle := (le_foldl_max toNat_max (fun v : UInt64 × Dbl => v.1 + 1) rows.flatten 0).2 v
    (List.mem_flatten.mpr ⟨row, hrow, hv⟩)
  rw [hcol]
  omega

/-! ## The page -/

/-- No index has more than 32 bits. -/
def NarrowIndexes (rows : List (List (UInt64 × Dbl))) : Prop := ∀ row ∈ rows, ∀ v ∈ row, v.1.toNat < 2 ^ 32

theorem storedRow_pairs (narrow : Dbl → Flt) (row : List (UInt64 × Dbl)) :
    (storedRow narrow row).map Entry.pair = givenRow narrow row ↔ ∀ v ∈ row, v.1.toNat < 2 ^ 32 := by
  rw [storedRow, givenRow, List.map_map, List.map_inj_left]
  refine forall₂_congr fun v _ => ?_
  simp only [Function.comp_apply, Entry.pair, Prod.mk.injEq, and_true, UInt64.toNat_toUInt32]
  exact Nat.mod_eq_iff_lt (by omega)

theorem rows_pairs_iff (narrow : Dbl → Flt) (rows : List (List (UInt64 × Dbl))) :
    (XGBoostPredictor.createMatrix narrow rows).rows.map (·.map Entry.pair) = rows.map (givenRow narrow) ↔
      NarrowIndexes rows := by
  rw [createMatrix_rows, List.map_map, List.map_inj_left]
  exact forall₂_congr fun row _ => storedRow_pairs narrow row

theorem wellFormed_createMatrix (narrow : Dbl → Flt) {rows : List (List (UInt64 × Dbl))} (h : NarrowIndexes rows) :
    (XGBoostPredictor.createMatrix narrow rows).WellFormed where
  length := by
    rw [createMatrix_offset, Csr.length_offsets, List.length_map]
    rfl
  first := by rw [createMatrix_offset, Csr.head?_offsets]
  last := by rw [createMatrix_offset, createMatrix_data, Csr.getLast?_offsets]
  grows := by
    rw [createMatrix_offset]
    exact Csr.pairwise_offsets _
  below := by
    intro entry hentry
    rw [createMatrix_data] at hentry
    obtain ⟨_, hstored, hentry⟩ := List.mem_flatten.mp hentry
    obtain ⟨row, hrow, rfl⟩ := List.mem_map.mp hstored
    obtain ⟨v, hv, rfl⟩ := List.mem_map.mp hentry
    have hnarrow := h row hrow v hv
    show v.1.toUInt32.toNat < _
    rw [UInt64.toNat_toUInt32, Nat.mod_eq_of_lt hnarrow]
    exact lt_numCol hrow hv hnarrow
  nonzero := rfl

theorem holds_createMatrix_iff (narrow : Dbl → Flt) (rows : List (List (UInt64 × Dbl))) :
    (XGBoostPredictor.createMatrix narrow rows).Holds narrow rows ↔ NarrowIndexes rows :=
  ⟨fun h => (rows_pairs_iff narrow rows).mp h.rows,
    fun h => ⟨wellFormed_createMatrix narrow h, (rows_pairs_iff narrow rows).mpr h⟩⟩

/-! ## The scores -/

section
variable {extractXGboostParameters : F → F → Option (List (UInt64 × Dbl))} {narrow : Dbl → Flt} {widen : Flt → Dbl}
  {request : PredictRequest F}

theorem mem_extractOneByOne {id : Int64} {row : List (UInt64 × Dbl)} :
    (id, row) ∈ Model.extractOneByOne extractXGboostParameters request ↔
      request.itemFeatures[id]?.bind (extractXGboostParameters · request.commonFeatures) = some row := by
  rw [Model.extractOneByOne, List.mem_flatMap, Option.bind_eq_some_iff]
  constructor
  · rintro ⟨item, hitem, hmem⟩
    unfold Model.extractItem at hmem
    split at hmem
    · rename_i extracted hextract
      cases List.mem_singleton.mp hmem
      exact ⟨item.2, ExtTreeMap.mem_toList_iff_getElem?_eq_some.mp hitem, hextract⟩
    · cases hmem
  · rintro ⟨features, hfeatures, hextract⟩
    refine ⟨(id, features), ExtTreeMap.mem_toList_iff_getElem?_eq_some.mpr hfeatures, ?_⟩
    simp only [Model.extractItem, hextract, List.mem_singleton]

/-- What the learner makes of the matrix of narrow rows. -/
theorem predict_rows {learner : DMatrix Flt → Option (List Flt)} {score : List (Nat × Flt) → Flt}
    (hlearner : ScoresRows learner score) {rows : List (List (UInt64 × Dbl))} (h : NarrowIndexes rows)
    {preds : List Dbl} (hpreds : XGBoostPredictor.predict learner narrow widen rows = some preds) :
    preds = rows.map fun row => widen (score (givenRow narrow row)) := by
  unfold XGBoostPredictor.predict at hpreds
  split at hpreds
  · cases hpreds
  rcases hlearner _ (wellFormed_createMatrix narrow h) with hnone | hsome
  · rw [hnone] at hpreds
    cases hpreds
  · have hrows := (rows_pairs_iff narrow rows).mpr h
    have hscores : (XGBoostPredictor.createMatrix narrow rows).rows.map (fun row => score (row.map Entry.pair)) =
        rows.map fun row => score (givenRow narrow row) := by
      have := congrArg (List.map score) hrows
      simpa only [List.map_map, Function.comp_def] using this
    rw [hsome, hscores, Option.map_some, Option.some_inj, List.map_map] at hpreds
    exact hpreds.symm

/-- The scores go back to the items whose rows they are of. -/
theorem scoredRight_of_narrow {learner : DMatrix Flt → Option (List Flt)} {score : List (Nat × Flt) → Flt}
    (hlearner : ScoresRows learner score) (h : NarrowIndexes (rowsOf extractXGboostParameters request))
    {response : PredictResponse (PredictResults Dbl)}
    (hresponse : XGBoostModelTree.predict extractXGboostParameters learner narrow widen request = some response) :
    ScoredRight extractXGboostParameters narrow widen request score response := by
  simp only [XGBoostModelTree.predict, Option.bind_eq_bind, Option.bind_eq_some_iff] at hresponse
  obtain ⟨preds, hpreds, hresponse⟩ := hresponse
  rw [predict_rows hlearner h hpreds] at hresponse
  split at hresponse
  · cases hresponse
  cases hresponse
  have hentries : (((Model.extractOneByOne extractXGboostParameters request).map (·.1)).zip
      ((rowsOf extractXGboostParameters request).map fun row => widen (score (givenRow narrow row)))).map
        (fun item => (item.1, XGBoostModelTree.resultOf item.2)) =
      (Model.extractOneByOne extractXGboostParameters request).map fun e =>
        (e.1, XGBoostModelTree.resultOf (widen (score (givenRow narrow e.2)))) := by
    rw [rowsOf, List.map_map, List.zip_map', List.map_map]
    rfl
  have hkeys : (((Model.extractOneByOne extractXGboostParameters request).map fun e =>
      (e.1, XGBoostModelTree.resultOf (widen (score (givenRow narrow e.2))))).map (·.1)).Nodup := by
    rw [List.map_map]
    exact Model.nodup_extract extractXGboostParameters request
  intro id
  refine Option.ext fun result => ?_
  show (insertAll ∅ _)[id]? = some result ↔ _
  rw [hentries, getElem?_insertAll_empty hkeys, Option.map_eq_some_iff]
  constructor
  · intro hmem
    obtain ⟨⟨_, row⟩, hrow, heq⟩ := List.mem_map.mp hmem
    cases heq
    exact ⟨row, mem_extractOneByOne.mp hrow, rfl⟩
  · rintro ⟨row, hrow, rfl⟩
    exact List.mem_map.mpr ⟨(id, row), mem_extractOneByOne.mpr hrow, rfl⟩

theorem rowsKeepItems_iff : RowsKeepItems extractXGboostParameters narrow widen request ↔
    NarrowIndexes (rowsOf extractXGboostParameters request) :=
  ⟨fun h => (holds_createMatrix_iff narrow _).mp h.matrix,
    fun h => ⟨fun _ _ hlearner _ => scoredRight_of_narrow hlearner h, (holds_createMatrix_iff narrow _).mpr h⟩⟩

end

/-! ## The encode file -/

/-- Every feature of the request that gets a column gets one below 2^32. -/
def NarrowEncoding (feaEncode : FinMap String UInt64) (request : PredictRequest (Features Dbl)) : Prop :=
  ∀ item ∈ request.itemFeatures.toList, ∀ feature ∈ item.2 ++ request.commonFeatures,
    feature.featureType = .floatList → feature.floatValues.length = 1 →
    ∀ index, feaEncode.lookup feature.featureName = some index → index.toNat < 2 ^ 32

theorem mem_getFeature {feaEncode : FinMap String UInt64} {feature : Feature Dbl} {v : UInt64 × Dbl} :
    v ∈ XGBoostExample_Extract.getFeature feaEncode feature ↔
      feaEncode.lookup feature.featureName = some v.1 ∧ feature.featureType = .floatList ∧ feature.floatValues = [v.2] := by
  unfold XGBoostExample_Extract.getFeature
  split
  · rename_i hnone
    simp [hnone]
  rename_i index hindex
  split
  · rename_i htype
    split
    · rename_i value hvalue
      rw [List.mem_singleton, Prod.ext_iff]
      simp [hindex, htype, hvalue, eq_comm]
    · rename_i hvalues
      simp only [List.not_mem_nil, false_iff]
      exact fun h => hvalues v.2 h.2.2
  · rename_i htype
    simp only [List.not_mem_nil, false_iff]
    exact fun h => htype h.2.1

theorem rowsOf_encoded (feaEncode : FinMap String UInt64) (request : PredictRequest (Features Dbl)) :
    rowsOf (XGBoostExample_Extract.extractXGboostParameters feaEncode) request =
      request.itemFeatures.toList.map fun item =>
        (item.2 ++ request.commonFeatures).flatMap (XGBoostExample_Extract.getFeature feaEncode) := by
  rw [rowsOf, Model.extractOneByOne, List.map_flatMap, List.map_eq_flatMap]
  refine List.flatMap_congr fun item _ => ?_
  rw [List.flatMap_append]
  rfl

theorem narrowIndexes_encoded_iff {feaEncode : FinMap String UInt64} {request : PredictRequest (Features Dbl)} :
    NarrowIndexes (rowsOf (XGBoostExample_Extract.extractXGboostParameters feaEncode) request) ↔
      NarrowEncoding feaEncode request := by
  rw [NarrowIndexes, rowsOf_encoded, List.forall_mem_map]
  refine forall₂_congr fun item _ => ?_
  constructor
  · intro h feature hfeature htype hlen index hindex
    obtain ⟨value, hvalue⟩ := List.length_eq_one_iff.mp hlen
    exact h (index, value) (List.mem_flatMap.mpr ⟨feature, hfeature, mem_getFeature.mpr ⟨hindex, htype, hvalue⟩⟩)
  · intro h v hv
    obtain ⟨feature, hfeature, hv⟩ := List.mem_flatMap.mp hv
    obtain ⟨hindex, htype, hvalue⟩ := mem_getFeature.mp hv
    exact h feature hfeature htype (by rw [hvalue]; rfl) v.1 hindex

/-- The rows keep their items exactly where no column index has more than 32 bits. -/
theorem rows_keep_items_iff (narrow : Dbl → Flt) (widen : Flt → Dbl) :
    (∀ (extractXGboostParameters : F → F → Option (List (UInt64 × Dbl))) (request : PredictRequest F),
      RowsKeepItems extractXGboostParameters narrow widen request ↔
        NarrowIndexes (rowsOf extractXGboostParameters request)) ∧
    ∀ (entries : List (String × UInt64)) (request : PredictRequest (Features Dbl)),
      RowsKeepItems (XGBoostExample_Extract.extractXGboostParameters
          (XGBoostExample_Extract.readEncodeConfig ∅ entries)) narrow widen request ↔
        NarrowEncoding (XGBoostExample_Extract.readEncodeConfig ∅ entries) request :=
  ⟨fun _ _ => rowsKeepItems_iff, fun _ _ => rowsKeepItems_iff.trans narrowIndexes_encoded_iff⟩

/-- A column past 2^32 becomes another one. -/
theorem wide_index :
    let entries : List (String × UInt64) := [("age", 4294967296)]
    let age : Feature Nat := { featureName := "age", featureType := .floatList, floatValues := [30] }
    let request : PredictRequest (Features Nat) := { itemFeatures := {(7, [age])}, commonFeatures := [] }
    (XGBoostPredictor.createMatrix id [[((4294967296 : UInt64), 30)]]).data = [⟨0, 30⟩] ∧
      (XGBoostPredictor.createMatrix id [[((4294967296 : UInt64), 30)]]).numCol = 4294967297 ∧
      ¬ RowsKeepItems (XGBoostExample_Extract.extractXGboostParameters
        (XGBoostExample_Extract.readEncodeConfig ∅ entries)) id id request := by
  intro entries age request
  refine ⟨by decide, by decide, fun h => ?_⟩
  have hitem : (7, [age]) ∈ request.itemFeatures.toList :=
    ExtTreeMap.mem_toList_iff_getElem?_eq_some.mpr (by simp [request])
  have hcode : (XGBoostExample_Extract.readEncodeConfig ∅ entries).lookup "age" = some 4294967296 := by
    rw [XGBoostExample_Extract.readEncodeConfig, FinMap.lookup_emplaceAll, Finmap.lookup_empty]
    rfl
  have hnarrow := (rowsKeepItems_iff.trans narrowIndexes_encoded_iff).mp h (7, [age]) hitem age
    (List.mem_append_left _ List.mem_cons_self) rfl rfl _ hcode
  exact absurd hnarrow (by decide)

end PredictorService.Server
