/-
  PredictorService.Server.ParallelPredict — evaluating the items in parallel and one after
  another.

  The slices hold every item once, and the tasks of `extractFeaturesInParallel` append one
  pair for each item that they extract, so the vector is a permutation of the pairs in key
  order (`extract_perm`). A session that works row by row then gives each example its own
  row, and `constructPredictResponse` attaches the results by position: with one column the
  `i`-th element is the result of the `i`-th example (`fillResults_column`). It reads the
  `i`-th element of the whole tensor, though, and not of the first column, so with more
  columns the second example gets an element of the first one's row.
-/

import PredictorService.Server.Models
import PredictorService.Server.SplitRequest

namespace PredictorService.Server

open Std (ExtTreeMap)
open PredictorService.Lib
open PredictorService.Lib.Futures
open PredictorService.Lib.TaskPool (Pool appendStep idle_append append_reaches_idle)
open PredictorRouter (sliceItems splitSlice_covers flatMap_sliceItems)
open PredictorService.FeatureMaster (Feature Features)

variable {F X Flt Dbl : Type}

/-! ## Slices -/

theorem splitSlice_isSome {total min max : UInt32} : (splitSlice total min max).isSome ↔ min ≠ 0 ∧ max ≠ 0 := by
  unfold splitSlice
  split
  · rename_i h
    simp only [Option.isSome_none, Bool.false_eq_true, false_iff]
    intro hne
    rcases h with h | h
    · exact hne.2 h
    · exact hne.1 h
  · rename_i h
    simp only [Option.isSome_some, true_iff]
    exact ⟨fun hmin => h (.inr hmin), fun hmax => h (.inl hmax)⟩

/-- The slices hold all items, in key order. -/
theorem flatMap_slices {items : ExtTreeMap Int64 F} (hsize : items.size < 2 ^ 32) {min max : UInt32} (hmin : min ≠ 0)
    (hmax : max ≠ 0) :
    ((splitSlice (UInt32.ofNat items.size) min max).getD []).flatMap (sliceItems items.toList) = items.toList := by
  obtain ⟨ranges, hr⟩ := Option.isSome_iff_exists.mp (splitSlice_isSome.mpr ⟨hmin, hmax⟩)
  have hlen : (UInt32.ofNat items.size).toNat = items.toList.length := by
    rw [UInt32.toNat_ofNat', ExtTreeMap.length_toList]
    exact Nat.mod_eq_of_lt hsize
  rw [hr, Option.getD_some, flatMap_sliceItems (splitSlice_covers hr), hlen, List.drop_zero, Nat.sub_zero,
    List.take_length]

theorem toUInt32_ne_zero {n : Int32} (h : 1 ≤ n) : n.toUInt32 ≠ 0 := by
  intro h0
  have hn : n = 0 := congrArg Int32.ofUInt32 h0
  rw [hn] at h
  exact absurd h (by decide)

/-! ## Extracting features -/

namespace Model

variable (extractItemFeatures : F → F → Option X)

/-- The pairs of the items, extracted one after another in key order. -/
def extractOneByOne (request : PredictRequest F) : List (Int64 × X) :=
  request.itemFeatures.toList.flatMap (extractItem extractItemFeatures request.commonFeatures)

theorem extractTasks_flatten {request : PredictRequest F} (hsize : request.itemFeatures.size < 2 ^ 32) {min max : Int32}
    (hmin : 1 ≤ min) (hmax : 1 ≤ max) : (extractTasks request min max).flatten = request.itemFeatures.toList :=
  flatMap_slices hsize (toUInt32_ne_zero hmin) (toUInt32_ne_zero hmax)

theorem not_invalid {min max : Int32} (hmin : 1 ≤ min) (hmax : 1 ≤ max) : ¬ (min < 1 ∨ max < 1) := by
  intro h
  rcases h with h | h
  · exact Int32.not_lt.mpr hmin h
  · exact Int32.not_lt.mpr hmax h

theorem extract_perm {extracted out : List (Int64 × X)} {request : PredictRequest F}
    (hsize : request.itemFeatures.size < 2 ^ 32) {min max : Int32} (hmin : 1 ≤ min) (hmax : 1 ≤ max)
    {schedule : List Nat}
    (h : extractFeaturesInParallel extractItemFeatures extracted request min max schedule = some out) :
    out.Perm (extracted ++ extractOneByOne extractItemFeatures request) := by
  rw [extractFeaturesInParallel, if_neg (not_invalid hmin hmax)] at h
  simp only [Option.bind_eq_bind, Option.bind_eq_some_iff, guard_some] at h
  obtain ⟨pool, hrun, hidle, rfl⟩ := h
  have hperm := idle_append _ hrun hidle
  rwa [Pool.appended, Pool.pending, extractTasks_flatten hsize hmin hmax] at hperm

/-- The tasks can always be brought to their end. -/
theorem exists_schedule (extracted : List (Int64 × X)) (request : PredictRequest F) (min max : Int32) :
    ∃ schedule, (extractFeaturesInParallel extractItemFeatures extracted request min max schedule).isSome := by
  unfold extractFeaturesInParallel
  by_cases hbad : min < 1 ∨ max < 1
  · exact ⟨[], by rw [if_pos hbad]; rfl⟩
  · obtain ⟨schedule, pool, hrun, hidle⟩ := append_reaches_idle
      (extractItem extractItemFeatures request.commonFeatures) ⟨extracted, extractTasks request min max⟩
    refine ⟨schedule, ?_⟩
    rw [if_neg hbad, hrun]
    simp [hidle]

theorem extract_invalid {extracted : List (Int64 × X)} {request : PredictRequest F} {min max : Int32}
    (h : min < 1 ∨ max < 1) (schedule : List Nat) :
    extractFeaturesInParallel extractItemFeatures extracted request min max schedule = some extracted := by
  rw [extractFeaturesInParallel, if_pos h]

theorem keys_extract_sublist (commonFeatures : F) (l : List (Int64 × F)) :
    ((l.flatMap (extractItem extractItemFeatures commonFeatures)).map (·.1)).Sublist (l.map (·.1)) := by
  induction l with
  | nil => exact List.Sublist.refl _
  | cons item l ih =>
    rw [List.flatMap_cons, List.map_append, List.map_cons]
    cases h : extractItemFeatures item.2 commonFeatures with
    | none => simpa [extractItem, h] using ih.cons item.1
    | some x => simpa [extractItem, h] using ih

/-- An item has one pair at most. -/
theorem nodup_extract (request : PredictRequest F) :
    ((extractOneByOne extractItemFeatures request).map (·.1)).Nodup := by
  refine (keys_extract_sublist extractItemFeatures request.commonFeatures _).nodup ?_
  have hkeys := ExtTreeMap.distinct_keys_toList (t := request.itemFeatures)
  rw [List.Nodup, List.pairwise_map]
  exact hkeys.imp fun hne heq => hne (by simp [heq])

end Model

/-! ## Sessions that work row by row -/

/-- What such a session computes: for a row of the inputs, its row in each output, which is
    as long as the output is wide. -/
structure Session (X Flt : Type) where
  columns : List Nat
  row : X → List (List Flt)
  row_columns : ∀ x, (row x).map List.length = columns

/-- The outputs for some rows. -/
def Session.run (session : Session X Flt) (rows : List X) : List (Tensor Flt) :=
  session.columns.zipIdx.map fun c =>
    { dims := [rows.length, c.1], data := rows.flatMap fun x => (session.row x)[c.2]?.getD [] }

@[simp] theorem Session.length_run (session : Session X Flt) (rows : List X) :
    (session.run rows).length = session.columns.length := by
  simp [run]

/-- The elements of the first output, row after row. -/
def Session.elements (session : Session X Flt) (examples : List (Int64 × X)) : List Flt :=
  examples.flatMap fun e => (session.row e.2)[0]?.getD []

theorem Session.run_one {session : Session X Flt} {w : Nat} (h : session.columns = [w]) (examples : List (Int64 × X)) :
    session.run (examples.map (·.2)) = [{ dims := [examples.length, w], data := session.elements examples }] := by
  simp [run, h, elements, List.flatMap_map]

namespace TFModelBase

/-- The model runs the session on the rows of the examples. -/
def RowWise (model : TFModelBase F X Flt Dbl) (session : Session X Flt) : Prop :=
  ∀ examples, model.tfCalculateOutputs examples = some (session.run (examples.map (·.2)))

section Uniform

variable [OfNat Dbl 0] (toDouble : Flt → Dbl) (x : X) (row : List Flt)

/-- A session that gives every row the same output. -/
def uniformSession : Session X Flt := ⟨[row.length], fun _ => [row], fun _ => rfl⟩

/-- A model of such a session, which extracts every item. -/
def uniform : TFModelBase F X Flt Dbl where
  extractItemFeatures _ _ := some x
  tfCalculateOutputs examples := some ((uniformSession row).run (examples.map (·.2)))
  negativeSamplingRatio := 0
  toDouble := toDouble

theorem rowWise_uniform : (uniform (F := F) toDouble x row).RowWise (uniformSession row) := fun _ => rfl

theorem extractOneByOne_uniform (request : PredictRequest F) :
    Model.extractOneByOne (uniform toDouble x row).extractItemFeatures request =
      request.itemFeatures.toList.map fun item => (item.1, x) := by
  rw [Model.extractOneByOne, List.map_eq_flatMap]
  rfl

end Uniform

variable [OfNat Dbl 0] [OfNat Dbl 1] [Add Dbl] [Sub Dbl] [Div Dbl] [BEq Dbl]
variable (model : TFModelBase F X Flt Dbl) {session : Session X Flt}

/-- The items evaluated one after another in key order, each by itself. -/
def predictOneByOne (response : PredictResponse (PredictResults Dbl)) (request : PredictRequest F) :
    Option (PredictResponse (PredictResults Dbl)) :=
  request.itemFeatures.toList.foldlM (fun response item =>
    match model.extractItemFeatures item.2 request.commonFeatures with
    | some extracted => (model.predictExamples response [(item.1, extracted)] request.reqId).map (·.2)
    | none => some response) response

/-- The result that a float becomes. -/
def resultOf (t : Flt) : PredictResults Dbl := { preds := {("ctr", model.ctr t)} }

variable {model}

theorem predictExamples_one (hrow : model.RowWise session) {w : Nat} (hcol : session.columns = [w])
    (response : PredictResponse (PredictResults Dbl)) (examples : List (Int64 × X)) (reqId : String) :
    model.predictExamples response examples reqId =
      (model.fillResults ⟨[examples.length, w], session.elements examples⟩ 0 response.resultsMap examples).map
        fun resultsMap => (true, { reqId := reqId, resultsMap := resultsMap }) := by
  rw [predictExamples, hrow, Session.run_one hcol]
  cases h : model.fillResults ⟨[examples.length, w], session.elements examples⟩ 0 response.resultsMap examples with
  | none => simp [constructPredictResponse, h]
  | some m => simp [constructPredictResponse, h]

/-- Without exactly one output nothing is written. -/
theorem constructPredictResponse_other {outputs : List (Tensor Flt)} (h : outputs.length ≠ 1)
    (response : PredictResponse (PredictResults Dbl)) (examples : List (Int64 × X)) (reqId : String) :
    model.constructPredictResponse response outputs examples reqId = some (false, response) := by
  match outputs, h with
  | [], _ => rfl
  | [_], h => exact absurd rfl h
  | _ :: _ :: _, _ => rfl

theorem predictExamples_other (hrow : model.RowWise session) (hcol : session.columns.length ≠ 1)
    (response : PredictResponse (PredictResults Dbl)) (examples : List (Int64 × X)) (reqId : String) :
    model.predictExamples response examples reqId = some (true, response) := by
  have hlen : (session.run (examples.map (·.2))).length ≠ 1 := by rwa [Session.length_run]
  have hkept : model.constructPredictResponse response (session.run (examples.map (·.2))) examples reqId =
      some (false, response) := constructPredictResponse_other hlen response examples reqId
  simp [predictExamples, hrow examples, hkept]

/-! ## One after another -/

/-- An example by itself gets the first element of its row. -/
theorem predictExamples_first (hrow : model.RowWise session) {w : Nat} (hcol : session.columns = [w]) {x : X} {t : Flt}
    {rest : List Flt} (hx : session.row x = [t :: rest]) (response : PredictResponse (PredictResults Dbl)) (id : Int64)
    (reqId : String) :
    model.predictExamples response [(id, x)] reqId =
      some (true, { reqId := reqId, resultsMap := response.resultsMap.insert id (model.resultOf t) }) := by
  have hat : Tensor.at? ⟨[1, w], session.elements [(id, x)]⟩ 0 = some t := by
    simp [Tensor.at?, Session.elements, hx]
  rw [predictExamples_one hrow hcol]
  simp only [List.length_singleton, fillResults, hat, Option.bind_eq_bind, Option.bind_some, Option.map_some]
  rfl

theorem predictOneByOne_first (hrow : model.RowWise session) {w : Nat} (hcol : session.columns = [w]) {v : X → Flt}
    (hv : ∀ x, ∃ rest, session.row x = [v x :: rest]) (response : PredictResponse (PredictResults Dbl))
    (request : PredictRequest F) :
    ∃ out, model.predictOneByOne response request = some out ∧
      out.resultsMap = insertAll response.resultsMap
        ((Model.extractOneByOne model.extractItemFeatures request).map fun e => (e.1, model.resultOf (v e.2))) := by
  unfold predictOneByOne Model.extractOneByOne
  induction request.itemFeatures.toList generalizing response with
  | nil => exact ⟨response, rfl, rfl⟩
  | cons item items ih =>
    rw [List.foldlM_cons, List.flatMap_cons]
    cases hx : model.extractItemFeatures item.2 request.commonFeatures with
    | none =>
      obtain ⟨out, hout, hres⟩ := ih response
      exact ⟨out, hout, by simpa [Model.extractItem, hx] using hres⟩
    | some x =>
      obtain ⟨rest, hrest⟩ := hv x
      simp only [predictExamples_first hrow hcol hrest, Option.map_some, Option.bind_eq_bind, Option.bind_some]
      obtain ⟨out, hout, hres⟩ := ih
        { reqId := request.reqId, resultsMap := response.resultsMap.insert item.1 (model.resultOf (v x)) }
      exact ⟨out, hout, by simpa [Model.extractItem, hx, insertAll] using hres⟩

theorem predictOneByOne_other (hrow : model.RowWise session) (hcol : session.columns.length ≠ 1)
    (response : PredictResponse (PredictResults Dbl)) (request : PredictRequest F) :
    model.predictOneByOne response request = some response := by
  unfold predictOneByOne
  induction request.itemFeatures.toList with
  | nil => rfl
  | cons item items ih =>
    rw [List.foldlM_cons]
    cases hx : model.extractItemFeatures item.2 request.commonFeatures with
    | none => exact ih
    | some x => simpa [predictExamples_other hrow hcol] using ih

/-! ## One column -/

/-- Where the elements from the `i`-th on are those of the examples, each gets its own. -/
theorem fillResults_column (v : X → Flt) {dims : List Nat} {data : List Flt} (examples : List (Int64 × X))
    (done : List Flt) (hdata : data = done ++ examples.map fun e => v e.2)
    (m : ExtTreeMap Int64 (PredictResults Dbl)) :
    model.fillResults ⟨dims, data⟩ done.length m examples =
      some (insertAll m (examples.map fun e => (e.1, model.resultOf (v e.2)))) := by
  induction examples generalizing done m with
  | nil => rfl
  | cons e examples ih =>
    have hat : Tensor.at? ⟨dims, data⟩ done.length = some (v e.2) := by simp [Tensor.at?, hdata]
    have hrest := ih (done ++ [v e.2]) (by simp [hdata]) (m.insert e.1 (model.resultOf (v e.2)))
    rw [List.length_append, List.length_singleton] at hrest
    rw [fillResults, hat]
    exact hrest

theorem predictExamples_column (hrow : model.RowWise session) (hcol : session.columns = [1]) {v : X → Flt}
    (hv : ∀ x, session.row x = [[v x]]) (response : PredictResponse (PredictResults Dbl))
    (examples : List (Int64 × X)) (reqId : String) :
    model.predictExamples response examples reqId =
      some (true, { reqId := reqId
                    resultsMap := insertAll response.resultsMap
                      (examples.map fun e => (e.1, model.resultOf (v e.2))) }) := by
  have hdata : session.elements examples = [] ++ examples.map fun e => v e.2 := by
    simp [Session.elements, hv, List.map_eq_flatMap]
  rw [predictExamples_one hrow hcol]
  have hfill : model.fillResults ⟨[examples.length, 1], session.elements examples⟩ 0 response.resultsMap examples =
      some (insertAll response.resultsMap (examples.map fun e => (e.1, model.resultOf (v e.2)))) :=
    fillResults_column v examples [] hdata response.resultsMap
  rw [hfill, Option.map_some]

theorem exists_column (hcol : session.columns = [1]) : ∃ v : X → Flt, ∀ x, session.row x = [[v x]] := by
  have hx : ∀ x, ∃ t, session.row x = [[t]] := by
    intro x
    have hlen := session.row_columns x
    rw [hcol] at hlen
    obtain ⟨l, hl, hl1⟩ := List.map_eq_singleton_iff.mp hlen
    obtain ⟨t, rfl⟩ := List.length_eq_one_iff.mp hl1
    exact ⟨t, hl⟩
  exact ⟨fun x => (hx x).choose, fun x => (hx x).choose_spec⟩

/-! ## In parallel -/

variable (F X) in
/-- Whatever the extractor, the session with these outputs, the request and the schedule:
    `predict` fills `results_map` as the evaluation one by one does. -/
def EqualsOneByOne (toDouble : Flt → Dbl) (columns : List Nat) (flags : PredictFlags) : Prop :=
  ∀ (model : TFModelBase F X Flt Dbl) (session : Session X Flt) (response : PredictResponse (PredictResults Dbl))
    (request : PredictRequest F) (schedule : List Nat) (itemFeatures : List (Int64 × X)),
    model.toDouble = toDouble → model.RowWise session → session.columns = columns →
    request.itemFeatures.size < 2 ^ 32 →
    Model.extractFeaturesInParallel model.extractItemFeatures [] request flags.minItemsPerThread.toInt32
      flags.featureExtractTasksNum.toInt32 schedule = some itemFeatures →
    ∃ out out', model.predict flags response request schedule = some (true, out) ∧
      model.predictOneByOne response request = some out' ∧ out.resultsMap = out'.resultsMap

/-- One output and one column, and flags that are positive as `int` too; or no output to
    write from. -/
def Attaches (columns : List Nat) (flags : PredictFlags) : Prop :=
  columns.length ≠ 1 ∨
    columns = [1] ∧ 1 ≤ flags.minItemsPerThread.toInt32 ∧ 1 ≤ flags.featureExtractTasksNum.toInt32

instance (columns : List Nat) (flags : PredictFlags) : Decidable (Attaches columns flags) :=
  inferInstanceAs (Decidable (_ ∨ _))

theorem predict_of_extracted {flags : PredictFlags} {request : PredictRequest F} {schedule : List Nat}
    {itemFeatures : List (Int64 × X)} (hitems : request.itemFeatures.isEmpty = false)
    (h : Model.extractFeaturesInParallel model.extractItemFeatures [] request flags.minItemsPerThread.toInt32
      flags.featureExtractTasksNum.toInt32 schedule = some itemFeatures)
    (response : PredictResponse (PredictResults Dbl)) :
    model.predict flags response request schedule = model.predictExamples response itemFeatures request.reqId := by
  simp [predict, hitems, h]

theorem predictOneByOne_empty {request : PredictRequest F} (h : request.itemFeatures.isEmpty)
    (response : PredictResponse (PredictResults Dbl)) : model.predictOneByOne response request = some response := by
  have hnil : request.itemFeatures.toList = [] := by
    rw [← List.isEmpty_iff, ExtTreeMap.isEmpty_toList, h]
  rw [predictOneByOne, hnil]
  rfl

theorem equalsOneByOne_of_attaches {toDouble : Flt → Dbl} {columns : List Nat} {flags : PredictFlags}
    (h : Attaches columns flags) : EqualsOneByOne F X toDouble columns flags := by
  intro model session response request schedule itemFeatures _ hrow hcol hsize hext
  by_cases hitems : request.itemFeatures.isEmpty = true
  · exact ⟨response, response, by simp [predict, hitems], predictOneByOne_empty hitems response, rfl⟩
  rw [predict_of_extracted (by simpa using hitems) hext]
  rcases h with hother | ⟨hone, hmin, hmax⟩
  · rw [← hcol] at hother
    exact ⟨response, response, predictExamples_other hrow hother _ _ _, predictOneByOne_other hrow hother _ _, rfl⟩
  · rw [hone] at hcol
    obtain ⟨v, hv⟩ := exists_column hcol
    obtain ⟨out', hout', hres⟩ := predictOneByOne_first hrow hcol (fun x => ⟨[], hv x⟩) response request
    refine ⟨_, out', predictExamples_column hrow hcol hv _ _ _, hout', ?_⟩
    rw [hres]
    have hperm := Model.extract_perm _ hsize hmin hmax hext
    rw [List.nil_append] at hperm
    -- the keys of the pairs are those of different items, so their order does not matter
    have hkeys : (itemFeatures.map (·.1)).Nodup := (hperm.map _).nodup_iff.mpr (Model.nodup_extract _ request)
    refine insertAll_perm ?_ (hperm.map _) response.resultsMap
    simpa [Function.comp_def] using hkeys

/-! ## More columns -/

section Uniform

variable (toDouble : Flt → Dbl) (x : X)

/-- One by one, every item gets the first element. -/
theorem predictOneByOne_uniform (t : Flt) (rest : List Flt) {request : PredictRequest F} {id : Int64}
    (hid : id ∈ request.itemFeatures) :
    ∃ out, (uniform toDouble x (t :: rest)).predictOneByOne {} request = some out ∧
      out.resultsMap[id]? = some ((uniform (F := F) toDouble x (t :: rest)).resultOf t) := by
  obtain ⟨out, hout, hres⟩ := predictOneByOne_first (rowWise_uniform (F := F) toDouble x (t :: rest)) rfl
    (v := fun _ => t) (fun _ => ⟨rest, rfl⟩) {} request
  refine ⟨out, hout, ?_⟩
  have hmem : id ∈ request.itemFeatures.toList.map (·.1) := by
    rw [ExtTreeMap.map_fst_toList_eq_keys]
    exact ExtTreeMap.mem_keys.mpr hid
  rw [hres, extractOneByOne_uniform]
  refine getElem?_insertAll_of_forall ?_ (.inl ?_)
  · intro p hp _
    obtain ⟨e, -, rfl⟩ := List.mem_map.mp hp
    rfl
  · rw [List.map_map, List.map_map]
    exact hmem

theorem resultOf_uniform_inj (h0 : ((0 : Dbl) == 0) = true) {row : List Flt} {a b : Flt}
    (h : (uniform (F := F) toDouble x row).resultOf a = (uniform (F := F) toDouble x row).resultOf b) :
    toDouble a = toDouble b := by
  have hctr : ∀ t, (uniform (F := F) toDouble x row).ctr t = toDouble t := by simp [ctr, uniform, bne, h0]
  have hget := congrArg (fun r : PredictResults Dbl => r.preds["ctr"]?) h
  simpa [resultOf, hctr] using hget

/-- Two items, of the same features. -/
def pairRequest (features : F) : PredictRequest F :=
  { itemFeatures := {(1, features), (2, features)}, commonFeatures := features }

theorem toList_pairRequest (features : F) :
    (pairRequest features).itemFeatures.toList = [(1, features), (2, features)] := rfl

theorem predictOneByOne_pair_nil (features : F) :
    (uniform toDouble x []).predictOneByOne {} (pairRequest features) = none := by
  rw [predictOneByOne, toList_pairRequest, List.foldlM_cons]
  rfl

/-- In parallel, without features nothing is written. -/
theorem predictExamples_nil {row : List Flt} {reqId : String} {out : PredictResponse (PredictResults Dbl)}
    (h : (uniform (F := F) toDouble x row).predictExamples {} [] reqId = some (true, out)) : out.resultsMap = ∅ := by
  rw [predictExamples_one (rowWise_uniform toDouble x row) rfl] at h
  simp only [fillResults, Option.map_some, Option.some.injEq, Prod.mk.injEq, true_and] at h
  rw [← h]

/-- The second example gets the second element, which is of the first one's row. -/
theorem predictExamples_pair {a b : Flt} {rest : List Flt} {e₁ e₂ : Int64 × X} {reqId : String}
    {out : PredictResponse (PredictResults Dbl)}
    (h : (uniform (F := F) toDouble x (a :: b :: rest)).predictExamples {} [e₁, e₂] reqId = some (true, out)) :
    out.resultsMap[e₂.1]? = some ((uniform (F := F) toDouble x (a :: b :: rest)).resultOf b) := by
  rw [predictExamples_one (rowWise_uniform toDouble x _) rfl] at h
  simp only [fillResults, Tensor.at?, Session.elements, uniformSession, List.flatMap_cons, List.getElem?_cons_zero,
    Option.getD_some, List.cons_append, List.getElem?_cons_succ, Option.bind_eq_bind, Option.bind_some, Option.map_some,
    Option.some.injEq, Prod.mk.injEq, true_and] at h
  rw [← h]
  simp [resultOf]

end Uniform

theorem exists_pair_of_perm {α : Type} {l : List α} {a b : α} (h : l.Perm [a, b]) : ∃ c d, l = [c, d] ∧ (d = a ∨ d = b) := by
  obtain ⟨c, d, rfl⟩ := List.length_eq_two.mp h.length_eq
  exact ⟨c, d, rfl, by simpa using h.mem_iff.mp (List.mem_cons_of_mem c List.mem_cons_self)⟩

theorem size_pairRequest (features : F) : (pairRequest features).itemFeatures.size < 2 ^ 32 := by
  rw [← ExtTreeMap.length_toList, toList_pairRequest]
  exact Nat.lt_of_le_of_lt (Nat.le_refl 2) (by decide)

theorem mem_pairRequest (features : F) {id : Int64} (h : id = 1 ∨ id = 2) : id ∈ (pairRequest features).itemFeatures := by
  rw [← ExtTreeMap.mem_keys, ← ExtTreeMap.map_fst_toList_eq_keys, toList_pairRequest]
  simpa using h

/-- What the equality says of a session whose rows are all `row`. -/
theorem uniform_agrees {toDouble : Flt → Dbl} {w : Nat} {flags : PredictFlags}
    (h : EqualsOneByOne F X toDouble [w] flags) (features : F) (x : X) (row : List Flt) (hrow : row.length = w) :
    ∃ schedule itemFeatures out out',
      Model.extractFeaturesInParallel (uniform toDouble x row).extractItemFeatures [] (pairRequest features)
        flags.minItemsPerThread.toInt32 flags.featureExtractTasksNum.toInt32 schedule = some itemFeatures ∧
      (uniform (F := F) toDouble x row).predictExamples {} itemFeatures "" = some (true, out) ∧
      (uniform toDouble x row).predictOneByOne {} (pairRequest features) = some out' ∧
      out.resultsMap = out'.resultsMap := by
  obtain ⟨schedule, hs⟩ := Model.exists_schedule (uniform (F := F) toDouble x row).extractItemFeatures []
    (pairRequest features) flags.minItemsPerThread.toInt32 flags.featureExtractTasksNum.toInt32
  obtain ⟨itemFeatures, hext⟩ := Option.isSome_iff_exists.mp hs
  obtain ⟨out, out', hpred, hseq, heq⟩ := h (uniform toDouble x row) (uniformSession row) {} (pairRequest features)
    schedule itemFeatures rfl (rowWise_uniform _ _ _) (congrArg (fun n => [n]) hrow) (size_pairRequest features) hext
  rw [predict_of_extracted rfl hext] at hpred
  exact ⟨schedule, itemFeatures, out, out', hext, hpred, hseq, heq⟩

theorem attaches_of_equalsOneByOne [Inhabited F] [Inhabited X] {toDouble : Flt → Dbl} {a b : Flt}
    (hab : toDouble a ≠ toDouble b) (h0 : ((0 : Dbl) == 0) = true) {columns : List Nat} {flags : PredictFlags}
    (h : EqualsOneByOne F X toDouble columns flags) : Attaches columns flags := by
  by_cases hone : columns.length = 1
  swap
  · exact .inl hone
  obtain ⟨w, rfl⟩ := List.length_eq_one_iff.mp hone
  -- the first element of every row is `a`, and the others are `b`
  cases w with
  | zero =>
    obtain ⟨_, _, _, _, -, -, hseq, -⟩ := uniform_agrees h default default [] rfl
    rw [predictOneByOne_pair_nil] at hseq
    cases hseq
  | succ w =>
    obtain ⟨schedule, itemFeatures, out, out', hext, hpred, hseq, heq⟩ :=
      uniform_agrees h default default (a :: List.replicate w b) (by simp)
    have hfirst : ∀ id : Int64, id = 1 ∨ id = 2 → out.resultsMap[id]? =
        some ((uniform (F := F) toDouble (default : X) (a :: List.replicate w b)).resultOf a) := by
      intro id hid
      obtain ⟨out'', hseq', hget⟩ := predictOneByOne_uniform toDouble (default : X) a
        (List.replicate w b) (mem_pairRequest (default : F) hid)
      rw [hseq] at hseq'
      cases hseq'
      rwa [heq]
    by_cases hbad : flags.minItemsPerThread.toInt32 < 1 ∨ flags.featureExtractTasksNum.toInt32 < 1
    · rw [Model.extract_invalid _ hbad] at hext
      cases hext
      have hget := hfirst 1 (.inl rfl)
      rw [predictExamples_nil toDouble default hpred] at hget
      simp at hget
    · have hmin : 1 ≤ flags.minItemsPerThread.toInt32 := Int32.not_lt.mp fun hlt => hbad (.inl hlt)
      have hmax : 1 ≤ flags.featureExtractTasksNum.toInt32 := Int32.not_lt.mp fun hlt => hbad (.inr hlt)
      cases w with
      | zero => exact .inr ⟨rfl, hmin, hmax⟩
      | succ w =>
        have hperm := Model.extract_perm _ (size_pairRequest (default : F)) hmin hmax hext
        rw [List.nil_append, extractOneByOne_uniform, toList_pairRequest] at hperm
        obtain ⟨e₁, e₂, rfl, he⟩ := exists_pair_of_perm hperm
        have hsecond := predictExamples_pair toDouble default hpred
        have hkey : e₂.1 = 1 ∨ e₂.1 = 2 := he.imp (congrArg Prod.fst) (congrArg Prod.fst)
        rw [hfirst e₂.1 hkey] at hsecond
        exact absurd (resultOf_uniform_inj toDouble default h0 (Option.some.inj hsecond)) hab

theorem equalsOneByOne_iff [Inhabited F] [Inhabited X] {toDouble : Flt → Dbl} {a b : Flt}
    (hab : toDouble a ≠ toDouble b) (h0 : ((0 : Dbl) == 0) = true) (columns : List Nat) (flags : PredictFlags) :
    EqualsOneByOne F X toDouble columns flags ↔ Attaches columns flags :=
  ⟨attaches_of_equalsOneByOne hab h0, equalsOneByOne_of_attaches⟩

end TFModelBase

/-! ## CatBoost -/

namespace CatboostModel

variable {model : CatboostModel Flt Dbl}

theorem calcItem_eq_some_iff {itemFeatures : Features Dbl} {pred : Dbl} :
    model.calcItem itemFeatures = some pred ↔
      ∃ floats strings, itemFeatures = [floats, strings] ∧ floats.featureType = .floatList ∧
        strings.featureType = .stringList ∧
        model.catboostCalcer (floats.floatValues.map model.toFloat) strings.stringValues = .ok pred := by
  constructor
  · intro h
    unfold calcItem at h
    split at h
    · rename_i floats strings
      split at h
      · cases h
      · rename_i htypes
        simp only [not_or, Decidable.not_not] at htypes
        refine ⟨floats, strings, rfl, htypes.1, htypes.2, ?_⟩
        split at h
        · rename_i v hv
          rw [hv, Option.some.inj h]
        · cases h
    · cases h
  · intro h
    obtain ⟨floats, strings, rfl, hfloats, hstrings, hcalc⟩ := h
    simp [calcItem, hfloats, hstrings, hcalc]

variable (model) in
/-- The entries of some items, in key order. -/
def entries (items : List (Int64 × Features Dbl)) : List (Int64 × ExtTreeMap String Dbl) :=
  items.filterMap fun item => (model.calcItem item.2).map fun pred => (item.1, ({("ctr", pred)} : ExtTreeMap String Dbl))

theorem mem_entries {items : List (Int64 × Features Dbl)} {id : Int64} {preds : ExtTreeMap String Dbl compare} :
    (id, preds) ∈ model.entries items ↔
      ∃ fs pred, (id, fs) ∈ items ∧ model.calcItem fs = some pred ∧
        preds = ({("ctr", pred)} : ExtTreeMap String Dbl) := by
  simp only [entries, List.mem_filterMap, Option.map_eq_some_iff, Prod.mk.injEq, Prod.exists]
  constructor
  · intro h
    obtain ⟨_, fs, hmem, pred, hpred, rfl, rfl⟩ := h
    exact ⟨fs, pred, hmem, hpred, rfl⟩
  · intro h
    obtain ⟨fs, pred, hmem, hpred, rfl⟩ := h
    exact ⟨id, fs, hmem, pred, hpred, rfl, rfl⟩

variable (model) in
/-- What the task of a range returns. -/
def rangeMap (items : List (Int64 × Features Dbl)) (range : Range) : ExtTreeMap Int64 (ExtTreeMap String Dbl) :=
  emplaceAll ∅ (model.entries (sliceItems items range))

theorem rangePredict_eq (items : List (Int64 × Features Dbl)) (range : Range) :
    model.rangePredict items range () = .ok (model.rangeMap items range) := by
  rw [rangePredict, rangeMap, emplaceAll, entries, List.foldl_filterMap]
  congr 3
  funext rangeRes item
  cases model.calcItem item.2 <;> rfl

theorem functional_entries {items : ExtTreeMap Int64 (Features Dbl)} {l : List (Int64 × Features Dbl)}
    (hl : l ⊆ items.toList) : ∀ p ∈ model.entries l, ∀ q ∈ model.entries l, p.1 = q.1 → p.2 = q.2 := by
  intro p hp q hq hkey
  obtain ⟨fs, pred, hfs, hpred, hp2⟩ := mem_entries.mp hp
  obtain ⟨fs', pred', hfs', hpred', hq2⟩ := mem_entries.mp hq
  have hsame : fs = fs' := functional_toList items _ (hl hfs) _ (hl hfs') hkey
  subst hsame
  rw [hpred] at hpred'
  rw [hp2, hq2, Option.some.inj hpred']

theorem sliceItems_subset (items : List (Int64 × Features Dbl)) (range : Range) : sliceItems items range ⊆ items :=
  fun _ h => List.mem_of_mem_drop (List.mem_of_mem_take h)

theorem getElem?_collect_cons (m : ExtTreeMap Int64 (PredictResults Dbl))
    (r : ExtTreeMap Int64 (ExtTreeMap String Dbl)) (id : Int64) :
    (emplaceAll m (r.toList.map fun t => (t.1, { preds := t.2 })))[id]? = m[id]?.or (r[id]?.map PredictResults.mk) := by
  have hmap : (r.toList.map fun t => (t.1, ({ preds := t.2 } : PredictResults Dbl))) =
      (r.map fun _ preds => PredictResults.mk preds).toList :=
    (ExtTreeMap.toList_map (t := r) (f := fun _ preds => PredictResults.mk preds)).symm
  rw [hmap, getElem?_emplaceAll_toList, ExtTreeMap.getElem?_map]

/-- Where the ranges' maps and what is there agree with one function, the results are
    all that there is. -/
theorem collectResults_some_iff {g : Int64 → Option (PredictResults Dbl)}
    {m : ExtTreeMap Int64 (PredictResults Dbl)} {rs : List (ExtTreeMap Int64 (ExtTreeMap String Dbl))}
    (hm : ∀ id v, m[id]? = some v → g id = some v)
    (hrs : ∀ r ∈ rs, ∀ id preds, r[id]? = some preds → g id = some ⟨preds⟩) {id : Int64} {v : PredictResults Dbl} :
    (collectResults m (rs.map .ok))[id]? = some v ↔ m[id]? = some v ∨ ∃ r ∈ rs, r[id]? = some v.preds := by
  induction rs generalizing m with
  | nil => simp [collectResults]
  | cons r rs ih =>
    have hnew : ∀ (id : Int64) (v : PredictResults Dbl), (emplaceAll m (r.toList.map fun t => (t.1, { preds := t.2 })))[id]? = some v ↔
        m[id]? = some v ∨ m[id]? = none ∧ r[id]? = some v.preds := by
      intro id v
      rw [getElem?_collect_cons, Option.or_eq_some_iff, Option.map_eq_some_iff]
      refine or_congr Iff.rfl (and_congr_right fun _ => ?_)
      constructor
      · intro h
        obtain ⟨preds, hpreds, rfl⟩ := h
        exact hpreds
      · intro h
        exact ⟨v.preds, h, rfl⟩
    have hagree : ∀ id v, (emplaceAll m (r.toList.map fun t => (t.1, { preds := t.2 })))[id]? = some v →
        g id = some v := by
      intro id v hv
      rcases (hnew id v).mp hv with hv | ⟨-, hv⟩
      · exact hm id v hv
      · exact hrs r List.mem_cons_self id v.preds hv
    rw [List.map_cons, collectResults, ih hagree (fun r' hr' => hrs r' (List.mem_cons_of_mem _ hr')), hnew]
    simp only [List.mem_cons, exists_eq_or_imp]
    constructor
    · intro h
      rcases h with (h | ⟨-, h⟩) | h
      · exact .inl h
      · exact .inr (.inl h)
      · exact .inr (.inr h)
    · intro h
      rcases h with h | h | h
      · exact .inl (.inl h)
      · -- an entry that was there has the same value
        cases hmid : m[id]? with
        | none => exact .inl (.inr ⟨rfl, h⟩)
        | some u =>
          have hu := hm id u hmid
          rw [hrs r List.mem_cons_self id v.preds h] at hu
          exact .inl (.inl hu.symm)
      · exact .inr h

/-- Whatever the completion order, the map has one entry for each well-formed item whose
    `Calc` does not throw. -/
def EqualsPerItem (Flt Dbl : Type) (flags : PredictFlags) : Prop :=
  ∀ (model : CatboostModel Flt Dbl) (response : PredictResponse (PredictResults Dbl))
    (request : PredictRequest (Features Dbl)) (completed : List (Nat × Unit)),
    request.itemFeatures.size < 2 ^ 32 →
    Completes (predictRanges flags request.itemFeatures.size)
      (List.replicate (predictRanges flags request.itemFeatures.size).length ()) completed →
    ∃ out, model.predict flags response request completed = some (true, out) ∧
      (request.itemFeatures.isEmpty = true → out = response) ∧
      (request.itemFeatures.isEmpty = false → ∀ (id : Int64) (v : PredictResults Dbl), out.resultsMap[id]? = some v ↔
        ∃ (floats strings : Feature Dbl) (pred : Dbl), request.itemFeatures[id]? = some [floats, strings] ∧
          floats.featureType = .floatList ∧ strings.featureType = .stringList ∧
          model.catboostCalcer (floats.floatValues.map model.toFloat) strings.stringValues = .ok pred ∧
          v = { preds := {("ctr", pred)} })

theorem outcomes_rangePredict (items : List (Int64 × Features Dbl)) (ranges : List Range) :
    outcomes (model.rangePredict items) ranges (List.replicate ranges.length ()) =
      (ranges.map (model.rangeMap items)).map .ok := by
  induction ranges with
  | nil => rfl
  | cons range ranges ih =>
    rw [outcomes, List.length_cons, List.replicate_succ, List.zipWith_cons_cons, rangePredict_eq]
    exact congrArg _ ih

theorem predict_ranges {flags : PredictFlags} {request : PredictRequest (Features Dbl)}
    (hitems : request.itemFeatures.isEmpty = false) {completed : List (Nat × Unit)}
    (hc : Completes (predictRanges flags request.itemFeatures.size)
      (List.replicate (predictRanges flags request.itemFeatures.size).length ()) completed)
    (response : PredictResponse (PredictResults Dbl)) :
    model.predict flags response request completed = some (true, { response with
      resultsMap := collectResults ∅ (((predictRanges flags request.itemFeatures.size).map
        (model.rangeMap request.itemFeatures.toList)).map .ok) }) := by
  have hrun := run_perm (model.rangePredict request.itemFeatures.toList) (fun _ _ => ([] : List Unit))
    (predictRanges flags request.itemFeatures.size) hc
  rw [outcomes_rangePredict] at hrun
  rw [predict, if_neg (by simp [hitems])]
  simp only [hrun, Option.bind_eq_bind, Option.bind_some, collectAll_all]
  rfl

theorem getElem?_rangeMap {items : ExtTreeMap Int64 (Features Dbl)} {range : Range} {id : Int64}
    {preds : ExtTreeMap String Dbl compare} :
    (model.rangeMap items.toList range)[id]? = some preds ↔
      (id, preds) ∈ model.entries (sliceItems items.toList range) :=
  emplaceAll_eq_some_iff (functional_entries (sliceItems_subset items.toList range))

/-- The ranges' maps together hold the entries of all items. -/
theorem exists_rangeMap_iff {items : ExtTreeMap Int64 (Features Dbl)} {ranges : List Range}
    (hall : ranges.flatMap (sliceItems items.toList) = items.toList) {id : Int64}
    {preds : ExtTreeMap String Dbl compare} :
    (∃ r ∈ ranges.map (model.rangeMap items.toList), r[id]? = some preds) ↔
      (id, preds) ∈ model.entries items.toList := by
  have hmem : ∀ fs, (id, fs) ∈ items.toList ↔ ∃ range ∈ ranges, (id, fs) ∈ sliceItems items.toList range := by
    intro fs
    rw [← List.mem_flatMap, hall]
  simp only [List.mem_map, exists_exists_and_eq_and, getElem?_rangeMap, mem_entries, hmem]
  constructor
  · intro h
    obtain ⟨range, hrange, fs, pred, hfs, hrest⟩ := h
    exact ⟨fs, pred, ⟨range, hrange, hfs⟩, hrest⟩
  · intro h
    obtain ⟨fs, pred, ⟨range, hrange, hfs⟩, hrest⟩ := h
    exact ⟨range, hrange, fs, pred, hfs, hrest⟩

theorem equalsPerItem_of_flags {flags : PredictFlags} (hmin : flags.minItemsPerThread.toUInt64.toUInt32 ≠ 0)
    (hmax : flags.featureExtractTasksNum.toUInt64.toUInt32 ≠ 0) : EqualsPerItem Flt Dbl flags := by
  intro model response request completed hsize hc
  cases hitems : request.itemFeatures.isEmpty with
  | true => exact ⟨response, by simp [predict, hitems], fun _ => rfl, nofun⟩
  | false =>
    refine ⟨_, predict_ranges hitems hc response, nofun, fun _ id v => ?_⟩
    have hall : (predictRanges flags request.itemFeatures.size).flatMap (sliceItems request.itemFeatures.toList) =
        request.itemFeatures.toList := flatMap_slices hsize hmin hmax
    have hentry : ∀ (id : Int64) (preds : ExtTreeMap String Dbl compare),
        (id, preds) ∈ model.entries request.itemFeatures.toList ↔
        ∃ fs pred, request.itemFeatures[id]? = some fs ∧ model.calcItem fs = some pred ∧
          preds = ({("ctr", pred)} : ExtTreeMap String Dbl) := by
      simp only [mem_entries, ExtTreeMap.mem_toList_iff_getElem?_eq_some, implies_true]
    rw [collectResults_some_iff (g := fun id => (request.itemFeatures[id]?.bind model.calcItem).map fun pred =>
      ⟨{("ctr", pred)}⟩) (by simp) ?_, exists_rangeMap_iff hall, hentry]
    · simp only [ExtTreeMap.getElem?_empty, reduceCtorEq, false_or, calcItem_eq_some_iff]
      constructor
      · intro h
        obtain ⟨fs, pred, hfs, ⟨floats, strings, rfl, hfloats, hstrings, hcalc⟩, hv⟩ := h
        exact ⟨floats, strings, pred, hfs, hfloats, hstrings, hcalc, congrArg PredictResults.mk hv⟩
      · intro h
        obtain ⟨floats, strings, pred, hfs, hfloats, hstrings, hcalc, rfl⟩ := h
        exact ⟨_, pred, hfs, ⟨floats, strings, rfl, hfloats, hstrings, hcalc⟩, rfl⟩
    · intro r hr id preds hget
      obtain ⟨fs, pred, hfs, hpred, rfl⟩ := (hentry id preds).mp ((exists_rangeMap_iff hall).mp ⟨r, hr, hget⟩)
      simp [hfs, hpred]

/-- An item that is well formed. -/
def plainItem : PredictRequest (Features Dbl) :=
  { itemFeatures := {(1, [{ featureType := .floatList }, { featureType := .stringList }])}, commonFeatures := [] }

theorem flags_of_equalsPerItem [Inhabited Flt] [Inhabited Dbl] {flags : PredictFlags}
    (h : EqualsPerItem Flt Dbl flags) :
    flags.minItemsPerThread.toUInt64.toUInt32 ≠ 0 ∧ flags.featureExtractTasksNum.toUInt64.toUInt32 ≠ 0 := by
  by_contra hbad
  have hnone : predictRanges flags 1 = [] := by
    have hsplit : ¬ (splitSlice (UInt32.ofNat 1) flags.minItemsPerThread.toUInt64.toUInt32
        flags.featureExtractTasksNum.toUInt64.toUInt32).isSome = true := fun hs => hbad (splitSlice_isSome.mp hs)
    rw [predictRanges, Option.not_isSome_iff_eq_none.mp hsplit]
    rfl
  have hsize : (plainItem : PredictRequest (Features Dbl)).itemFeatures.size = 1 := rfl
  let model : CatboostModel Flt Dbl := ⟨fun _ _ => .ok default, fun _ => default⟩
  have hc : Completes (predictRanges flags (plainItem : PredictRequest (Features Dbl)).itemFeatures.size)
      (List.replicate (predictRanges flags (plainItem : PredictRequest (Features Dbl)).itemFeatures.size).length ()) [] := by
    rw [hsize, hnone]
    exact ⟨rfl, List.Perm.refl _⟩
  obtain ⟨out, hout, -, hres⟩ := h model {} plainItem [] (by rw [hsize]; decide) hc
  rw [predict_ranges rfl hc, hsize, hnone] at hout
  cases hout
  have hone := (hres rfl 1 ⟨{("ctr", default)}⟩).mpr
    ⟨{ featureType := .floatList }, { featureType := .stringList }, default, rfl, rfl, rfl, rfl, rfl⟩
  simp [collectResults] at hone

theorem equalsPerItem_iff [Inhabited Flt] [Inhabited Dbl] (flags : PredictFlags) :
    EqualsPerItem Flt Dbl flags ↔
      flags.minItemsPerThread.toUInt64.toUInt32 ≠ 0 ∧ flags.featureExtractTasksNum.toUInt64.toUInt32 ≠ 0 :=
  ⟨flags_of_equalsPerItem, fun h => equalsPerItem_of_flags h.1 h.2⟩

end CatboostModel

/-! ## Parallel and sequential -/

section Parallel

variable [OfNat Dbl 0] [OfNat Dbl 1] [Add Dbl] [Sub Dbl] [Div Dbl] [BEq Dbl]

def eightTasks : PredictFlags := { featureExtractTasksNum := 8 }

/-- The tasks extract each item once. The TensorFlow models then answer as one by one
    exactly where no output is read at all, or the one output has one column and the flags
    are positive as `int`; the CatBoost models exactly where the flags are not zero as
    `unsigned`. -/
theorem parallel_equals_sequential_iff [Inhabited F] [Inhabited X] (toDouble : Flt → Dbl) {a b : Flt}
    (hab : toDouble a ≠ toDouble b) (h0 : ((0 : Dbl) == 0) = true) :
    (∀ (extractItemFeatures : F → F → Option X) (extracted : List (Int64 × X)) (request : PredictRequest F)
      (minItemPerTask maxTasksNum : Int32), request.itemFeatures.size < 2 ^ 32 → 1 ≤ minItemPerTask → 1 ≤ maxTasksNum →
      (∃ schedule, (Model.extractFeaturesInParallel extractItemFeatures extracted request minItemPerTask maxTasksNum
        schedule).isSome) ∧
      ∀ schedule out, Model.extractFeaturesInParallel extractItemFeatures extracted request minItemPerTask maxTasksNum
        schedule = some out → out.Perm (extracted ++ Model.extractOneByOne extractItemFeatures request)) ∧
    ∀ flags : PredictFlags, 1 ≤ flags.minItemsPerThread → 1 ≤ flags.featureExtractTasksNum →
      (∀ columns, TFModelBase.EqualsOneByOne F X toDouble columns flags ↔ TFModelBase.Attaches columns flags) ∧
      (CatboostModel.EqualsPerItem Flt Dbl flags ↔
        flags.minItemsPerThread.toUInt64.toUInt32 ≠ 0 ∧ flags.featureExtractTasksNum.toUInt64.toUInt32 ≠ 0) := by
  refine ⟨?_, ?_⟩
  · intro extractItemFeatures extracted request minItemPerTask maxTasksNum hsize hmin hmax
    exact ⟨Model.exists_schedule _ _ _ _ _, fun schedule out h => Model.extract_perm _ hsize hmin hmax h⟩
  · intro flags _ _
    let _ : Inhabited Flt := ⟨a⟩
    let _ : Inhabited Dbl := ⟨toDouble a⟩
    exact ⟨fun columns => TFModelBase.equalsOneByOne_iff hab h0 columns flags, CatboostModel.equalsPerItem_iff flags⟩

theorem parallel_equals_sequential_eight_tasks :
    TFModelBase.EqualsOneByOne Unit Unit (id : Int → Int) [1] eightTasks ∧
      ¬ TFModelBase.EqualsOneByOne Unit Unit (id : Int → Int) [2] eightTasks ∧
      CatboostModel.EqualsPerItem Int Int eightTasks := by
  have h := (parallel_equals_sequential_iff (F := Unit) (X := Unit) (id : Int → Int) (a := 0) (b := 1)
    (by decide) (by decide)).2 eightTasks (by decide) (by decide)
  exact ⟨(h.1 [1]).mpr (by decide), fun h2 => absurd ((h.1 [2]).mp h2) (by decide), h.2.mpr (by decide)⟩

end Parallel

/-- Two columns: the second item gets the second element of the first item's row. -/
theorem second_item_gets_a_stray_element :
    ¬ ∀ (model : TFModelBase Unit Unit Int Int) (session : Session Unit Int)
      (response : PredictResponse (PredictResults Int)) (request : PredictRequest Unit) (flags : PredictFlags)
      (schedule : List Nat) (itemFeatures : List (Int64 × Unit)),
      model.RowWise session → request.itemFeatures.size < 2 ^ 32 → 1 ≤ flags.minItemsPerThread →
      1 ≤ flags.featureExtractTasksNum →
      Model.extractFeaturesInParallel model.extractItemFeatures [] request flags.minItemsPerThread.toInt32
        flags.featureExtractTasksNum.toInt32 schedule = some itemFeatures →
      ∃ out out', model.predict flags response request schedule = some (true, out) ∧
        model.predictOneByOne response request = some out' ∧ out.resultsMap = out'.resultsMap := by
  intro h
  have hext : Model.extractFeaturesInParallel (TFModelBase.uniform (F := Unit) (id : Int → Int) () [10, 20]).extractItemFeatures
      [] (TFModelBase.pairRequest ()) eightTasks.minItemsPerThread.toInt32 eightTasks.featureExtractTasksNum.toInt32
      [0, 0] = some [(1, ()), (2, ())] := by decide
  obtain ⟨out, out', hout, hout', heq⟩ := h (TFModelBase.uniform id () [10, 20])
    (TFModelBase.uniformSession [10, 20]) {} (TFModelBase.pairRequest ()) eightTasks [0, 0]
    [(1, ()), (2, ())] (TFModelBase.rowWise_uniform _ _ _) (by decide) (by decide) (by decide) hext
  rw [TFModelBase.predict_of_extracted rfl hext] at hout
  have hsecond := TFModelBase.predictExamples_pair id () hout
  obtain ⟨out'', hseq, hfirst⟩ := TFModelBase.predictOneByOne_uniform (id : Int → Int) () 10 [20]
    (TFModelBase.mem_pairRequest () (.inr rfl))
  rw [hout'] at hseq
  cases hseq
  rw [heq, hfirst] at hsecond
  exact absurd (TFModelBase.resultOf_uniform_inj id () (by decide) (Option.some.inj hsecond)) (by decide)

end PredictorService.Server
