/-
  PredictorService.Server.Service — the entry points of the server
  (predictor/server/predictor_service/predictor_service.cc) with the snapshots that they
  take of requests and responses (predictor/server/feature_extractor/fea_extract_snapshot.cc).

  A server forwards what it is asked in router mode (`PredictorService.Server.PredictorRouter`)
  and answers itself otherwise (`PredictorService.Server.ModelManager`). With a frequency it
  also sends some requests and some responses to the snapshot producer, for the two to be
  joined by request id later. Which ones is decided by the id alone: `rand_r` of its hash.
  The messages are sent by a thread pool, so their order means nothing.

  - `answers_eachOnce`: without exceptions `predict` answers every request once, with nothing
    where the moment of its round downgrades it, and otherwise with what the model it names
    made of it.
  - `snapshots_join`: the responses of which a snapshot is taken have the ids of the requests
    of which one is taken, each as often; of a request for several models there is exactly
    one response snapshot for each model.

  `rand_r` and `std::to_string(double)` are parameters. Metrics, logs and the example
  snapshots, which send every n-th request whole, are left out.
-/

import PredictorService.Server.ModelManagerProofs
import PredictorService.Server.Models
import PredictorService.Server.RouterDispatch
import PredictorService.Thirdparty.City

namespace PredictorService.Server

open Std (ExtTreeMap)
open PredictorService.FeatureMaster
open PredictorService.Lib
open PredictorService.Lib.Futures
open PredictorService.Thirdparty (cityHash64)

variable {Dbl V : Type}

def SERVER_MODE : String := "ServerMode"
def ROUTER_MODE : String := "RouterMode"

structure CalculateVectorRequests (F : Type) where
  reqs : List (CalculateVectorRequest F) := []
  requestOption : RequestOption := {}
  context : Option Context := none

structure CalculateVectorResponses (V : Type) where
  resps : List (CalculateVectorResponse V) := []
  deriving DecidableEq

structure CalculateBatchVectorRequests (F : Type) where
  reqs : List (CalculateBatchVectorRequest F) := []
  requestOption : RequestOption := {}
  context : Option Context := none

structure CalculateBatchVectorResponses (V : Type) where
  resps : List (CalculateBatchVectorResponse V) := []
  deriving DecidableEq

namespace PredictorServiceSvIf

/-- The flags the entry points read, and what they call of the C library. -/
structure Config (Dbl : Type) where
  workMode : String := SERVER_MODE
  feaExtractSnapshotFrequency : Int32 := 0
  /-- `rand_r` of a fresh seed. -/
  randR : UInt32 → Int32
  toString : Dbl → String

/-! ## Snapshots -/

inductive SnapshotType where
  | originalFeatures
  | predictResults
  deriving DecidableEq, Repr

/-- A message to the snapshot producer. A response's names its model, which is the empty
    name outside `multiPredict`. -/
structure Snapshot where
  reqId : String
  modelName : Option String := none
  type : SnapshotType
  fields : List String
  deriving DecidableEq, Repr

def Snapshot.text (m : Snapshot) : String :=
  let model := (m.modelName.map fun name => "\tModelName:" ++ name).getD ""
  let type :=
    match m.type with
    | .originalFeatures => "OriginalFeatures"
    | .predictResults => "PredictResults"
  "ReqId:" ++ m.reqId ++ model ++ "\tType:" ++ type ++ String.join (m.fields.map ("\t" ++ ·))

def CTRL_A : String := "\x01"
def CTRL_B : String := "\x02"

/-- `pop_back` of a string that is not empty. -/
def popBack (s : String) : String := String.ofList s.toList.dropLast

/-- A loop that writes its entries with a mark behind each, and takes the last mark away. -/
def marked (mark : String) (entries : List String) : String := popBack (entries.foldl (fun s e => s ++ e ++ mark) "")

variable (c : Config Dbl)

/-- The values of a feature as text; the other lists of the feature are not looked at. -/
def valueTexts (feature : Feature Dbl) : List String :=
  match feature.featureType with
  | .stringList => feature.stringValues
  | .floatList => feature.floatValues.map c.toString
  | .int64List => feature.int64Values.map fun i => toString i.toInt
  | .other _ => []

def generateOriginalFeatures (features : Features Dbl) : String :=
  marked "|" (features.map fun feature => feature.featureName ++ ":" ++ marked ";" (valueTexts c feature))

def originalFeatureSnapshot (request : PredictRequest (Features Dbl)) : Snapshot where
  reqId := request.reqId
  type := .originalFeatures
  fields :=
    [generateOriginalFeatures c request.commonFeatures,
      marked CTRL_B (request.itemFeatures.toList.map fun item =>
        "AdId:" ++ toString item.1.toInt ++ CTRL_A ++ generateOriginalFeatures c item.2)]

def originalVectorSnapshot (request : CalculateVectorRequest (Features Dbl)) : Snapshot where
  reqId := request.reqId
  type := .originalFeatures
  fields := [generateOriginalFeatures c request.features]

def predictRespSnapshot (response : PredictResponse (PredictResults Dbl)) (modelName : String) : Snapshot where
  reqId := response.reqId
  modelName := some modelName
  type := .predictResults
  fields :=
    [marked CTRL_B (response.resultsMap.toList.map fun ad =>
      "AdId:" ++ toString ad.1.toInt ++ CTRL_A ++
        marked "|" (ad.2.preds.toList.map fun p => p.1 ++ ":" ++ c.toString p.2))]

/-- Asked only with a frequency above 0. -/
def shouldSnapshot (reqId : String) : Bool :=
  c.randR (cityHash64 reqId.toUTF8.toList).toUInt32 % c.feaExtractSnapshotFrequency = 0

/-- Of what a snapshot is taken. -/
def sampled {A : Type} (reqId : A → String) (l : List A) : List A :=
  if 0 < c.feaExtractSnapshotFrequency then l.filter fun a => shouldSnapshot c (reqId a) else []

/-! ## The entry points -/

/-- What a call ends with, and the messages it has put on the pool. -/
structure Served (A : Type) where
  result : Except Exn A
  snapshots : List Snapshot := []

/-- What a call meets: the router's map, flags and network, and the moments and completions
    of the tasks. -/
structure Env (F R V : Type) where
  services : Option (ExtTreeMap String String) := none
  flags : PredictorRouter.Flags := {}
  send : PredictorRouter.Network F R
  slices : List (Nat × PredictorRouter.Network F R) := []
  moments : Nat → ModelManager.Moment := fun _ => {}
  completed : List (Nat × World F R V) := []

variable (env : Env (Features Dbl) (PredictResults Dbl) V)

/-- The outer `none` where the router reads through the end of the context, the inner one
    while a task is pending. -/
def predict (requests : PredictRequests (Features Dbl)) :
    Option (Option (Served (PredictResponses (PredictResults Dbl)))) :=
  if c.workMode = ROUTER_MODE then
    (PredictorRouter.predict requests).map fun responses => some { result := .ok responses }
  else if requests.reqs.length = 0 then some (some { result := .ok {} })
  else some do
    let requestSnapshots := (sampled c (·.reqId) requests.reqs).map (originalFeatureSnapshot c)
    match ← ModelManager.predictMultithread requests.reqs env.moments env.completed with
    | .error e => return { result := .error e, snapshots := requestSnapshots }
    | .ok resps =>
      let responseSnapshots := (sampled c (·.reqId) resps).map fun resp => predictRespSnapshot c resp ""
      return { result := .ok { resps }, snapshots := requestSnapshots ++ responseSnapshots }

/-- The single request has the id of the whole one, also in its snapshot. -/
def multiPredict (request : MultiPredictRequest (Features Dbl)) :
    Option (Option (Served (MultiPredictResponse (PredictResults Dbl)))) :=
  if c.workMode = ROUTER_MODE then
    (PredictorRouter.multiPredict env.services env.flags env.send request env.slices).map fun result =>
      result.map fun result => { result }
  else some do
    let single := (Service.setSingleReqId request).singleRequest
    let requestSnapshots := (sampled c (·.reqId) [single]).map (originalFeatureSnapshot c)
    match ← Service.multiPredict request env.moments env.completed with
    | .error e => return { result := .error e, snapshots := requestSnapshots }
    | .ok response =>
      let responseSnapshots := (sampled c (·.reqId) [response]).flatMap fun response =>
        response.modelResponses.toList.map fun modelResponse => predictRespSnapshot c modelResponse.2 modelResponse.1
      return { result := .ok response, snapshots := requestSnapshots ++ responseSnapshots }

/-- The router has not implemented it: the responses stay empty. -/
def calculateVector (requests : CalculateVectorRequests (Features Dbl)) :
    Option (Served (CalculateVectorResponses V)) :=
  if c.workMode = ROUTER_MODE then some { result := .ok {} }
  else do
    let requestSnapshots := (sampled c (·.reqId) requests.reqs).map (originalVectorSnapshot c)
    let result ← ModelManager.calculateVector requests.reqs env.completed
    return { result := result.map fun resps => { resps }, snapshots := requestSnapshots }

def calculateBatchVector (requests : CalculateBatchVectorRequests (Features Dbl)) :
    Option (Served (CalculateBatchVectorResponses V)) :=
  if c.workMode = ROUTER_MODE then some { result := .ok {} }
  else do
    let result ← ModelManager.calculateBatchVector requests.reqs env.completed
    return { result := result.map fun resps => { resps } }

/-! ## What `predict` answers -/

section Answers

variable {R F : Type} {reqs : List (PredictRequest F)} {moments : Nat → ModelManager.Moment} {ws : List (World F R V)}
  {completed : List (Nat × World F R V)}

open ModelManager

/-- The answers of `predict_multithread`, in their order. -/
def answers (reqs : List (PredictRequest F)) (moments : Nat → Moment) (ws : List (World F R V)) :
    List (PredictResponse R) :=
  (downgraded (·.modelName) (rounds moments reqs)).map makeDownGradeResponse ++
    (values (predictOutcomes reqs moments ws)).map (·.2)

/-- No task of `predict_multithread` throws. -/
def NothingThrown (reqs : List (PredictRequest F)) (moments : Nat → Moment) (ws : List (World F R V)) : Prop :=
  ∀ v ∈ predictOutcomes reqs moments ws, v.hasException = false

/-- What a request is answered with: nothing where the moment of its round downgrades it, and
    otherwise what the model that it names makes of it. -/
def AnsweredBy (ws : List (World F R V)) (round : PredictRequest F × Moment) (response : PredictResponse R) : Prop :=
  if shouldDowngradeModel round.2 round.1.modelName then response = makeDownGradeResponse round.1
  else ∃ w ∈ ws, singlePredict w round.1.modelName round.1 = .ok (round.1.modelName, response)

/-- Each element of `l` has its own one in `l'`, which has no others. -/
def EachOnce {A B : Type} (Rel : A → B → Prop) (l : List A) (l' : List B) : Prop :=
  ∃ matched, List.Forall₂ Rel l matched ∧ matched.Perm l'

/-- Every request is answered once. -/
theorem answers_eachOnce (h : Completes (dispatched (·.modelName) (rounds moments reqs)) ws completed)
    (hok : NothingThrown reqs moments ws) :
    EachOnce (AnsweredBy ws) (rounds moments reqs) (answers reqs moments ws) := by
  let downgrades : PredictRequest F × Moment → Bool := fun round => shouldDowngradeModel round.2 round.1.modelName
  have hdowngraded : List.Forall₂ (AnsweredBy ws) ((rounds moments reqs).filter downgrades)
      ((downgraded (·.modelName) (rounds moments reqs)).map makeDownGradeResponse) := by
    rw [downgraded, List.map_map, List.forall₂_map_right_iff, List.forall₂_same]
    intro round hround
    rw [AnsweredBy, if_pos (List.mem_filter.mp hround).2]
    rfl
  have hdispatched : List.Forall₂ (AnsweredBy ws) ((rounds moments reqs).filter fun round => !downgrades round)
      ((values (predictOutcomes reqs moments ws)).map (·.2)) := by
    have hvalues : List.Forall₂ (fun request answer => ∃ w ∈ ws, singlePredict w request.modelName request =
        .ok (request.modelName, answer.2)) (dispatched (·.modelName) (rounds moments reqs))
        (values (predictOutcomes reqs moments ws)) :=
      forall₂_values_outcomes _ _ h.1 hok fun request _ w hw answer hanswer =>
        ⟨w, hw, by rw [hanswer, ← (singlePredict_ok hanswer).1]⟩
    rw [dispatched, List.forall₂_map_left_iff] at hvalues
    rw [List.forall₂_map_right_iff]
    refine ((List.forall₂_and_left _ _).mpr ⟨fun round hround => (List.mem_filter.mp hround).2, hvalues⟩).imp ?_
    rintro round answer ⟨hround, hanswer⟩
    rwa [AnsweredBy, if_neg (by simpa [downgrades] using hround)]
  exact List.perm_comp_forall₂ (List.filter_append_perm downgrades _).symm (List.rel_append hdowngraded hdispatched)

theorem AnsweredBy.reqId {round : PredictRequest F × Moment} {response : PredictResponse R}
    (h : AnsweredBy ws round response) : response.reqId = round.1.reqId := by
  unfold AnsweredBy at h
  split at h
  · rw [h]
    rfl
  · obtain ⟨w, -, hw⟩ := h
    exact (singlePredict_ok hw).2

theorem answers_reqIds (h : Completes (dispatched (·.modelName) (rounds moments reqs)) ws completed)
    (hok : NothingThrown reqs moments ws) : ((answers reqs moments ws).map (·.reqId)).Perm (reqs.map (·.reqId)) := by
  obtain ⟨matched, hmatched, hperm⟩ := answers_eachOnce h hok
  have hids : matched.map (·.reqId) = reqs.map (·.reqId) := by
    rw [← map_fst_rounds moments reqs, List.map_map, ← List.forall₂_eq_eq_eq, List.forall₂_map_left_iff,
      List.forall₂_map_right_iff]
    exact hmatched.flip.imp fun _ _ hanswer => AnsweredBy.reqId hanswer
  rw [← hids]
  exact (hperm.map _).symm

end Answers

/-! ## Snapshots of both sides -/

section Snapshots

variable {c} {env}

/-- The messages of a type. -/
def ofType (type : SnapshotType) (messages : List Snapshot) : List Snapshot := messages.filter (·.type = type)

/-- Every request of which a snapshot was taken finds one of its response, and every
    response one of its request, as often. -/
def Joined (messages : List Snapshot) : Prop :=
  ((ofType .predictResults messages).map (·.reqId)).Perm ((ofType .originalFeatures messages).map (·.reqId))

/-- Which ones are sampled depends on their ids. -/
theorem map_sampled {A : Type} (reqId : A → String) (l : List A) :
    (sampled c reqId l).map reqId =
      if 0 < c.feaExtractSnapshotFrequency then (l.map reqId).filter (shouldSnapshot c) else [] := by
  unfold sampled
  split
  · rw [List.filter_map]
    rfl
  · rfl

theorem sampled_perm {A B : Type} {f : A → String} {g : B → String} {l : List A} {l' : List B}
    (h : (l.map f).Perm (l'.map g)) : ((sampled c f l).map f).Perm ((sampled c g l').map g) := by
  rw [map_sampled, map_sampled]
  split
  · exact h.filter _
  · exact List.Perm.refl _

theorem ofType_append (type : SnapshotType) (l l' : List Snapshot) :
    ofType type (l ++ l') = ofType type l ++ ofType type l' :=
  List.filter_append ..

theorem ofType_eq_self {type : SnapshotType} {l : List Snapshot} (h : ∀ m ∈ l, m.type = type) : ofType type l = l :=
  List.filter_eq_self.mpr (by simpa using h)

theorem ofType_eq_nil {type : SnapshotType} {l : List Snapshot} (h : ∀ m ∈ l, m.type ≠ type) : ofType type l = [] :=
  List.filter_eq_nil_iff.mpr (by simpa using h)

/-- Messages of requests followed by messages of responses. -/
theorem joined_append {before after : List Snapshot} (hb : ∀ m ∈ before, m.type = .originalFeatures)
    (ha : ∀ m ∈ after, m.type = .predictResults) :
    Joined (before ++ after) ↔ (after.map (·.reqId)).Perm (before.map (·.reqId)) := by
  rw [Joined, ofType_append, ofType_append, ofType_eq_self hb, ofType_eq_self ha,
    ofType_eq_nil (fun m hm => by rw [hb m hm]; decide), ofType_eq_nil (fun m hm => by rw [ha m hm]; decide),
    List.nil_append, List.append_nil]

variable {requests : PredictRequests (Features Dbl)} {ws : List (World (Features Dbl) (PredictResults Dbl) V)}

open ModelManager

theorem predict_server (hmode : c.workMode ≠ ROUTER_MODE) (hne : requests.reqs ≠ []) :
    predict c env requests = some ((predictMultithread requests.reqs env.moments env.completed).map fun r =>
      { result := r.map fun resps => { resps }
        snapshots := (sampled c (·.reqId) requests.reqs).map (originalFeatureSnapshot c) ++
          (sampled c (·.reqId) (r.toOption.getD [])).map fun resp => predictRespSnapshot c resp "" }) := by
  have hlen : requests.reqs.length ≠ 0 := fun h => hne (List.eq_nil_of_length_eq_zero h)
  rw [predict, if_neg hmode, if_neg hlen]
  cases hr : predictMultithread requests.reqs env.moments env.completed with
  | none => rfl
  | some r =>
    cases r with
    | ok resps => rfl
    | error e =>
      have hnil : sampled c (·.reqId) ([] : List (PredictResponse (PredictResults Dbl))) = [] := by simp [sampled]
      simp [Except.map, Except.toOption, hnil]

theorem map_reqId_original (l : List (PredictRequest (Features Dbl))) :
    (l.map (originalFeatureSnapshot c)).map (·.reqId) = l.map (·.reqId) := by
  rw [List.map_map]
  rfl

theorem map_reqId_resp (l : List (PredictResponse (PredictResults Dbl))) (modelName : String) :
    (l.map fun resp => predictRespSnapshot c resp modelName).map (·.reqId) = l.map (·.reqId) := by
  rw [List.map_map]
  rfl

/-- The snapshots of a batch join exactly when no task throws, or when no request is
    sampled: then there is nothing to join. -/
theorem predict_joined_iff (hmode : c.workMode ≠ ROUTER_MODE) (hne : requests.reqs ≠ [])
    (hc : Completes (dispatched (·.modelName) (rounds env.moments requests.reqs)) ws env.completed) :
    (∃ served, predict c env requests = some (some served) ∧ Joined served.snapshots) ↔
      NothingThrown requests.reqs env.moments ws ∨ sampled c (·.reqId) requests.reqs = [] := by
  have hbefore : ∀ m ∈ (sampled c (·.reqId) requests.reqs).map (originalFeatureSnapshot c),
      m.type = .originalFeatures :=
    List.forall_mem_map.mpr fun _ _ => rfl
  have hafter : ∀ (resps : List (PredictResponse (PredictResults Dbl))), ∀ m ∈
      (sampled c (·.reqId) resps).map fun resp => predictRespSnapshot c resp "", m.type = .predictResults :=
    fun resps => List.forall_mem_map.mpr fun _ _ => rfl
  rw [predict_server hmode hne, predictMultithread_eq hc]
  simp only [Option.map_some, Option.some.injEq, exists_eq_left', joined_append hbefore (hafter _), map_reqId_original,
    map_reqId_resp]
  by_cases hok : NothingThrown requests.reqs env.moments ws
  · rw [pushResponses_ok_iff.mpr ⟨hok, rfl⟩]
    exact ⟨fun _ => .inl hok, fun _ => sampled_perm (answers_reqIds hc hok)⟩
  · -- an exception leaves no response to be sampled
    have hlost : (pushResponses (·.2) ((downgraded (·.modelName) (rounds env.moments requests.reqs)).map
        makeDownGradeResponse) (predictOutcomes requests.reqs env.moments ws)).toOption = none := by
      cases hr : pushResponses (·.2) ((downgraded (·.modelName) (rounds env.moments requests.reqs)).map
        makeDownGradeResponse) (predictOutcomes requests.reqs env.moments ws) with
      | error e => rfl
      | ok resps => exact absurd (pushResponses_ok_iff.mp hr).1 hok
    have hnil : sampled c (·.reqId) ([] : List (PredictResponse (PredictResults Dbl))) = [] := by simp [sampled]
    rw [hlost, Option.getD_none, hnil, List.map_nil, List.nil_perm, List.map_eq_nil_iff]
    simp [hok]

/-- Snapshots of this id are taken. -/
def IsSampled (c : Config Dbl) (reqId : String) : Prop :=
  0 < c.feaExtractSnapshotFrequency ∧ shouldSnapshot c reqId = true

theorem mem_sampled {A : Type} {reqId : A → String} {l : List A} {a : A} :
    a ∈ sampled c reqId l ↔ a ∈ l ∧ IsSampled c (reqId a) := by
  unfold sampled IsSampled
  split
  · rename_i h
    simp [h]
  · rename_i h
    simp [h]

variable {request : MultiPredictRequest (Features Dbl)}

/-- The messages of a request that is sampled. -/
theorem sampled_singleton {A : Type} (reqId : A → String) (a : A) (h : IsSampled c (reqId a)) :
    sampled c reqId [a] = [a] := by
  simp [sampled, h.1, h.2]

theorem sampled_singleton_eq_nil {A : Type} (reqId : A → String) (a : A) (h : ¬ IsSampled c (reqId a)) :
    sampled c reqId [a] = [] :=
  List.eq_nil_iff_forall_not_mem.mpr fun b hb => h (by
    obtain ⟨hmem, hs⟩ := mem_sampled.mp hb
    rwa [List.mem_singleton.mp hmem] at hs)

/-- The response that `multiPredict` of a request ends with when no task throws. -/
theorem service_multiPredict_merged
    (hc : Completes (dispatched id (rounds env.moments request.modelNames)) ws env.completed)
    (hok : ∀ v ∈ multiPredictOutcomes (Service.setSingleReqId request) env.moments ws, v.hasException = false) :
    ∃ merged : ExtTreeMap String (PredictResponse (PredictResults Dbl)),
      Service.multiPredict request env.moments env.completed =
        some (.ok { reqId := request.reqId, modelResponses := merged }) ∧
      (∀ p ∈ merged.toList, p.2.reqId = request.reqId) ∧ ∀ n, n ∈ merged ↔ n ∈ request.modelNames := by
  have hset : Completes (dispatched id (rounds env.moments (Service.setSingleReqId request).modelNames)) ws
      env.completed := hc
  refine ⟨emplaceAll ∅ (multiPredictAnswers (Service.setSingleReqId request) env.moments ws),
    (multiPredict_ok_iff hset).mpr ⟨hok, rfl⟩, fun p hp => ?_, fun n => ?_⟩
  · have hget := ExtTreeMap.mem_toList_iff_getElem?_eq_some.mp hp
    rw [getElem?_emplaceAll, ExtTreeMap.getElem?_empty, Option.none_or] at hget
    obtain ⟨q, hq, hpq⟩ := Option.map_eq_some_iff.mp hget
    rw [← hpq]
    exact multiPredictAnswers_reqId (List.mem_of_find?_eq_some hq)
  · have hasked : n ∈ (multiPredictAnswers (Service.setSingleReqId request) env.moments ws).map (·.1) ↔
        n ∈ request.modelNames := mem_multiPredictAnswers hset hok
    rw [mem_emplaceAll, hasked]
    simp

/-- The entries of a map have its names, each once. -/
theorem map_fst_toList_perm {A : Type} {m : ExtTreeMap String A} {names : List String} (h : ∀ n, n ∈ m ↔ n ∈ names) :
    (m.toList.map Prod.fst).Perm names.dedup := by
  rw [ExtTreeMap.map_fst_toList_eq_keys]
  refine (List.perm_ext_iff_of_nodup ExtTreeMap.nodup_keys names.nodup_dedup).mpr fun n => ?_
  rw [ExtTreeMap.mem_keys, h, List.mem_dedup]

/-- The messages of `multiPredict` when no task throws: where the request is sampled one of
    it, and one for each model it names. -/
theorem multiPredict_messages (hmode : c.workMode ≠ ROUTER_MODE)
    (hc : Completes (dispatched id (rounds env.moments request.modelNames)) ws env.completed)
    (hok : ∀ v ∈ multiPredictOutcomes (Service.setSingleReqId request) env.moments ws, v.hasException = false) :
    ∃ served, multiPredict c env request = some (some served) ∧
      (∀ m ∈ served.snapshots, m.reqId = request.reqId) ∧
      (IsSampled c request.reqId → (ofType .originalFeatures served.snapshots).length = 1 ∧
        ((ofType .predictResults served.snapshots).map (·.modelName)).Perm (request.modelNames.dedup.map some)) ∧
      (¬ IsSampled c request.reqId → served.snapshots = []) := by
  obtain ⟨merged, hrun, hids, hnames⟩ := service_multiPredict_merged hc hok
  rw [multiPredict, if_neg hmode, hrun]
  refine ⟨_, rfl, ?_⟩
  have hid : (Service.setSingleReqId request).singleRequest.reqId = request.reqId := rfl
  by_cases hs : IsSampled c request.reqId
  · have hsingle := sampled_singleton PredictRequest.reqId (Service.setSingleReqId request).singleRequest
      (by rwa [hid])
    have hwhole := sampled_singleton MultiPredictResponse.reqId
      ({ reqId := request.reqId, modelResponses := merged } : MultiPredictResponse (PredictResults Dbl)) hs
    rw [hsingle, hwhole, List.flatMap_singleton, List.map_singleton]
    have hresponses : ∀ m ∈ merged.toList.map fun p => predictRespSnapshot c p.2 p.1,
        m.type = .predictResults ∧ m.reqId = request.reqId :=
      List.forall_mem_map.mpr fun p hp => ⟨rfl, hids p hp⟩
    have hrequest : ∀ m ∈ [originalFeatureSnapshot c (Service.setSingleReqId request).singleRequest],
        m.type = .originalFeatures := List.forall_mem_singleton.mpr rfl
    refine ⟨?_, fun _ => ⟨?_, ?_⟩, fun hnot => absurd hs hnot⟩
    · rw [List.forall_mem_append, List.forall_mem_singleton]
      exact ⟨rfl, fun m hm => (hresponses m hm).2⟩
    · rw [ofType_append, ofType_eq_self hrequest, ofType_eq_nil fun m hm => by rw [(hresponses m hm).1]; decide]
      rfl
    · rw [ofType_append, ofType_eq_nil fun m hm => by rw [hrequest m hm]; decide,
        ofType_eq_self fun m hm => (hresponses m hm).1, List.nil_append, List.map_map]
      have hmap := (map_fst_toList_perm hnames).map some
      rwa [List.map_map] at hmap
  · have hsingle := sampled_singleton_eq_nil PredictRequest.reqId (Service.setSingleReqId request).singleRequest
      (by rwa [hid])
    have hwhole := sampled_singleton_eq_nil MultiPredictResponse.reqId
      ({ reqId := request.reqId, modelResponses := merged } : MultiPredictResponse (PredictResults Dbl)) hs
    rw [hsingle, hwhole]
    exact ⟨nofun, fun h => absurd h hs, fun _ => rfl⟩

/-- Both sides of a sampled request reach the producer. Of a batch the snapshots join
    exactly when no task throws, or when no request is sampled. A request for several models
    that no task throws out of has one snapshot of the request and exactly one for each
    model if its id is sampled, and none if not. -/
theorem snapshots_join (hmode : c.workMode ≠ ROUTER_MODE) :
    (∀ (requests : PredictRequests (Features Dbl)) (ws : List (World (Features Dbl) (PredictResults Dbl) V)),
      requests.reqs ≠ [] →
      Completes (dispatched (·.modelName) (rounds env.moments requests.reqs)) ws env.completed →
      ((∃ served, predict c env requests = some (some served) ∧ Joined served.snapshots) ↔
        NothingThrown requests.reqs env.moments ws ∨ sampled c (·.reqId) requests.reqs = [])) ∧
    ∀ (request : MultiPredictRequest (Features Dbl)) (ws : List (World (Features Dbl) (PredictResults Dbl) V)),
      Completes (dispatched id (rounds env.moments request.modelNames)) ws env.completed →
      (∀ v ∈ multiPredictOutcomes (Service.setSingleReqId request) env.moments ws, v.hasException = false) →
      ∃ served, multiPredict c env request = some (some served) ∧
        (∀ m ∈ served.snapshots, m.reqId = request.reqId) ∧
        (IsSampled c request.reqId → (ofType .originalFeatures served.snapshots).length = 1 ∧
          ((ofType .predictResults served.snapshots).map (·.modelName)).Perm (request.modelNames.dedup.map some)) ∧
        (¬ IsSampled c request.reqId → served.snapshots = []) :=
  ⟨fun _ _ hne hc => predict_joined_iff hmode hne hc, fun _ _ hc hok => multiPredict_messages hmode hc hok⟩

end Snapshots

/-! ## A server for examples -/

/-- It gives every item a `ctr`. -/
def ctrModel : Model (Features Nat) (PredictResults Nat) Unit where
  predict request response := .ok (true, { response with
    resultsMap := emplaceAll ∅ (request.itemFeatures.toList.map fun item => (item.1, ⟨{("ctr", 7)}⟩)) })
  predict_reqId := by
    intro request response ok response' h hid
    cases h
    exact hid

def ctrWorld : World (Features Nat) (PredictResults Nat) Unit := fun framework =>
  if framework = "tf" then some fun name => if name = "tf_ctr_v1" then some ctrModel else none else none

/-- It takes a snapshot of everything. -/
def everyRequest : Config Nat where
  feaExtractSnapshotFrequency := 1
  randR := fun _ => 0
  toString := fun n => ToString.toString n

/-- Two tasks, of which the second is the first to complete. -/
def twoTasks : Env (Features Nat) (PredictResults Nat) Unit where
  send := fun _ => .refused
  completed := [(1, ctrWorld), (0, ctrWorld)]

theorem twoTasks_perm : twoTasks.completed.Perm (completions [ctrWorld, ctrWorld]) := List.Perm.swap _ _ _

def itemRequest (reqId : String) (item : Int64) : PredictRequest (Features Nat) :=
  { reqId, modelName := "tf_ctr_v1", itemFeatures := {(item, [])}, commonFeatures := [] }

theorem snapshots_join_two :
    (∃ served, predict everyRequest twoTasks { reqs := [itemRequest "a" 2, itemRequest "b" 3] } = some (some served) ∧
      Joined served.snapshots) ∧
    ∃ served, multiPredict everyRequest twoTasks
        { reqId := "m", modelNames := ["tf_ctr_v1", "tf_cvr_v1"], singleRequest := itemRequest "" 2 } =
          some (some served) ∧
      (∀ m ∈ served.snapshots, m.reqId = "m") ∧
      ((ofType .predictResults served.snapshots).map (·.modelName)).Perm [some "tf_ctr_v1", some "tf_cvr_v1"] := by
  have hmode : everyRequest.workMode ≠ ROUTER_MODE := by decide
  refine ⟨?_, ?_⟩
  · exact ((snapshots_join hmode).1 { reqs := [itemRequest "a" 2, itemRequest "b" 3] } [ctrWorld, ctrWorld]
      (by decide) ⟨by decide, twoTasks_perm⟩).mpr (.inl (by unfold NothingThrown; decide))
  · obtain ⟨served, hserved, hids, hsampled, -⟩ := (snapshots_join hmode).2
      { reqId := "m", modelNames := ["tf_ctr_v1", "tf_cvr_v1"], singleRequest := itemRequest "" 2 } [ctrWorld, ctrWorld]
      ⟨by decide, twoTasks_perm⟩ (by decide)
    exact ⟨served, hserved, hids, (hsampled ⟨by decide, rfl⟩).2⟩

end PredictorServiceSvIf

end PredictorService.Server
