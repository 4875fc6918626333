/-
  PredictorService.Server.ModelManagerProofs — what becomes of the requests of a batch.

  `collect_perm` takes the thread pool away: under any completion order the caller sees
  the tasks' outcomes in the order of the tasks. What is left are the loops over them.
  Each returns exactly when no outcome is an exception (`pushResponses_ok_iff` and its
  siblings). So without exceptions every request is answered once (`requests_conserved`),
  and one exception is enough to lose the answers of all the other tasks
  (`others_kept_iff`).
-/

import PredictorService.Lib.Emplace
import PredictorService.Server.ModelManager

namespace PredictorService.Server.ModelManager

open Std (ExtTreeMap)
open PredictorService.Lib
open PredictorService.Lib.Futures

variable {F R V : Type}

/-! ## The thread pool -/

theorem collect_perm {Q A B : Type} (task : World F R V → Q → Except Exn A) {tasks : List Q}
    (andThen : List (Try Exn A) → Except Exn B) {ws : List (World F R V)} {completed : List (Nat × World F R V)}
    (h : Completes tasks ws completed) :
    collect task tasks andThen completed = some (andThen (outcomes (fun q w => task w q) tasks ws)) := by
  unfold collect
  rw [run_perm _ _ tasks h]
  simp

/-! ## The loops over the outcomes -/

theorem pushResponses_eq {A B : Type} (response : A → B) (acc : List B) (vs : List (Try Exn A)) :
    pushResponses response acc vs = foldValues (fun l r => l ++ [response r]) acc vs := by
  induction vs generalizing acc with
  | nil => rfl
  | cons v vs ih =>
    cases v with
    | ok a => exact ih (acc ++ [response a])
    | error e => rfl

theorem pushBatchResponses_eq (acc : List (CalculateBatchVectorResponse V))
    (vs : List (Try Exn (CalculateBatchVectorResponse V))) : pushBatchResponses acc vs = pushResponses id acc vs := by
  induction vs generalizing acc with
  | nil => rfl
  | cons v vs ih =>
    cases v with
    | ok a => exact ih (acc ++ [a])
    | error e => rfl

theorem pushResponses_ok_iff {A B : Type} {response : A → B} {acc out : List B} {vs : List (Try Exn A)} :
    pushResponses response acc vs = .ok out ↔
      (∀ v ∈ vs, v.hasException = false) ∧ out = acc ++ (values vs).map response := by
  have hfold : ∀ (l : List A) (acc : List B), l.foldl (fun l r => l ++ [response r]) acc = acc ++ l.map response := by
    intro l
    induction l with
    | nil => simp
    | cons a l ih => simp [ih]
  rw [pushResponses_eq, foldValues_ok_iff, hfold]

theorem emplaceResponses_eq (m : ExtTreeMap String (PredictResponse R)) (vs : List (Try Exn (String × PredictResponse R))) :
    emplaceResponses m vs = foldValues (fun m r => m.insertIfNew r.1 r.2) m vs := by
  induction vs generalizing m with
  | nil => rfl
  | cons v vs ih =>
    cases v with
    | ok a => exact ih (m.insertIfNew a.1 a.2)
    | error e => rfl

theorem emplaceResponses_ok_iff {m out : ExtTreeMap String (PredictResponse R)}
    {vs : List (Try Exn (String × PredictResponse R))} :
    emplaceResponses m vs = .ok out ↔ (∀ v ∈ vs, v.hasException = false) ∧ out = emplaceAll m (values vs) := by
  rw [emplaceResponses_eq, foldValues_ok_iff]
  rfl

/-! ## The loops over the requests -/

section Rounds

variable {A : Type} (name : A → String) (rs : List (A × Moment))

/-- What the rounds answer at once. -/
def downgraded : List A := (rs.filter fun r => shouldDowngradeModel r.2 (name r.1)).map (·.1)

/-- What the rounds make a task for. -/
def dispatched : List A := (rs.filter fun r => !shouldDowngradeModel r.2 (name r.1)).map (·.1)

theorem downgraded_append_dispatched : (downgraded name rs ++ dispatched name rs).Perm (rs.map (·.1)) := by
  unfold downgraded dispatched
  rw [← List.map_append]
  exact (List.filter_append_perm _ rs).map _

end Rounds

@[simp] theorem map_fst_rounds {A : Type} (moments : Nat → Moment) (l : List A) : (rounds moments l).map (·.1) = l := by
  simp [rounds, Function.comp_def]

theorem foldl_predictRound (rs : List (PredictRequest F × Moment)) (acc : List (PredictResponse R) × List (PredictRequest F)) :
    rs.foldl predictRound acc =
      (acc.1 ++ (downgraded (·.modelName) rs).map makeDownGradeResponse, acc.2 ++ dispatched (·.modelName) rs) := by
  induction rs generalizing acc with
  | nil => simp [downgraded, dispatched]
  | cons r rs ih =>
    rw [List.foldl_cons, ih]
    by_cases hd : shouldDowngradeModel r.2 r.1.modelName <;> simp [predictRound, downgraded, dispatched, hd]

/-- What the downgraded names are answered with. -/
def downgradeAnswers (request : PredictRequest F) (rs : List (String × Moment)) : List (String × PredictResponse R) :=
  (downgraded id rs).map fun n => (n, makeDownGradeResponse request)

theorem foldl_multiPredictRound (request : PredictRequest F) (rs : List (String × Moment))
    (acc : ExtTreeMap String (PredictResponse R) × List String) :
    rs.foldl (multiPredictRound request) acc =
      (emplaceAll acc.1 (downgradeAnswers request rs), acc.2 ++ dispatched id rs) := by
  induction rs generalizing acc with
  | nil => simp [downgraded, dispatched, emplaceAll, downgradeAnswers]
  | cons r rs ih =>
    rw [List.foldl_cons, ih]
    by_cases hd : shouldDowngradeModel r.2 r.1 <;>
      simp [multiPredictRound, downgraded, dispatched, emplaceAll, downgradeAnswers, hd]

/-! ## The entry points under a completion order -/

/-- What the tasks of `predict_multithread` end with. -/
def predictOutcomes (reqs : List (PredictRequest F)) (moments : Nat → Moment) (ws : List (World F R V)) :
    List (Try Exn (String × PredictResponse R)) :=
  outcomes (fun q w => singlePredict w q.modelName q) (dispatched (·.modelName) (rounds moments reqs)) ws

/-- What the tasks of `multiPredict` end with. -/
def multiPredictOutcomes (request : MultiPredictRequest F) (moments : Nat → Moment) (ws : List (World F R V)) :
    List (Try Exn (String × PredictResponse R)) :=
  outcomes (fun n w => singlePredict w n request.singleRequest) (dispatched id (rounds moments request.modelNames)) ws

theorem predictMultithread_eq {reqs : List (PredictRequest F)} {moments : Nat → Moment} {ws : List (World F R V)}
    {completed : List (Nat × World F R V)}
    (h : Completes (dispatched (·.modelName) (rounds moments reqs)) ws completed) :
    predictMultithread reqs moments completed = some (pushResponses (·.2)
      ((downgraded (·.modelName) (rounds moments reqs)).map makeDownGradeResponse) (predictOutcomes reqs moments ws)) := by
  simp only [predictMultithread, foldl_predictRound, List.nil_append]
  exact collect_perm _ _ h

theorem multiPredict_eq {request : MultiPredictRequest F} {moments : Nat → Moment} {ws : List (World F R V)}
    {completed : List (Nat × World F R V)}
    (h : Completes (dispatched id (rounds moments request.modelNames)) ws completed) :
    multiPredict request moments completed = some ((emplaceResponses
      (emplaceAll ∅ (downgradeAnswers request.singleRequest (rounds moments request.modelNames)))
      (multiPredictOutcomes request moments ws)).map fun modelResponses =>
        { reqId := request.reqId, modelResponses, returnCode := 0 }) := by
  simp only [multiPredict, foldl_multiPredictRound, List.nil_append]
  rw [collect_perm _ _ h]
  rfl

/-- The answers of `multiPredict`, in the order they are emplaced. -/
def multiPredictAnswers (request : MultiPredictRequest F) (moments : Nat → Moment) (ws : List (World F R V)) :
    List (String × PredictResponse R) :=
  downgradeAnswers request.singleRequest (rounds moments request.modelNames) ++
    values (multiPredictOutcomes request moments ws)

/-- `multiPredict` returns exactly when no task throws, and then under each name its first
    answer. -/
theorem multiPredict_ok_iff {request : MultiPredictRequest F} {moments : Nat → Moment} {ws : List (World F R V)}
    {completed : List (Nat × World F R V)} {out : MultiPredictResponse R}
    (h : Completes (dispatched id (rounds moments request.modelNames)) ws completed) :
    multiPredict request moments completed = some (.ok out) ↔
      (∀ v ∈ multiPredictOutcomes request moments ws, v.hasException = false) ∧
      out = { reqId := request.reqId, modelResponses := emplaceAll ∅ (multiPredictAnswers request moments ws) } := by
  rw [multiPredict_eq h, Option.some_inj]
  have hmap : ∀ x : Except Exn (ExtTreeMap String (PredictResponse R)),
      x.map (fun modelResponses => ({ reqId := request.reqId, modelResponses, returnCode := 0 } : MultiPredictResponse R)) =
        .ok out ↔ ∃ m, x = .ok m ∧ out = { reqId := request.reqId, modelResponses := m } := by
    intro x
    cases x <;> simp [Except.map, eq_comm]
  rw [hmap]
  simp only [emplaceResponses_ok_iff, multiPredictAnswers, emplaceAll, List.foldl_append]
  grind

theorem predict_reqId {framework : ModelFramework F R V} {n : String} {request : PredictRequest F}
    {response : PredictResponse R} {r : Bool × PredictResponse R} (h : framework.predict response request n = .ok r)
    (hid : response.reqId = request.reqId) : r.2.reqId = request.reqId := by
  unfold ModelFramework.predict at h
  split at h
  · rename_i model _
    exact model.predict_reqId request response r.1 r.2 h hid
  · cases h
    exact hid

theorem singlePredict_ok {w : World F R V} {n : String} {request : PredictRequest F} {r : String × PredictResponse R}
    (h : singlePredict w n request = .ok r) : r.1 = n ∧ r.2.reqId = request.reqId := by
  simp only [singlePredict] at h
  split at h
  · cases h
    exact ⟨rfl, rfl⟩
  split at h
  · cases h
    exact ⟨rfl, rfl⟩
  · rename_i framework _
    cases hp : framework.predict { reqId := request.reqId } request n with
    | error e => simp [hp, bind, Except.bind] at h
    | ok r' =>
      simp only [hp, bind, Except.bind, pure, Except.pure, Except.ok.injEq] at h
      rw [← h]
      exact ⟨rfl, predict_reqId hp rfl⟩

/-! ## A model for examples -/

/-- It throws on item 1 and answers every other item. -/
def pickyModel : Model Unit Unit Unit where
  predict request response :=
    if (1 : Int64) ∈ request.itemFeatures then .error "std::bad_alloc"
    else .ok (true, { response with resultsMap := request.itemFeatures })
  predict_reqId := by
    intro request response ok response' h hid
    split at h
    · cases h
    · cases h
      exact hid

def pickyWorld : World Unit Unit Unit := fun framework =>
  if framework = "tf" then some fun name => if name = "tf_ctr_v1" then some pickyModel else none else none

def itemRequest (reqId : String) (item : Int64) : PredictRequest Unit :=
  { reqId, modelName := "tf_ctr_v1", itemFeatures := {(item, ())}, commonFeatures := () }

/-- A request for one item of two models. -/
def twoModels (item : Int64) : MultiPredictRequest Unit :=
  { reqId := "m", modelNames := ["tf_ctr_v1", "tf_cvr_v1"], singleRequest := itemRequest "m" item }

/-- The second task of two is the first to complete. -/
def secondFirst : List (Nat × World Unit Unit Unit) := [(1, pickyWorld), (0, pickyWorld)]

theorem secondFirst_perm : secondFirst.Perm (completions [pickyWorld, pickyWorld]) := List.Perm.swap _ _ _

/-! ## Conservation -/

/-- What every task's value has, the values have in task order. -/
theorem values_outcomes {Q A B : Type} {task : Q → World F R V → Try Exn A} {tasks : List Q} {ws : List (World F R V)}
    {f : A → B} {g : Q → B} (hlen : ws.length = tasks.length)
    (hok : ∀ v ∈ outcomes task tasks ws, v.hasException = false)
    (hf : ∀ q w a, task q w = .ok a → f a = g q) : (values (outcomes task tasks ws)).map f = tasks.map g := by
  induction tasks generalizing ws with
  | nil => simp [outcomes]
  | cons q tasks ih =>
    cases ws with
    | nil => simp at hlen
    | cons w ws =>
      have htail := ih (by simpa using hlen) fun v hv => hok v (List.mem_cons_of_mem _ hv)
      have hhead := hok (task q w) List.mem_cons_self
      show (values (task q w :: outcomes task tasks ws)).map f = _
      cases hv : task q w with
      | ok a => rw [values_ok, List.map_cons, List.map_cons, hf q w a hv, htail]
      | error e => simp [hv] at hhead

section Answers

variable {request : MultiPredictRequest F} {moments : Nat → Moment} {ws : List (World F R V)}
  {completed : List (Nat × World F R V)}

/-- Without exceptions every requested name has an answer. -/
theorem mem_multiPredictAnswers (hc : Completes (dispatched id (rounds moments request.modelNames)) ws completed)
    (hok : ∀ v ∈ multiPredictOutcomes request moments ws, v.hasException = false) {n : String} :
    n ∈ (multiPredictAnswers request moments ws).map (·.1) ↔ n ∈ request.modelNames := by
  have hnames : (values (multiPredictOutcomes request moments ws)).map (·.1) =
      (dispatched id (rounds moments request.modelNames)).map id :=
    values_outcomes hc.1 hok fun n w a ha => (singlePredict_ok ha).1
  have hperm := (downgraded_append_dispatched id (rounds moments request.modelNames)).mem_iff (a := n)
  rw [map_fst_rounds] at hperm
  rw [← hperm]
  simp only [multiPredictAnswers, List.map_append, hnames, downgradeAnswers, List.map_map, Function.comp_def,
    List.map_id', List.map_id]

/-- Every answer has the request's id. -/
theorem multiPredictAnswers_reqId {a : String × PredictResponse R} (ha : a ∈ multiPredictAnswers request moments ws) :
    a.2.reqId = request.singleRequest.reqId := by
  rcases List.mem_append.mp ha with ha | ha
  · obtain ⟨n, -, rfl⟩ := List.mem_map.mp ha
    rfl
  · obtain ⟨n, w, hn⟩ := mem_values_outcomes _ _ ha
    exact (singlePredict_ok hn).2

end Answers

theorem find?_downgradeAnswers {request : PredictRequest F} {rs : List (String × Moment)} {n : String}
    (hn : n ∈ downgraded id rs) :
    (downgradeAnswers request rs).find? (fun r => r.1 = n) = some (n, (makeDownGradeResponse request : PredictResponse R)) := by
  rw [downgradeAnswers, List.find?_map]
  cases hf : (downgraded id rs).find? ((fun r : String × PredictResponse R => decide (r.1 = n)) ∘
      fun n => (n, makeDownGradeResponse request)) with
  | none =>
    have := List.find?_eq_none.mp hf n hn
    simp at this
  | some m =>
    have hm := List.find?_some hf
    simp only [Function.comp_apply, decide_eq_true_eq] at hm
    rw [hm]
    rfl

/-- Without exceptions every request is answered once: by `predict_multithread` the
    downgraded ones first and the others in their order, by `multiPredict` under each name,
    and downgraded if one of its occurrences was. -/
theorem requests_conserved :
    (∀ (reqs : List (PredictRequest F)) (moments : Nat → Moment) (ws : List (World F R V))
      (completed : List (Nat × World F R V)),
      Completes (dispatched (·.modelName) (rounds moments reqs)) ws completed →
      (∀ v ∈ predictOutcomes reqs moments ws, v.hasException = false) →
      ∃ resps, predictMultithread reqs moments completed = some (.ok resps) ∧
        (resps.map (·.reqId)).Perm (reqs.map (·.reqId)) ∧
        resps = (downgraded (·.modelName) (rounds moments reqs)).map makeDownGradeResponse ++
          (values (predictOutcomes reqs moments ws)).map (·.2) ∧
        (values (predictOutcomes reqs moments ws)).map (·.2.reqId) =
          (dispatched (·.modelName) (rounds moments reqs)).map (·.reqId)) ∧
    ∀ (request : MultiPredictRequest F) (moments : Nat → Moment) (ws : List (World F R V))
      (completed : List (Nat × World F R V)),
      Completes (dispatched id (rounds moments request.modelNames)) ws completed →
      (∀ v ∈ multiPredictOutcomes request moments ws, v.hasException = false) →
      ∃ out, multiPredict request moments completed = some (.ok out) ∧
        (∀ n, n ∈ out.modelResponses ↔ n ∈ request.modelNames) ∧
        ∀ n ∈ downgraded id (rounds moments request.modelNames),
          out.modelResponses[n]? = some (makeDownGradeResponse request.singleRequest) := by
  refine ⟨?_, ?_⟩
  · intro reqs moments ws completed hc hok
    have hids : (values (predictOutcomes reqs moments ws)).map (·.2.reqId) =
        (dispatched (·.modelName) (rounds moments reqs)).map (·.reqId) :=
      values_outcomes hc.1 hok fun q w a ha => (singlePredict_ok ha).2
    refine ⟨_, ?_, ?_, rfl, hids⟩
    · rw [predictMultithread_eq hc, Option.some_inj, pushResponses_ok_iff]
      exact ⟨hok, rfl⟩
    · have hperm := (downgraded_append_dispatched (·.modelName) (rounds moments reqs)).map (·.reqId)
      rw [map_fst_rounds, List.map_append, ← hids] at hperm
      simpa [Function.comp_def, makeDownGradeResponse] using hperm
  · intro request moments ws completed hc hok
    refine ⟨_, (multiPredict_ok_iff hc).mpr ⟨hok, rfl⟩, ?_, ?_⟩
    · intro n
      rw [mem_emplaceAll, mem_multiPredictAnswers hc hok]
      simp
    · intro n hn
      rw [getElem?_emplaceAll, multiPredictAnswers, List.find?_append, find?_downgradeAnswers hn]
      simp

/-- The second round downgrades its model. -/
def downgradeSecond (round : Nat) : Moment :=
  if round = 1 then { percentMap := some {("tf_ctr_v1", 100), ("tf_cvr_v1", 100)} } else {}

theorem requests_conserved_three :
    (∃ resps, predictMultithread [itemRequest "a" 2, itemRequest "b" 3, itemRequest "c" 4] downgradeSecond secondFirst =
        some (.ok resps) ∧ (resps.map (·.reqId)).Perm ["a", "b", "c"] ∧
      downgraded (·.modelName) (rounds downgradeSecond [itemRequest "a" 2, itemRequest "b" 3, itemRequest "c" 4]) =
        [itemRequest "b" 3]) ∧
    ∃ out, multiPredict (twoModels 2) downgradeSecond [(0, pickyWorld)] = some (.ok out) ∧
      (∀ n, n ∈ out.modelResponses ↔ n ∈ ["tf_ctr_v1", "tf_cvr_v1"]) ∧
      out.modelResponses["tf_cvr_v1"]? = some (makeDownGradeResponse (itemRequest "m" 2)) := by
  refine ⟨?_, ?_⟩
  · obtain ⟨resps, hrun, hperm, -⟩ := requests_conserved.1 [itemRequest "a" 2, itemRequest "b" 3, itemRequest "c" 4]
      downgradeSecond [pickyWorld, pickyWorld] secondFirst ⟨by decide, secondFirst_perm⟩ (by decide)
    exact ⟨resps, hrun, hperm, by decide⟩
  · obtain ⟨out, hrun, hnames, hdown⟩ := requests_conserved.2 (twoModels 2) downgradeSecond [pickyWorld]
      [(0, pickyWorld)] ⟨by decide, .refl _⟩ (by decide)
    exact ⟨out, hrun, hnames, hdown "tf_cvr_v1" (by decide)⟩

/-! ## A task that throws -/

/-- The call returned, with every response of `rs` among its responses. -/
def ReturnsAll {B : Type} (result : Option (Except Exn (List B))) (rs : List B) : Prop :=
  ∃ out, result = some (.ok out) ∧ rs.Sublist out

theorem returnsAll_pushResponses {A B : Type} {response : A → B} {acc : List B} {vs : List (Try Exn A)} :
    ReturnsAll (some (pushResponses response acc vs)) ((values vs).map response) ↔ ∀ v ∈ vs, v.hasException = false := by
  constructor
  · intro h
    obtain ⟨out, hout, -⟩ := h
    exact (pushResponses_ok_iff.mp (Option.some_inj.mp hout)).1
  · intro hok
    exact ⟨_, congrArg some (pushResponses_ok_iff.mpr ⟨hok, rfl⟩), List.sublist_append_right _ _⟩

theorem returnsAll_pushValues {A : Type} {acc : List A} {vs : List (Try Exn A)} :
    ReturnsAll (some (pushResponses id acc vs)) (values vs) ↔ ∀ v ∈ vs, v.hasException = false := by
  have h := @returnsAll_pushResponses A A id acc vs
  rwa [List.map_id] at h

/-- A name gets one answer from all its occurrences. -/
def Agree (rs answers : List (String × PredictResponse R)) : Prop :=
  ∀ r ∈ rs, ∀ a ∈ answers, a.1 = r.1 → a.2 = r.2

/-- All of `rs` stand in the map iff each agrees with the other answers under its name. -/
theorem stands_iff_agree {request : PredictRequest F} {names : List (String × Moment)}
    {rs : List (String × PredictResponse R)} :
    (∀ r ∈ rs, (emplaceAll (∅ : ExtTreeMap String (PredictResponse R)) (downgradeAnswers request names ++ rs))[r.1]? =
        some r.2) ↔
      Agree rs (downgradeAnswers request names ++ rs) := by
  constructor
  · intro h r hr a ha hname
    have hr' := h r hr
    rcases List.mem_append.mp ha with ha | ha
    · obtain ⟨n, hn, rfl⟩ := List.mem_map.mp ha
      obtain rfl : n = r.1 := hname
      rw [getElem?_emplaceAll, List.find?_append, find?_downgradeAnswers hn] at hr'
      simpa using hr'
    · have ha' := h a ha
      rw [hname, hr'] at ha'
      exact (Option.some_inj.mp ha').symm
  · intro h r hr
    rw [getElem?_emplaceAll]
    cases hf : (downgradeAnswers request names ++ rs).find? fun a : String × PredictResponse R => a.1 = r.1 with
    | none =>
      have := List.find?_eq_none.mp hf r (List.mem_append_right _ hr)
      simp at this
    | some a =>
      have hname := List.find?_some hf
      simp only [decide_eq_true_eq] at hname
      rw [← h r hr a (List.mem_of_find?_eq_some hf) hname]
      simp

/-- Each entry point returns the responses of the tasks that did not throw iff no task
    throws and, in `multiPredict`, the occurrences of a name agree on its response. -/
theorem others_kept_iff :
    (∀ (reqs : List (PredictRequest F)) (moments : Nat → Moment) (ws : List (World F R V))
      (completed : List (Nat × World F R V)),
      Completes (dispatched (·.modelName) (rounds moments reqs)) ws completed →
      (ReturnsAll (predictMultithread reqs moments completed) ((values (predictOutcomes reqs moments ws)).map (·.2)) ↔
        ∀ v ∈ predictOutcomes reqs moments ws, v.hasException = false)) ∧
    (∀ (request : MultiPredictRequest F) (moments : Nat → Moment) (ws : List (World F R V))
      (completed : List (Nat × World F R V)),
      Completes (dispatched id (rounds moments request.modelNames)) ws completed →
      ((∃ out, multiPredict request moments completed = some (.ok out) ∧
          ∀ r ∈ values (multiPredictOutcomes request moments ws), out.modelResponses[r.1]? = some r.2) ↔
        (∀ v ∈ multiPredictOutcomes request moments ws, v.hasException = false) ∧
          Agree (values (multiPredictOutcomes request moments ws)) (multiPredictAnswers request moments ws))) ∧
    (∀ (reqs : List (CalculateVectorRequest F)) (ws : List (World F R V)) (completed : List (Nat × World F R V)),
      Completes reqs ws completed →
      (ReturnsAll (calculateVector reqs completed) (values (outcomes (fun q w => singleCalculateVector w q) reqs ws)) ↔
        ∀ v ∈ outcomes (fun q w => singleCalculateVector w q) reqs ws, v.hasException = false)) ∧
    ∀ (reqs : List (CalculateBatchVectorRequest F)) (ws : List (World F R V)) (completed : List (Nat × World F R V)),
      Completes reqs ws completed →
      (ReturnsAll (calculateBatchVector reqs completed)
          (values (outcomes (fun q w => singleCalculateBatchVector w q) reqs ws)) ↔
        ∀ v ∈ outcomes (fun q w => singleCalculateBatchVector w q) reqs ws, v.hasException = false) := by
  refine ⟨?_, ?_, ?_, ?_⟩
  · intro reqs moments ws completed hc
    rw [predictMultithread_eq hc, returnsAll_pushResponses]
  · intro request moments ws completed hc
    simp only [multiPredict_ok_iff hc]
    constructor
    · intro h
      obtain ⟨out, ⟨hok, rfl⟩, hstand⟩ := h
      exact ⟨hok, stands_iff_agree.mp hstand⟩
    · intro h
      obtain ⟨hok, hagree⟩ := h
      exact ⟨_, ⟨hok, rfl⟩, stands_iff_agree.mpr hagree⟩
  · intro reqs ws completed hc
    rw [calculateVector, collect_perm _ _ hc]
    exact returnsAll_pushValues
  · intro reqs ws completed hc
    rw [calculateBatchVector, collect_perm _ _ hc]
    rw [pushBatchResponses_eq]
    exact returnsAll_pushValues

theorem others_kept_iff_two :
    ReturnsAll (predictMultithread [itemRequest "a" 2, itemRequest "b" 3] (fun _ => {}) secondFirst)
      [⟨"a", {(2, ())}⟩, ⟨"b", {(3, ())}⟩] ∧
    ∃ out, multiPredict (twoModels 2) (fun _ => {}) secondFirst = some (.ok out) ∧
      out.modelResponses["tf_ctr_v1"]? = some ⟨"m", {(2, ())}⟩ := by
  refine ⟨?_, ?_⟩
  · exact (others_kept_iff.1 [itemRequest "a" 2, itemRequest "b" 3] (fun _ => {}) [pickyWorld, pickyWorld] secondFirst
      ⟨by decide, secondFirst_perm⟩).mpr (by decide)
  · obtain ⟨out, hrun, hstand⟩ := (others_kept_iff.2.1 (twoModels 2) (fun _ => {}) [pickyWorld, pickyWorld] secondFirst
      ⟨by decide, secondFirst_perm⟩).mpr ⟨by decide, by unfold Agree; decide⟩
    exact ⟨out, hrun, hstand ("tf_ctr_v1", ⟨"m", {(2, ())}⟩) (by decide)⟩

/-- The first of two requests makes its model throw, and the second one gets no response. -/
theorem failing_task_loses_response :
    ¬ ∀ (reqs : List (PredictRequest Unit)) (moments : Nat → Moment) (ws : List (World Unit Unit Unit))
      (completed : List (Nat × World Unit Unit Unit)),
      Completes (dispatched (·.modelName) (rounds moments reqs)) ws completed →
      ReturnsAll (predictMultithread reqs moments completed) ((values (predictOutcomes reqs moments ws)).map (·.2)) := by
  intro h
  obtain ⟨out, hout, -⟩ := h [itemRequest "a" 1, itemRequest "b" 2] (fun _ => {}) [pickyWorld, pickyWorld] secondFirst
    ⟨by decide, secondFirst_perm⟩
  have hthrow : predictMultithread [itemRequest "a" 1, itemRequest "b" 2] (fun _ => {}) secondFirst =
      some (.error "std::bad_alloc") := by decide
  rw [hthrow] at hout
  cases hout

end PredictorService.Server.ModelManager
