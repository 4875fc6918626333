/-
  PredictorService.ServiceRouter.RegistryDiscover — what a subscriber of a service is told
  (see `PredictorService.ServiceRouter.Registry`).

  Nodes responses arrive in any order and more than once. The rule of the documentation is
  that a list is passed on only when its consul index is larger than the recorded one and
  it is not empty. `checkUpdate` asks only whether the index is another one, records it
  before the list is looked at, and the notification runs after the check on its own.

  - `newest_list_is_shown`: in every run in which each response is processed `InOrder`, the
    subscriber was last told the list of the non-empty response with the greatest index,
    whenever no notification is under way.
  - `older_response_goes_back`: a response with a smaller index takes the list back.
-/

import PredictorService.Lib.Runs
import PredictorService.ServiceRouter.Registry

namespace PredictorService.ServiceRouter

open PredictorService.Lib (FinMap)
open ConsulNode

namespace ConsulRegistry

/-! ## One service's view -/

def Task.isNotifyDiscover (serviceName : String) : Task → Bool
  | .notifyDiscover name _ => name = serviceName
  | _ => false

/-- The notifications of the service that are under way. -/
def pending (serviceName : String) (s : St) : List Task := s.tasks.filter (Task.isNotifyDiscover serviceName)

/-- The non-empty responses processed so far. -/
def answers (serviceName : String) (s : St) : List ConsulValues :=
  (s.delivered.filter fun p => p.1 = serviceName ∧ p.2.value ≠ []).map (·.2)

/-- The lists the subscriber was called with, latest first. -/
def shown (serviceName : String) (s : St) : List (List Server) :=
  (s.notified.filter fun p => p.1 = serviceName).map (·.2)

variable (c : Codec) (serviceName : String)

/-- The subscriber was last told the list of the non-empty response with the greatest
    index. -/
def ShowsNewest (s : St) : Prop :=
  ∀ v ∈ answers serviceName s, (∀ v' ∈ answers serviceName s, v'.consulIndex ≤ v.consulIndex) →
    (shown serviceName s).head? = some (readNodes c v.value)

/-- The index that `checkUpdate` compares with. -/
def recorded (s : St) : UInt64 := (s.lastIndexes.lookup (getNodesPath serviceName)).getD 0

/-- When a response may be processed: no notification is under way; an index names one list;
    a non-empty list whose index is not the recorded one has no smaller index than the
    non-empty ones before it, and one whose index is the recorded one has no larger index
    than all of them. -/
def ResponseInOrder (s : St) (values : ConsulValues) : Prop :=
  pending serviceName s = [] ∧
  (values.value ≠ [] →
    (∀ v ∈ answers serviceName s, v.consulIndex = values.consulIndex → v.value = values.value) ∧
    (values.consulIndex ≠ recorded serviceName s → ∀ v ∈ answers serviceName s, v.consulIndex ≤ values.consulIndex) ∧
    (values.consulIndex = recorded serviceName s → ∃ v ∈ answers serviceName s, values.consulIndex ≤ v.consulIndex))

instance (s : St) (values : ConsulValues) : Decidable (ResponseInOrder serviceName s values) :=
  inferInstanceAs (Decidable (_ ∧ (_ → _ ∧ _ ∧ _)))

/-- The condition on each step: the service's responses are processed in order, it stays
    subscribed while it is notified, and its nodes are not static. -/
def InOrder (s : St) : Ev → Prop
  | .deliverNodes name (some values) => name = serviceName → ResponseInOrder serviceName s values
  | .runNotifyDiscover name _ => name = serviceName → serviceName ∈ s.serviceSubscribers
  | .enableStatic => False
  | _ => True

instance (s : St) : (e : Ev) → Decidable (InOrder serviceName s e)
  | .deliverNodes _ (some _) => inferInstanceAs (Decidable (_ → _))
  | .runNotifyDiscover _ _ => inferInstanceAs (Decidable (_ → _))
  | .enableStatic => isFalse id
  | .deliverNodes _ none | .registerServer _ | .unregisterServer _ | .discover _ | .getConfig _ | .answer _ _
  | .deliver _ _ | .readVersion _ _ | .deliverConfig _ _ _ | .runQueueConfig _ | .runNotifyConfig _ _ _ | .fallback
  | .retry _ | .subscribe _ | .unsubscribe _ | .subscribeConfig _ | .unsubscribeConfig _ | .subscribeConfigItem _ _
  | .unsubscribeConfigItem _ _ | .disableStatic | .pushStaticNodes _ _ | .poolGone => isTrue trivial

/-- The list that is shown once the notification under way has run. -/
def nextShown (s : St) : Option (List Server) :=
  match (pending serviceName s).head? with
  | some (.notifyDiscover _ servers) => some servers
  | _ => (shown serviceName s).head?

structure DiscoverInv (s : St) : Prop where
  notStatic : s.useStatic = false
  one : (pending serviceName s).length ≤ 1
  newest : ∀ v ∈ answers serviceName s, (∀ v' ∈ answers serviceName s, v'.consulIndex ≤ v.consulIndex) →
    nextShown serviceName s = some (readNodes c v.value)

/-- The steps in which the service's view moves. -/
def Ev.movesView (serviceName : String) : Ev → Bool
  | .deliverNodes name res => res.isSome && name = serviceName
  | .runNotifyDiscover name _ => name = serviceName
  | .enableStatic => true
  | _ => false

/-- Only these matter for the service's subscriber. -/
structure SameView (s t : St) : Prop where
  useStatic : t.useStatic = s.useStatic
  pending : pending serviceName t = pending serviceName s
  answers : answers serviceName t = answers serviceName s
  shown : shown serviceName t = shown serviceName s

variable {c serviceName}

theorem SameView.inv {s t : St} (h : SameView serviceName s t) (hi : DiscoverInv c serviceName s) :
    DiscoverInv c serviceName t := by
  refine ⟨h.useStatic.trans hi.notStatic, ?_, ?_⟩
  · rw [h.pending]
    exact hi.one
  · rw [h.answers, nextShown, h.pending, h.shown]
    exact hi.newest

theorem pending_append (s : St) {task : Task} (ht : task.isNotifyDiscover serviceName = false) :
    (s.tasks ++ [task]).filter (Task.isNotifyDiscover serviceName) = pending serviceName s := by
  simp [pending, ht]

theorem pending_erase (s : St) {task : Task} (ht : task.isNotifyDiscover serviceName = false) :
    (s.tasks.erase task).filter (Task.isNotifyDiscover serviceName) = pending serviceName s := by
  have hnot : task ∉ s.tasks.filter (Task.isNotifyDiscover serviceName) := by
    intro h
    rw [List.mem_filter, ht] at h
    exact absurd h.2 (by simp)
  rw [← List.erase_filter, List.erase_of_not_mem hnot, pending]

/-! ## The steps -/

theorem discover_view {s : St} (hs : s.useStatic = false) (name : String) :
    SameView serviceName s (discover s name) := by
  unfold discover
  rw [hs]
  simp only [Bool.not_false, if_true]
  split
  · exact ⟨hs.symm ▸ rfl, pending_append s rfl, rfl, rfl⟩
  · exact ⟨hs.symm ▸ rfl, rfl, rfl, rfl⟩

theorem checkUpdate_fst (lastIndexes : FinMap String UInt64) (key : String) (index : UInt64) :
    (checkUpdate lastIndexes key index).1 = decide (index ≠ (lastIndexes.lookup key).getD 0) := by
  unfold checkUpdate
  split <;> simp [*]

/-- A response adds a notification iff its list is not empty and its index is another one
    than the recorded one. -/
theorem deliverNodes_tasks (s : St) (name : String) (values : ConsulValues) :
    (deliverNodes c s name (some values)).tasks = s.tasks.erase (.nodes name) ++
      if values.value ≠ [] ∧ values.consulIndex ≠ recorded name s
        then [.notifyDiscover name (readNodes c values.value)] else [] := by
  simp only [deliverNodes, processDiscover, checkUpdate_fst, recorded]
  by_cases hval : values.value = []
  · simp [hval]
  · by_cases hidx : values.consulIndex = (s.lastIndexes.lookup (getNodesPath name)).getD 0
    · simp [← hidx]
    · simp [hval, hidx]

theorem pending_deliverNodes (s : St) (name : String) (values : ConsulValues) :
    pending serviceName (deliverNodes c s name (some values)) =
      pending serviceName s ++ if name = serviceName ∧ values.value ≠ [] ∧ values.consulIndex ≠ recorded serviceName s
        then [.notifyDiscover serviceName (readNodes c values.value)] else [] := by
  rw [pending, deliverNodes_tasks, List.filter_append, pending_erase s rfl]
  congr 1
  by_cases hname : name = serviceName
  · subst hname
    split <;> rename_i h
    · rw [if_pos ⟨rfl, h⟩]
      simp [Task.isNotifyDiscover]
    · rw [if_neg (fun h' => h h'.2), List.filter_nil]
  · have hno : ¬ (name = serviceName ∧ values.value ≠ [] ∧ values.consulIndex ≠ recorded serviceName s) :=
      fun h => hname h.1
    rw [if_neg hno]
    split
    · simp [Task.isNotifyDiscover, hname]
    · rfl

theorem answers_deliverNodes (s : St) (name : String) (values : ConsulValues) :
    answers serviceName (deliverNodes c s name (some values)) =
      if name = serviceName ∧ values.value ≠ [] then values :: answers serviceName s else answers serviceName s := by
  have hdel : (deliverNodes c s name (some values)).delivered = (name, values) :: s.delivered := by
    simp only [deliverNodes, processDiscover]
    split <;> rfl
  rw [answers, hdel]
  by_cases h : name = serviceName ∧ values.value ≠ []
  · rw [if_pos h, List.filter_cons_of_pos (by simpa using h)]
    rfl
  · rw [if_neg h, List.filter_cons_of_neg (by simpa using h)]
    rfl

theorem deliverNodes_notified (s : St) (name : String) (res : Option ConsulValues) :
    (deliverNodes c s name res).notified = s.notified ∧ (deliverNodes c s name res).useStatic = s.useStatic := by
  cases res with
  | none => exact ⟨rfl, rfl⟩
  | some values =>
    simp only [deliverNodes, processDiscover]
    split <;> exact ⟨rfl, rfl⟩

theorem inv_deliverNodes {s : St} (hi : DiscoverInv c serviceName s) {values : ConsulValues}
    (ho : InOrder serviceName s (.deliverNodes serviceName (some values))) :
    DiscoverInv c serviceName (deliverNodes c s serviceName (some values)) := by
  obtain ⟨hnone, hnonempty⟩ := ho rfl
  obtain ⟨hnot, hstat⟩ := deliverNodes_notified (c := c) s serviceName (some values)
  have hshown : shown serviceName (deliverNodes c s serviceName (some values)) = shown serviceName s := by
    rw [shown, hnot, shown]
  have hpend : pending serviceName (deliverNodes c s serviceName (some values)) = _ :=
    pending_deliverNodes s serviceName values
  have hans : answers serviceName (deliverNodes c s serviceName (some values)) = _ :=
    answers_deliverNodes s serviceName values
  rw [hnone, List.nil_append] at hpend
  by_cases hval : values.value = []
  · -- an empty response only records its index
    refine SameView.inv ⟨hstat, ?_, ?_, hshown⟩ hi
    · rw [hpend, if_neg (fun h => h.2.1 hval), hnone]
    · rw [hans, if_neg (fun h => h.2 hval)]
  obtain ⟨hsame, hlater, hknown⟩ := hnonempty hval
  rw [if_pos ⟨rfl, hval⟩] at hans
  refine ⟨hstat.trans hi.notStatic, ?_, ?_⟩
  · rw [hpend]
    split <;> simp
  rw [hans]
  by_cases hidx : values.consulIndex = recorded serviceName s
  · -- it is not passed on, and an earlier one with its index or a larger one was
    rw [if_neg (fun h => h.2.2 hidx)] at hpend
    have hnext : nextShown serviceName (deliverNodes c s serviceName (some values)) = nextShown serviceName s := by
      rw [nextShown, hpend, hshown, nextShown, hnone]
    rw [hnext]
    intro v hv hmax
    rcases List.mem_cons.mp hv with rfl | hv
    · obtain ⟨v0, hv0, hle⟩ := hknown hidx
      have heq : v0.consulIndex = v.consulIndex :=
        UInt64.le_antisymm (hmax v0 (List.mem_cons_of_mem _ hv0)) hle
      rw [← hsame v0 hv0 heq]
      refine hi.newest v0 hv0 fun v' hv' => ?_
      rw [heq]
      exact hmax v' (List.mem_cons_of_mem _ hv')
    · exact hi.newest v hv fun v' hv' => hmax v' (List.mem_cons_of_mem _ hv')
  · -- it is passed on, and is the newest
    rw [if_pos ⟨rfl, hval, hidx⟩] at hpend
    have hnext : nextShown serviceName (deliverNodes c s serviceName (some values)) =
        some (readNodes c values.value) := by
      rw [nextShown, hpend]
      rfl
    rw [hnext]
    intro v hv hmax
    rcases List.mem_cons.mp hv with rfl | hv
    · rfl
    · have heq : v.consulIndex = values.consulIndex :=
        UInt64.le_antisymm (hlater hidx v hv) (hmax values List.mem_cons_self)
      rw [hsame v hv heq]

theorem inv_notifyDiscover {s : St} (hi : DiscoverInv c serviceName s) {servers : List Server}
    (hmem : .notifyDiscover serviceName servers ∈ s.tasks) (hsub : serviceName ∈ s.serviceSubscribers) :
    DiscoverInv c serviceName (notifyDiscover
      { s with tasks := s.tasks.erase (.notifyDiscover serviceName servers) } serviceName servers) := by
  have hin : .notifyDiscover serviceName servers ∈ pending serviceName s :=
    List.mem_filter.mpr ⟨hmem, by simp [Task.isNotifyDiscover]⟩
  obtain ⟨task, htask⟩ := List.length_eq_one_iff.mp (Nat.le_antisymm hi.one (List.length_pos_of_mem hin))
  rw [htask, List.mem_singleton] at hin
  have hpend : (s.tasks.erase (.notifyDiscover serviceName servers)).filter (Task.isNotifyDiscover serviceName) = [] := by
    rw [← List.erase_filter]
    show (pending serviceName s).erase _ = []
    rw [htask, ← hin, List.erase_cons_head]
  have hold : nextShown serviceName s = some servers := by
    rw [nextShown, htask, ← hin]
    rfl
  simp only [notifyDiscover, if_pos hsub]
  refine ⟨hi.notStatic, ?_, fun v hv hmax => ?_⟩
  · rw [pending, hpend]
    exact Nat.zero_le 1
  · rw [← hi.newest v hv hmax, hold, nextShown, pending, hpend]
    simp [shown]

theorem getConfig_view (s : St) (name : String) : SameView serviceName s (getConfig s name) := by
  unfold getConfig
  split
  · exact ⟨rfl, pending_append s rfl, rfl, rfl⟩
  · exact ⟨rfl, rfl, rfl, rfl⟩

theorem registerServer_view (s : St) (server : Server) : SameView serviceName s (registerServer c s server) := by
  unfold registerServer
  split
  · exact ⟨rfl, rfl, rfl, rfl⟩
  · split <;> exact ⟨rfl, rfl, rfl, rfl⟩

theorem unregisterServer_view (s : St) (server : Server) : SameView serviceName s (unregisterServer s server) := by
  unfold unregisterServer
  split <;> exact ⟨rfl, rfl, rfl, rfl⟩

theorem readVersion_view (s : St) (name : String) (res : Option String) :
    SameView serviceName s (readVersion c s name res) := by
  simp only [readVersion]
  split
  · refine ⟨rfl, ?_, rfl, rfl⟩
    exact (List.filter_append ..).trans (by rw [pending_erase s rfl]; simp [Task.isNotifyDiscover])
  · exact ⟨rfl, pending_erase s rfl, rfl, rfl⟩

theorem deliverConfig_view (s : St) (name : String) (version : Option String) (res : Option ConsulValues) :
    SameView serviceName s (deliverConfig c s name version res) := by
  have hkeep : ∀ task : Task, task.isNotifyDiscover serviceName = false →
      (s.tasks.erase (.config name version) ++ [task]).filter (Task.isNotifyDiscover serviceName) =
        pending serviceName s := by
    intro task ht
    rw [List.filter_append, pending_erase s rfl]
    simp [ht]
  cases res with
  | none => exact ⟨rfl, pending_erase s rfl, rfl, rfl⟩
  | some values =>
    simp only [deliverConfig, processConfig]
    split
    · exact ⟨rfl, hkeep _ rfl, rfl, rfl⟩
    · split
      · exact ⟨rfl, pending_erase s rfl, rfl, rfl⟩
      · exact ⟨rfl, hkeep _ rfl, rfl, rfl⟩

theorem retry_view {s t : St} (hs : s.useStatic = false) {key : String} (h : retry c s key = some t) :
    SameView serviceName s t := by
  have hview : ∀ u, SameView serviceName { s with work := s.work.erase key } u → SameView serviceName s u :=
    fun u hu => ⟨hu.useStatic, hu.pending, hu.answers, hu.shown⟩
  unfold retry at h
  split at h
  · cases h
  · split at h <;> cases h <;> refine hview _ ?_
    · exact registerServer_view _ _
    · exact unregisterServer_view _ _
    · refine discover_view ?_ _
      exact hs
    · exact getConfig_view _ _

theorem deliverNodes_view (s : St) {name : String} {res : Option ConsulValues}
    (hname : res.isSome → name ≠ serviceName) : SameView serviceName s (deliverNodes c s name res) := by
  cases res with
  | none => exact ⟨rfl, pending_erase s rfl, rfl, rfl⟩
  | some values =>
    have hname := hname rfl
    obtain ⟨hnot, hstat⟩ := deliverNodes_notified (c := c) s name (some values)
    refine ⟨hstat, ?_, ?_, ?_⟩
    · rw [pending_deliverNodes, if_neg (fun h => hname h.1), List.append_nil]
    · rw [answers_deliverNodes, if_neg (fun h => hname h.1)]
    · rw [shown, hnot, shown]

theorem notifyDiscover_view (s : St) {name : String} (hname : name ≠ serviceName) (servers : List Server) :
    SameView serviceName s
      (notifyDiscover { s with tasks := s.tasks.erase (.notifyDiscover name servers) } name servers) := by
  have ht : Task.isNotifyDiscover serviceName (.notifyDiscover name servers) = false := by
    simp [Task.isNotifyDiscover, hname]
  unfold notifyDiscover
  split
  · exact ⟨rfl, pending_erase s ht, rfl, by simp [shown, hname]⟩
  · exact ⟨rfl, pending_erase s ht, rfl, rfl⟩

/-- Every other step leaves the service's view alone, unless it makes the nodes static. -/
theorem sameView_step {s t : St} {e : Ev} (hs : s.useStatic = false) (he : e.movesView serviceName = false)
    (h : step c s e = some t) : SameView serviceName s t := by
  cases e with
  | deliverNodes name res =>
    obtain ⟨-, rfl⟩ := Lib.guard_some.mp h
    refine deliverNodes_view s fun hres => ?_
    simpa [Ev.movesView, hres] using he
  | runNotifyDiscover name servers =>
    obtain ⟨-, rfl⟩ := Lib.guard_some.mp h
    exact notifyDiscover_view s (by simpa [Ev.movesView] using he) servers
  | registerServer server =>
    cases h
    exact registerServer_view s server
  | unregisterServer server =>
    cases h
    exact unregisterServer_view s server
  | discover name =>
    cases h
    exact discover_view hs name
  | getConfig name =>
    cases h
    exact getConfig_view s name
  | readVersion name res =>
    obtain ⟨-, rfl⟩ := Lib.guard_some.mp h
    exact readVersion_view s name res
  | deliverConfig name version res =>
    obtain ⟨-, rfl⟩ := Lib.guard_some.mp h
    exact deliverConfig_view s name version res
  | runQueueConfig name =>
    obtain ⟨-, rfl⟩ := Lib.guard_some.mp h
    exact ⟨rfl, pending_erase s rfl, rfl, rfl⟩
  | runNotifyConfig name config items =>
    obtain ⟨-, rfl⟩ := Lib.guard_some.mp h
    simp only [notifyConfig]
    split <;> exact ⟨rfl, pending_erase s rfl, rfl, rfl⟩
  | answer r ok =>
    obtain ⟨-, rfl⟩ := Lib.guard_some.mp h
    exact ⟨rfl, rfl, rfl, rfl⟩
  | deliver r ok =>
    obtain ⟨-, rfl⟩ := Lib.guard_some.mp h
    simp only [deliver]
    split <;> exact ⟨rfl, rfl, rfl, rfl⟩
  | fallback =>
    obtain ⟨-, rfl⟩ := Lib.guard_some.mp h
    exact ⟨rfl, rfl, rfl, rfl⟩
  | retry key => exact retry_view hs h
  | enableStatic => exact absurd he (by simp [Ev.movesView])
  | disableStatic =>
    cases h
    exact ⟨hs.symm, rfl, rfl, rfl⟩
  | subscribe _ | unsubscribe _ | subscribeConfig _ | unsubscribeConfig _ | subscribeConfigItem _ _
  | unsubscribeConfigItem _ _ | pushStaticNodes _ _ | poolGone =>
    cases h
    exact ⟨rfl, rfl, rfl, rfl⟩

/-- Every step in order keeps the invariant. -/
theorem discoverInv_step {s t : St} {e : Ev} (hi : DiscoverInv c serviceName s) (ho : InOrder serviceName s e)
    (h : step c s e = some t) : DiscoverInv c serviceName t := by
  cases hmove : e.movesView serviceName with
  | false => exact (sameView_step hi.notStatic hmove h).inv hi
  | true =>
    cases e with
    | deliverNodes name res =>
      obtain ⟨-, rfl⟩ := Lib.guard_some.mp h
      obtain ⟨hres, rfl⟩ : res.isSome ∧ name = serviceName := by simpa [Ev.movesView] using hmove
      obtain ⟨values, rfl⟩ := Option.isSome_iff_exists.mp hres
      exact inv_deliverNodes hi ho
    | runNotifyDiscover name servers =>
      obtain ⟨hmem, rfl⟩ := Lib.guard_some.mp h
      obtain rfl : name = serviceName := by simpa [Ev.movesView] using hmove
      exact inv_notifyDiscover hi hmem (ho rfl)
    | enableStatic => exact absurd ho id
    | _ => cases hmove

/-- In every run in order, whenever no notification is under way, the subscriber was last
    told the list of the non-empty response with the greatest index. -/
theorem newest_list_is_shown {es : List Ev} {s : St} (hm : Lib.Meets (step c) (InOrder serviceName) {} es)
    (hr : Lib.run (step c) {} es = some s) (hdone : pending serviceName s = []) : ShowsNewest c serviceName s := by
  have h0 : DiscoverInv c serviceName {} := ⟨rfl, Nat.zero_le 1, fun v hv => by cases hv⟩
  have hi : DiscoverInv c serviceName s :=
    Lib.run_history (step c) (InOrder serviceName) (fun _ s => DiscoverInv c serviceName s)
      (fun _ s t e hs ho h => discoverInv_step hs ho h) [] h0 hm hr
  intro v hv hmax
  have := hi.newest v hv hmax
  rwa [nextShown, hdone] at this

/-! ## Two responses -/

/-- A listing of one node. -/
def listing (index : UInt64) (t : Server) : ConsulValues :=
  ⟨index, (plainValues.filter fun p => p.2.2 = t).map fun p => ⟨getNodePath t, p.1⟩⟩

/-- Two pulls are answered with indexes 5 and 7, and each is passed on before the next. -/
def inOrderRun : List Ev :=
  [.subscribe "predictor", .discover "predictor", .discover "predictor",
    .deliverNodes "predictor" (some (listing 5 plainServer)), .runNotifyDiscover "predictor" [plainServer],
    .deliverNodes "predictor" (some (listing 7 otherServer)), .runNotifyDiscover "predictor" [otherServer]]

theorem newest_list_is_shown_in_order :
    ∃ s, Lib.run (step plainCodec) {} inOrderRun = some s ∧ ShowsNewest plainCodec "predictor" s := by
  have hpend : (Lib.run (step plainCodec) {} inOrderRun).map (pending "predictor") = some [] := by decide +kernel
  have horder : Lib.Meets (step plainCodec) (InOrder "predictor") {} inOrderRun := by decide +kernel
  obtain ⟨s, hs, hp⟩ := Option.map_eq_some_iff.mp hpend
  exact ⟨s, hs, newest_list_is_shown horder hs hp⟩

/-- The answer with index 7 comes first. -/
def swappedRun : List Ev :=
  [.subscribe "predictor", .discover "predictor", .discover "predictor",
    .deliverNodes "predictor" (some (listing 7 otherServer)), .runNotifyDiscover "predictor" [otherServer],
    .deliverNodes "predictor" (some (listing 5 plainServer)), .runNotifyDiscover "predictor" [plainServer]]

/-- The older response takes the list back: index 5 is not larger than 7, only different. -/
theorem older_response_goes_back :
    ∃ s, Lib.run (step plainCodec) {} swappedRun = some s ∧ s.tasks = [] ∧ ¬ ShowsNewest plainCodec "predictor" s := by
  have hview : (Lib.run (step plainCodec) {} swappedRun).map
      (fun s => (s.tasks, answers "predictor" s, shown "predictor" s)) =
      some ([], [listing 5 plainServer, listing 7 otherServer], [[plainServer], [otherServer]]) := by
    decide +kernel
  obtain ⟨s, hs, hv⟩ := Option.map_eq_some_iff.mp hview
  obtain ⟨htasks, hv⟩ := Prod.mk.inj hv
  obtain ⟨hans, hshown⟩ := Prod.mk.inj hv
  refine ⟨s, hs, htasks, fun h => ?_⟩
  have := h (listing 7 otherServer) (by rw [hans]; simp) (by rw [hans]; decide +kernel)
  rw [hshown] at this
  exact absurd this (by decide +kernel)

end ConsulRegistry

end PredictorService.ServiceRouter
