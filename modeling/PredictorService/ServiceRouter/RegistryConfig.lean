/-
  PredictorService.ServiceRouter.RegistryConfig — when a service's config reaches its
  subscriber (see `PredictorService.ServiceRouter.Registry`).

  `getConfig` reads the version, goes on only if it is another one than the recorded one,
  and records it before the values are read. A failed or empty values read goes back to
  `fallbacks_`, but the retry starts at the version again.

  - `config_is_told`: in every run in which each values read of a round that read version
    `v` is answered with the listing of `v` (`Fetched`), once a version read has given `v`
    and nothing of the service is in flight, the subscriber has been told the config of `v`.
  - `untold_stays_untold`: once a version is recorded and its values were not read, the
    subscriber is never told while consul answers with that version.
  - `failed_fetch_is_not_retried`: a version read, a failed values read, and the retry.
-/

import PredictorService.Lib.Runs
import PredictorService.ServiceRouter.Registry

namespace PredictorService.ServiceRouter

open PredictorService.Lib (FinMap)
open ConsulNode

namespace ConsulRegistry

/-! ## Paths -/

theorem append_inj_middle {a b m n : String} (h : a ++ m ++ b = a ++ n ++ b) : m = n := by
  have hl := congrArg String.toList h
  simp only [String.toList_append, List.append_cancel_right_eq, List.append_cancel_left_eq] at hl
  exact String.toList_inj.mp hl

theorem getConfigPath_inj {m n : String} (h : getConfigPath m = getConfigPath n) : m = n := append_inj_middle h

theorem secondLast_append {s t : String} {x : Char} (h : t.toList.reverse[1]? = some x) :
    (s ++ t).toList.reverse[1]? = some x := by
  obtain ⟨hlt, -⟩ := List.getElem?_eq_some_iff.mp h
  rw [String.toList_append, List.reverse_append, List.getElem?_append_left hlt, h]

theorem nodes_secondLast : "/nodes/".toList.reverse[1]? = some 's' := by decide

theorem config_secondLast : "/config/".toList.reverse[1]? = some 'g' := by decide

/-- The last letters of the two paths differ. -/
theorem getNodesPath_ne_getConfigPath (m n : String) : getNodesPath m ≠ getConfigPath n := by
  intro h
  have hnodes : (getNodesPath m).toList.reverse[1]? = some 's' := secondLast_append nodes_secondLast
  have hconfig : (getConfigPath n).toList.reverse[1]? = some 'g' := secondLast_append config_secondLast
  rw [h, hconfig] at hnodes
  exact absurd (Option.some.inj hnodes) (by decide)

/-! ## One service's view -/

def Task.isConfig (serviceName : String) : Task → Bool
  | .config name _ => name = serviceName
  | .notifyConfig name _ _ => name = serviceName
  | _ => false

variable (c : Codec) (serviceName : String)

/-- No values read of the service's config and no notification is in flight. -/
def Idle (s : St) : Prop := ∀ task ∈ s.tasks, task.isConfig serviceName = false

variable (version : String) (values : ConsulValues)

/-- The configuration in a listing. -/
def configOf : ServiceConfig := (readConfig c serviceName values.value).1

/-- The condition on each step: a values read of a round that read `version` is answered
    with the listing `values`; an index names one listing; the service stays subscribed
    while it is notified. -/
def Fetched (s : St) : Ev → Prop
  | .deliverConfig name round (some vs) => name = serviceName →
    (round = some version → vs = values) ∧ (vs.consulIndex = values.consulIndex → vs = values)
  | .deliverConfig name round none => name = serviceName → round ≠ some version
  | .runNotifyConfig name _ _ => name = serviceName → serviceName ∈ s.configSubscribers
  | _ => True

instance (s : St) : (e : Ev) → Decidable (Fetched serviceName version values s e)
  | .deliverConfig _ _ (some _) => inferInstanceAs (Decidable (_ → _ ∧ _))
  | .deliverConfig _ _ none => inferInstanceAs (Decidable (_ → _))
  | .runNotifyConfig _ _ _ => inferInstanceAs (Decidable (_ → _))
  | .deliverNodes _ _ | .registerServer _ | .unregisterServer _ | .discover _ | .getConfig _ | .answer _ _
  | .deliver _ _ | .readVersion _ _ | .runNotifyDiscover _ _ | .runQueueConfig _ | .fallback | .retry _
  | .subscribe _ | .unsubscribe _ | .subscribeConfig _ | .unsubscribeConfig _ | .subscribeConfigItem _ _
  | .unsubscribeConfigItem _ _ | .enableStatic | .disableStatic | .pushStaticNodes _ _ | .poolGone => isTrue trivial

/-- What the service's subscriber was told, latest first. -/
def told (s : St) : List (String × ServiceConfig) := s.configNotified.filter fun p => p.1 = serviceName

/-- The subscriber was told the configuration of the listing, or is about to be. -/
def Heard (s : St) : Prop :=
  (serviceName, configOf c serviceName values) ∈ told serviceName s ∨
    ∃ items, .notifyConfig serviceName (configOf c serviceName values) items ∈ s.tasks

structure ConfigInv (s : St) : Prop where
  /-- The index is recorded only when its listing is passed on. -/
  index : s.lastIndexes.lookup (getConfigPath serviceName) = some values.consulIndex → Heard c serviceName values s
  /-- The version is recorded only when its values are read. -/
  version : s.configVersions.lookup serviceName = some version →
    .config serviceName (some version) ∈ s.tasks ∨ Heard c serviceName values s

/-- Only these matter for the service's config. -/
structure SameConfig (s t : St) : Prop where
  indexes : t.lastIndexes.lookup (getConfigPath serviceName) = s.lastIndexes.lookup (getConfigPath serviceName)
  versions : t.configVersions.lookup serviceName = s.configVersions.lookup serviceName
  tasks : t.tasks.filter (Task.isConfig serviceName) = s.tasks.filter (Task.isConfig serviceName)
  told : told serviceName t = told serviceName s

variable {c serviceName version values}

theorem mem_tasks_of_filter {s t : St}
    (h : t.tasks.filter (Task.isConfig serviceName) = s.tasks.filter (Task.isConfig serviceName)) {task : Task}
    (ht : task.isConfig serviceName = true) (hm : task ∈ s.tasks) : task ∈ t.tasks := by
  have hin : task ∈ s.tasks.filter (Task.isConfig serviceName) := List.mem_filter.mpr ⟨hm, ht⟩
  rw [← h] at hin
  exact (List.mem_filter.mp hin).1

/-- A notification under way stays under way or is heard. -/
theorem Heard.mono {s t : St} (hn : ∀ p ∈ told serviceName s, p ∈ told serviceName t)
    (ht : ∀ items, .notifyConfig serviceName (configOf c serviceName values) items ∈ s.tasks →
      .notifyConfig serviceName (configOf c serviceName values) items ∈ t.tasks)
    (h : Heard c serviceName values s) : Heard c serviceName values t := by
  rcases h with h | ⟨items, h⟩
  · exact Or.inl (hn _ h)
  · exact Or.inr ⟨items, ht items h⟩

theorem SameConfig.heard {s t : St} (h : SameConfig serviceName s t) (hh : Heard c serviceName values s) :
    Heard c serviceName values t := by
  refine hh.mono (fun p hp => ?_) fun items hm => ?_
  · rw [h.told]
    exact hp
  · exact mem_tasks_of_filter h.tasks (by simp [Task.isConfig]) hm

theorem SameConfig.inv {s t : St} (h : SameConfig serviceName s t) (hi : ConfigInv c serviceName version values s) :
    ConfigInv c serviceName version values t := by
  refine ⟨fun hidx => ?_, fun hver => ?_⟩
  · rw [h.indexes] at hidx
    exact h.heard (hi.index hidx)
  · rw [h.versions] at hver
    rcases hi.version hver with hm | hh
    · exact Or.inl (mem_tasks_of_filter h.tasks (by simp [Task.isConfig]) hm)
    · exact Or.inr (h.heard hh)

theorem SameConfig.idle {s t : St} (h : SameConfig serviceName s t) (hs : Idle serviceName s) : Idle serviceName t := by
  intro task ht
  cases hc : task.isConfig serviceName with
  | false => rfl
  | true =>
    have hin : task ∈ s.tasks.filter (Task.isConfig serviceName) := h.tasks ▸ List.mem_filter.mpr ⟨ht, hc⟩
    rw [← hs task (List.mem_filter.mp hin).1, hc]

theorem filter_erase_task {serviceName : String} (tasks : List Task) {task : Task}
    (ht : task.isConfig serviceName = false) :
    (tasks.erase task).filter (Task.isConfig serviceName) = tasks.filter (Task.isConfig serviceName) := by
  have hnot : task ∉ tasks.filter (Task.isConfig serviceName) := by
    intro h
    rw [List.mem_filter, ht] at h
    exact absurd h.2 (by simp)
  rw [← List.erase_filter, List.erase_of_not_mem hnot]

theorem filter_append_task {serviceName : String} (tasks : List Task) {task : Task}
    (ht : task.isConfig serviceName = false) :
    (tasks ++ [task]).filter (Task.isConfig serviceName) = tasks.filter (Task.isConfig serviceName) := by
  simp [ht]

/-! ## Steps of others -/

/-- The steps in which the service's config moves. -/
def Ev.movesConfig (serviceName : String) : Ev → Bool
  | .readVersion name _ => name = serviceName
  | .deliverConfig name _ _ => name = serviceName
  | .runNotifyConfig name _ _ => name = serviceName
  | _ => false

theorem lookup_checkUpdate_of_ne (lastIndexes : FinMap String UInt64) {key key' : String} (index : UInt64)
    (h : key' ≠ key) : (checkUpdate lastIndexes key index).2.lookup key' = lastIndexes.lookup key' := by
  unfold checkUpdate
  split
  · rfl
  · rw [FinMap.lookup_insert_ite, if_neg h]

theorem discover_sameConfig (s : St) (name : String) : SameConfig serviceName s (discover s name) := by
  unfold discover notifyDiscover
  split
  · split
    · exact ⟨rfl, rfl, filter_append_task s.tasks rfl, rfl⟩
    · exact ⟨rfl, rfl, rfl, rfl⟩
  · dsimp only
    split
    · split <;> exact ⟨rfl, rfl, rfl, rfl⟩
    · exact ⟨rfl, rfl, rfl, rfl⟩

theorem getConfig_sameConfig (s : St) (name : String) : SameConfig serviceName s (getConfig s name) := by
  unfold getConfig
  split
  · exact ⟨rfl, rfl, filter_append_task s.tasks rfl, rfl⟩
  · exact ⟨rfl, rfl, rfl, rfl⟩

theorem registerServer_sameConfig (s : St) (server : Server) : SameConfig serviceName s (registerServer c s server) := by
  unfold registerServer
  split
  · exact ⟨rfl, rfl, rfl, rfl⟩
  · split <;> exact ⟨rfl, rfl, rfl, rfl⟩

theorem unregisterServer_sameConfig (s : St) (server : Server) :
    SameConfig serviceName s (unregisterServer s server) := by
  unfold unregisterServer
  split <;> exact ⟨rfl, rfl, rfl, rfl⟩

theorem retry_sameConfig {s t : St} {key : String} (h : retry c s key = some t) : SameConfig serviceName s t := by
  have hwork : ∀ u, SameConfig serviceName { s with work := s.work.erase key } u → SameConfig serviceName s u :=
    fun u hu => ⟨hu.indexes, hu.versions, hu.tasks, hu.told⟩
  unfold retry at h
  split at h
  · cases h
  · split at h <;> cases h <;> refine hwork _ ?_
    · exact registerServer_sameConfig _ _
    · exact unregisterServer_sameConfig _ _
    · exact discover_sameConfig _ _
    · exact getConfig_sameConfig _ _

theorem deliverNodes_sameConfig (s : St) (name : String) (res : Option ConsulValues) :
    SameConfig serviceName s (deliverNodes c s name res) := by
  have herase : (s.tasks.erase (.nodes name)).filter (Task.isConfig serviceName) =
      s.tasks.filter (Task.isConfig serviceName) := filter_erase_task s.tasks rfl
  cases res with
  | none => exact ⟨rfl, rfl, herase, rfl⟩
  | some values =>
    have hidx := lookup_checkUpdate_of_ne s.lastIndexes values.consulIndex
      (Ne.symm (getNodesPath_ne_getConfigPath name serviceName))
    simp only [deliverNodes, processDiscover]
    split
    · exact ⟨hidx, rfl, herase, rfl⟩
    · exact ⟨hidx, rfl, (filter_append_task _ rfl).trans herase, rfl⟩

theorem readVersion_sameConfig (s : St) {name : String} (hname : name ≠ serviceName) (res : Option String) :
    SameConfig serviceName s (readVersion c s name res) := by
  have herase : (s.tasks.erase (.version name)).filter (Task.isConfig serviceName) =
      s.tasks.filter (Task.isConfig serviceName) := filter_erase_task s.tasks rfl
  have hver : (checkConfigUpdate c s.configVersions name res).2.1.lookup serviceName =
      s.configVersions.lookup serviceName := by
    unfold checkConfigUpdate
    split
    · rfl
    · dsimp only
      split
      · rfl
      · rw [FinMap.lookup_insert_ite, if_neg (Ne.symm hname)]
  simp only [readVersion]
  split
  · exact ⟨rfl, hver, (filter_append_task _ (by simp [Task.isConfig, hname])).trans herase, rfl⟩
  · exact ⟨rfl, hver, herase, rfl⟩

theorem deliverConfig_sameConfig (s : St) {name : String} (hname : name ≠ serviceName) (round : Option String)
    (res : Option ConsulValues) : SameConfig serviceName s (deliverConfig c s name round res) := by
  have herase : (s.tasks.erase (.config name round)).filter (Task.isConfig serviceName) =
      s.tasks.filter (Task.isConfig serviceName) := filter_erase_task s.tasks (by simp [Task.isConfig, hname])
  cases res with
  | none => exact ⟨rfl, rfl, herase, rfl⟩
  | some values =>
    have hidx := lookup_checkUpdate_of_ne s.lastIndexes values.consulIndex
      (fun h => hname (getConfigPath_inj h).symm : getConfigPath serviceName ≠ getConfigPath name)
    simp only [deliverConfig, processConfig]
    split
    · exact ⟨hidx, rfl, (filter_append_task _ rfl).trans herase, rfl⟩
    · split
      · exact ⟨hidx, rfl, herase, rfl⟩
      · exact ⟨hidx, rfl, (filter_append_task _ (by simp [Task.isConfig, hname])).trans herase, rfl⟩

/-- Every other step leaves the service's config alone. -/
theorem sameConfig_step {s t : St} {e : Ev} (he : e.movesConfig serviceName = false) (h : step c s e = some t) :
    SameConfig serviceName s t := by
  cases e with
  | readVersion name res =>
    obtain ⟨-, rfl⟩ := Lib.guard_some.mp h
    exact readVersion_sameConfig s (by simpa [Ev.movesConfig] using he) res
  | deliverConfig name round res =>
    obtain ⟨-, rfl⟩ := Lib.guard_some.mp h
    exact deliverConfig_sameConfig s (by simpa [Ev.movesConfig] using he) round res
  | runNotifyConfig name config items =>
    obtain ⟨-, rfl⟩ := Lib.guard_some.mp h
    have hname : name ≠ serviceName := by simpa [Ev.movesConfig] using he
    have herase : (s.tasks.erase (.notifyConfig name config items)).filter (Task.isConfig serviceName) =
        s.tasks.filter (Task.isConfig serviceName) := filter_erase_task s.tasks (by simp [Task.isConfig, hname])
    simp only [notifyConfig]
    split
    · exact ⟨rfl, rfl, herase, by simp [told, hname]⟩
    · exact ⟨rfl, rfl, herase, rfl⟩
  | deliverNodes name res =>
    obtain ⟨-, rfl⟩ := Lib.guard_some.mp h
    exact deliverNodes_sameConfig s name res
  | runNotifyDiscover name servers =>
    obtain ⟨-, rfl⟩ := Lib.guard_some.mp h
    have herase : (s.tasks.erase (.notifyDiscover name servers)).filter (Task.isConfig serviceName) =
      s.tasks.filter (Task.isConfig serviceName) := filter_erase_task s.tasks rfl
    unfold notifyDiscover
    split <;> exact ⟨rfl, rfl, herase, rfl⟩
  | runQueueConfig name =>
    obtain ⟨-, rfl⟩ := Lib.guard_some.mp h
    exact ⟨rfl, rfl, filter_erase_task s.tasks rfl, rfl⟩
  | registerServer server =>
    cases h
    exact registerServer_sameConfig s server
  | unregisterServer server =>
    cases h
    exact unregisterServer_sameConfig s server
  | discover name =>
    cases h
    exact discover_sameConfig s name
  | getConfig name =>
    cases h
    exact getConfig_sameConfig s name
  | answer r ok =>
    obtain ⟨-, rfl⟩ := Lib.guard_some.mp h
    exact ⟨rfl, rfl, rfl, rfl⟩
  | deliver r ok =>
    obtain ⟨-, rfl⟩ := Lib.guard_some.mp h
    simp only [deliver]
    split <;> exact ⟨rfl, rfl, rfl, rfl⟩
  | fallback =>
    obtain ⟨-, rfl⟩ := Lib.guard_some.mp h
    exact ⟨rfl, rfl, rfl, rfl⟩
  | retry key => exact retry_sameConfig h
  | subscribe _ | unsubscribe _ | subscribeConfig _ | unsubscribeConfig _ | subscribeConfigItem _ _
  | unsubscribeConfigItem _ _ | enableStatic | disableStatic | pushStaticNodes _ _ | poolGone =>
    cases h
    exact ⟨rfl, rfl, rfl, rfl⟩

/-! ## The service's own steps -/

theorem lookup_checkUpdate_self (lastIndexes : FinMap String UInt64) (key : String) (index : UInt64) :
    (index = (lastIndexes.lookup key).getD 0 ∧ checkUpdate lastIndexes key index = (false, lastIndexes)) ∨
    (index ≠ (lastIndexes.lookup key).getD 0 ∧
      checkUpdate lastIndexes key index = (true, lastIndexes.insert key index)) := by
  unfold checkUpdate
  split
  · exact Or.inl ⟨‹_›, rfl⟩
  · exact Or.inr ⟨‹_›, rfl⟩

theorem mem_erase_config {tasks : List Task} {task : Task} {round : Option String} (hm : task ∈ tasks)
    (hne : task ≠ .config serviceName round) : task ∈ tasks.erase (.config serviceName round) :=
  (List.mem_erase_of_ne hne).mpr hm

/-- The tasks after a values read: what was there without it, and more. -/
theorem deliverConfig_keeps (s : St) (round : Option String) (res : Option ConsulValues) {task : Task}
    (hm : task ∈ s.tasks) (hne : task ≠ .config serviceName round) :
    task ∈ (deliverConfig c s serviceName round res).tasks := by
  have herase := mem_erase_config hm hne
  cases res with
  | none => exact herase
  | some vs =>
    simp only [deliverConfig, processConfig]
    split
    · exact List.mem_append_left _ herase
    · split
      · exact herase
      · exact List.mem_append_left _ herase

theorem deliverConfig_rest (s : St) (name : String) (round : Option String) (res : Option ConsulValues) :
    (deliverConfig c s name round res).configNotified = s.configNotified ∧
      (deliverConfig c s name round res).configVersions = s.configVersions := by
  cases res with
  | none => exact ⟨rfl, rfl⟩
  | some vs =>
    simp only [deliverConfig, processConfig]
    split
    · exact ⟨rfl, rfl⟩
    · split <;> exact ⟨rfl, rfl⟩

/-- What was heard stays heard across a values read. -/
theorem Heard.deliverConfig {s : St} (hh : Heard c serviceName values s) (round : Option String)
    (res : Option ConsulValues) : Heard c serviceName values (deliverConfig c s serviceName round res) := by
  refine hh.mono (fun p hp => ?_) fun items hm => deliverConfig_keeps s round res hm (by simp)
  rw [told, (deliverConfig_rest s serviceName round res).1]
  exact hp

/-- The listing itself is heard when it is read. -/
theorem heard_of_listing (hne : values.value ≠ []) (h0 : values.consulIndex ≠ 0) {s : St}
    (hi : ConfigInv c serviceName version values s) (round : Option String) :
    Heard c serviceName values (deliverConfig c s serviceName round (some values)) := by
  rcases lookup_checkUpdate_self s.lastIndexes (getConfigPath serviceName) values.consulIndex with ⟨hidx, -⟩ | ⟨-, hup⟩
  · -- its index is recorded already
    refine (hi.index ?_).deliverConfig round (some values)
    cases hl : s.lastIndexes.lookup (getConfigPath serviceName) with
    | none =>
      rw [hl] at hidx
      exact absurd hidx h0
    | some i =>
      rw [hl] at hidx
      rw [hidx]
      rfl
  · refine Or.inr ⟨(readConfig c serviceName values.value).2, ?_⟩
    simp only [deliverConfig, processConfig, hup, if_neg hne, Bool.not_true, Bool.false_eq_true, if_false]
    exact List.mem_append_right _ (List.mem_singleton.mpr rfl)

/-- A listing with another index does not leave the index of `values` behind. -/
theorem index_of_deliverConfig {s : St} {round : Option String} {vs : ConsulValues}
    (hvs : vs.consulIndex ≠ values.consulIndex)
    (h : (deliverConfig c s serviceName round (some vs)).lastIndexes.lookup (getConfigPath serviceName) =
      some values.consulIndex) : s.lastIndexes.lookup (getConfigPath serviceName) = some values.consulIndex := by
  have hlast : (deliverConfig c s serviceName round (some vs)).lastIndexes =
      (checkUpdate s.lastIndexes (getConfigPath serviceName) vs.consulIndex).2 := by
    simp only [deliverConfig, processConfig]
    split
    · rfl
    · split <;> rfl
  rw [hlast] at h
  rcases lookup_checkUpdate_self s.lastIndexes (getConfigPath serviceName) vs.consulIndex with ⟨-, hup⟩ | ⟨-, hup⟩
  · rw [hup] at h
    exact h
  · rw [hup, FinMap.lookup_insert_ite, if_pos rfl] at h
    exact absurd (Option.some.inj h) hvs

theorem inv_deliverConfig (hne : values.value ≠ []) (h0 : values.consulIndex ≠ 0) {s : St} {round : Option String}
    {res : Option ConsulValues} (hi : ConfigInv c serviceName version values s)
    (ho : Fetched serviceName version values s (.deliverConfig serviceName round res)) :
    ConfigInv c serviceName version values (deliverConfig c s serviceName round res) := by
  have hversion : (deliverConfig c s serviceName round res).configVersions.lookup serviceName = some version →
      round ≠ some version → .config serviceName (some version) ∈ (deliverConfig c s serviceName round res).tasks ∨
        Heard c serviceName values (deliverConfig c s serviceName round res) := by
    intro hver hround
    rw [(deliverConfig_rest s serviceName round res).2] at hver
    rcases hi.version hver with hm | hh
    · exact Or.inl (deliverConfig_keeps s round res hm (by simpa using Ne.symm hround))
    · exact Or.inr (hh.deliverConfig round res)
  cases res with
  | none => exact ⟨fun hidx => (hi.index hidx).deliverConfig round none, fun hver => hversion hver (ho rfl)⟩
  | some vs =>
    obtain ⟨hround, hindex⟩ := ho rfl
    by_cases hvs : vs.consulIndex = values.consulIndex
    · rw [hindex hvs]
      have hh := heard_of_listing hne h0 hi round
      exact ⟨fun _ => hh, fun _ => Or.inr hh⟩
    · refine ⟨fun hidx => (hi.index (index_of_deliverConfig hvs hidx)).deliverConfig round (some vs), fun hver => ?_⟩
      exact hversion hver fun hr => hvs (by rw [hround hr])

theorem readVersion_cases (serviceName : String) (s : St) (res : Option String) :
    (∃ value, res = some value ∧ s.configVersions.lookup serviceName = some (c.base64 value) ∧
      readVersion c s serviceName res = { s with tasks := s.tasks.erase (.version serviceName) }) ∨
    (res = none ∧ readVersion c s serviceName res =
      { s with tasks := s.tasks.erase (.version serviceName) ++ [.config serviceName none] }) ∨
    ∃ value, res = some value ∧ s.configVersions.lookup serviceName ≠ some (c.base64 value) ∧
      readVersion c s serviceName res =
        { s with tasks := s.tasks.erase (.version serviceName) ++ [.config serviceName (some (c.base64 value))],
                 configVersions := s.configVersions.insert serviceName (c.base64 value) } := by
  cases res with
  | none => exact Or.inr (Or.inl ⟨rfl, rfl⟩)
  | some value =>
    by_cases hver : s.configVersions.lookup serviceName = some (c.base64 value)
    · exact Or.inl ⟨value, rfl, hver, by simp [readVersion, checkConfigUpdate, hver]⟩
    · exact Or.inr (Or.inr ⟨value, rfl, hver, by simp [readVersion, checkConfigUpdate, hver]⟩)

theorem inv_readVersion {s : St} (hi : ConfigInv c serviceName version values s) (res : Option String) :
    ConfigInv c serviceName version values (readVersion c s serviceName res) := by
  have hkeep : ∀ {task : Task}, task ∈ s.tasks → task.isConfig serviceName = true →
      task ∈ s.tasks.erase (.version serviceName) := by
    intro task hm hc
    refine (List.mem_erase_of_ne fun h => ?_).mpr hm
    rw [h] at hc
    cases hc
  have hheard : ∀ {t : St}, t.configNotified = s.configNotified →
      (∀ task ∈ s.tasks.erase (.version serviceName), task ∈ t.tasks) → Heard c serviceName values s →
      Heard c serviceName values t := by
    intro t hn ht hh
    refine hh.mono (fun p hp => ?_) fun items hm => ht _ (hkeep hm (by simp [Task.isConfig]))
    rw [told, hn]
    exact hp
  rcases readVersion_cases (c := c) serviceName s res with
    ⟨value, -, -, h⟩ | ⟨-, h⟩ | ⟨value, -, -, h⟩ <;> rw [h]
  · refine ⟨fun hidx => hheard rfl (fun _ ht => ht) (hi.index hidx), fun hver => ?_⟩
    rcases hi.version hver with hm | hh
    · exact Or.inl (hkeep hm (by simp [Task.isConfig]))
    · exact Or.inr (hheard rfl (fun _ ht => ht) hh)
  · refine ⟨fun hidx => hheard rfl (fun _ ht => List.mem_append_left _ ht) (hi.index hidx), fun hver => ?_⟩
    rcases hi.version hver with hm | hh
    · exact Or.inl (List.mem_append_left _ (hkeep hm (by simp [Task.isConfig])))
    · exact Or.inr (hheard rfl (fun _ ht => List.mem_append_left _ ht) hh)
  · refine ⟨fun hidx => hheard rfl (fun _ ht => List.mem_append_left _ ht) (hi.index hidx), fun hver => ?_⟩
    -- the recorded version is the one whose values are read now
    rw [FinMap.lookup_insert_ite, if_pos rfl] at hver
    rw [Option.some.inj hver]
    exact Or.inl (List.mem_append_right _ (List.mem_singleton.mpr rfl))

theorem inv_notifyConfig {s : St} (hi : ConfigInv c serviceName version values s) (config : ServiceConfig)
    (items : List (String × String)) (hsub : serviceName ∈ s.configSubscribers) :
    ConfigInv c serviceName version values (notifyConfig
      { s with tasks := s.tasks.erase (.notifyConfig serviceName config items) } serviceName config items) := by
  have heq : notifyConfig { s with tasks := s.tasks.erase (.notifyConfig serviceName config items) }
      serviceName config items = { s with
        tasks := s.tasks.erase (.notifyConfig serviceName config items)
        configItemNotified := (items.filterMap fun item =>
          (s.configItemSubscribers.lookup (serviceName ++ item.1)).map fun subscriber =>
            (subscriber.1, subscriber.2, item.2)).reverse ++ s.configItemNotified
        configNotified := (serviceName, config) :: s.configNotified } := by
    simp only [notifyConfig, if_pos hsub]
  have hheard : Heard c serviceName values s → Heard c serviceName values (notifyConfig
      { s with tasks := s.tasks.erase (.notifyConfig serviceName config items) } serviceName config items) := by
    rw [heq]
    intro hh
    rcases hh with hh | ⟨items', hm⟩
    · exact Or.inl (List.mem_filter.mpr ⟨List.mem_cons_of_mem _ (List.mem_filter.mp hh).1, by simp⟩)
    · by_cases hsame : (.notifyConfig serviceName (configOf c serviceName values) items' : Task) =
          .notifyConfig serviceName config items
      · obtain ⟨-, hconf, -⟩ := Task.notifyConfig.inj hsame
        exact Or.inl (List.mem_filter.mpr ⟨by rw [hconf]; exact List.mem_cons_self, by simp⟩)
      · exact Or.inr ⟨items', (List.mem_erase_of_ne hsame).mpr hm⟩
  refine ⟨fun hidx => ?_, fun hver => ?_⟩
  · rw [heq] at hidx
    exact hheard (hi.index hidx)
  · rw [heq] at hver
    rcases hi.version hver with hm | hh
    · rw [heq]
      exact Or.inl ((List.mem_erase_of_ne (by simp)).mpr hm)
    · exact Or.inr (hheard hh)

theorem configInv_step (hne : values.value ≠ []) (h0 : values.consulIndex ≠ 0) {s t : St} {e : Ev}
    (hi : ConfigInv c serviceName version values s) (ho : Fetched serviceName version values s e)
    (h : step c s e = some t) : ConfigInv c serviceName version values t := by
  cases hmove : e.movesConfig serviceName with
  | false => exact (sameConfig_step hmove h).inv hi
  | true =>
    cases e with
    | readVersion name res =>
      obtain ⟨-, rfl⟩ := Lib.guard_some.mp h
      obtain rfl : name = serviceName := by simpa [Ev.movesConfig] using hmove
      exact inv_readVersion hi res
    | deliverConfig name round res =>
      obtain ⟨-, rfl⟩ := Lib.guard_some.mp h
      obtain rfl : name = serviceName := by simpa [Ev.movesConfig] using hmove
      exact inv_deliverConfig hne h0 hi ho
    | runNotifyConfig name config items =>
      obtain ⟨-, rfl⟩ := Lib.guard_some.mp h
      obtain rfl : name = serviceName := by simpa [Ev.movesConfig] using hmove
      exact inv_notifyConfig hi config items (ho rfl)
    | _ => cases hmove

/-! ## Runs -/

/-- A version read of the service gives the version. -/
def Ev.ReadsVersion (c : Codec) (serviceName version : String) (e : Ev) : Prop :=
  ∀ res, e = .readVersion serviceName res → ∃ value, res = some value ∧ c.base64 value = version

theorem version_step {s t : St} {e : Ev} (hver : s.configVersions.lookup serviceName = some version)
    (he : e.ReadsVersion c serviceName version) (h : step c s e = some t) :
    t.configVersions.lookup serviceName = some version := by
  cases hmove : e.movesConfig serviceName with
  | false => exact (sameConfig_step hmove h).versions.trans hver
  | true =>
    cases e with
    | readVersion name res =>
      obtain ⟨-, rfl⟩ := Lib.guard_some.mp h
      obtain rfl : name = serviceName := by simpa [Ev.movesConfig] using hmove
      obtain ⟨value, rfl, rfl⟩ := he res rfl
      rcases readVersion_cases (c := c) name s (some value) with ⟨-, -, -, h⟩ | ⟨hnone, -⟩ | ⟨value', hval, hne, -⟩
      · rw [h]
        exact hver
      · cases hnone
      · cases hval
        exact absurd hver hne
    | deliverConfig name round res =>
      obtain ⟨-, rfl⟩ := Lib.guard_some.mp h
      rw [(deliverConfig_rest s name round res).2]
      exact hver
    | runNotifyConfig name config items =>
      obtain ⟨-, rfl⟩ := Lib.guard_some.mp h
      simp only [notifyConfig]
      split <;> exact hver
    | _ => cases hmove

theorem version_run {s t : St} {es : List Ev} (hver : s.configVersions.lookup serviceName = some version)
    (hes : ∀ e ∈ es, e.ReadsVersion c serviceName version) (hr : Lib.run (step c) s es = some t) :
    t.configVersions.lookup serviceName = some version :=
  Lib.run_history (step c) (fun _ e => e.ReadsVersion c serviceName version)
    (fun _ s => s.configVersions.lookup serviceName = some version) (fun _ _ _ _ hs he h => version_step hs he h) [] hver
    (Lib.meets_of_forall _ (fun e he _ => hes e he) s) hr

/-- A version read that gives the version leaves it recorded. -/
theorem version_of_readVersion {s t : St} {value : String} (h : step c s (.readVersion serviceName (some value)) = some t) :
    t.configVersions.lookup serviceName = some (c.base64 value) := by
  obtain ⟨-, rfl⟩ := Lib.guard_some.mp h
  rcases readVersion_cases (c := c) serviceName s (some value) with ⟨_, hval, hver, h⟩ | ⟨hnone, -⟩ | ⟨_, hval, -, h⟩
  · rw [h, Option.some.inj hval]
    exact hver
  · cases hnone
  · rw [h, Option.some.inj hval, FinMap.lookup_insert_ite, if_pos rfl]

/-- Once a version read has given the version, the later ones give it too and nothing of the
    service is in flight, the subscriber has been told its configuration. -/
theorem config_is_told (hne : values.value ≠ []) (h0 : values.consulIndex ≠ 0) {pre post : List Ev} {value : String}
    {t : St} (hm : Lib.Meets (step c) (Fetched serviceName (c.base64 value) values) {}
      (pre ++ .readVersion serviceName (some value) :: post))
    (hr : Lib.run (step c) {} (pre ++ .readVersion serviceName (some value) :: post) = some t)
    (hpost : ∀ e ∈ post, e.ReadsVersion c serviceName (c.base64 value)) (hidle : Idle serviceName t) :
    (serviceName, configOf c serviceName values) ∈ t.configNotified := by
  have hinit : ConfigInv c serviceName (c.base64 value) values {} :=
    ⟨fun h => by simp at h, fun h => by simp at h⟩
  have hi : ConfigInv c serviceName (c.base64 value) values t :=
    Lib.run_history (step c) (Fetched serviceName (c.base64 value) values)
      (fun _ s => ConfigInv c serviceName (c.base64 value) values s)
      (fun _ _ _ _ hs ho h => configInv_step hne h0 hs ho h) [] hinit hm hr
  have hver : t.configVersions.lookup serviceName = some (c.base64 value) := by
    obtain ⟨s, -, hr⟩ := (Lib.run_append_some _).mp hr
    obtain ⟨u, hu, hr⟩ := (Lib.run_cons_some _).mp hr
    exact version_run (version_of_readVersion hu) hpost hr
  rcases hi.version hver with htask | htold | ⟨items, htask⟩
  · exact absurd (hidle _ htask) (by simp [Task.isConfig])
  · exact (List.mem_filter.mp htold).1
  · exact absurd (hidle _ htask) (by simp [Task.isConfig])

/-- Once a version is recorded and nothing of the service is in flight, the subscriber is
    told nothing more while the version reads give that version: a fetch that failed before
    is not made again. -/
theorem untold_stays_untold {s t : St} {es : List Ev} (hver : s.configVersions.lookup serviceName = some version)
    (hidle : Idle serviceName s) (hes : ∀ e ∈ es, e.ReadsVersion c serviceName version)
    (hr : Lib.run (step c) s es = some t) : Idle serviceName t ∧ told serviceName t = told serviceName s := by
  have hstep : ∀ (_ : List Ev) (u v : St) (e : Ev),
      (u.configVersions.lookup serviceName = some version ∧ Idle serviceName u ∧
        told serviceName u = told serviceName s) → e.ReadsVersion c serviceName version → step c u e = some v →
      (v.configVersions.lookup serviceName = some version ∧ Idle serviceName v ∧
        told serviceName v = told serviceName s) := by
    intro _ u v e hu he h
    obtain ⟨hver, hidle, htold⟩ := hu
    refine ⟨version_step hver he h, ?_⟩
    cases hmove : e.movesConfig serviceName with
    | false =>
      have hsame := sameConfig_step hmove h
      exact ⟨hsame.idle hidle, hsame.told.trans htold⟩
    | true =>
      cases e with
      | readVersion name res =>
        obtain ⟨-, rfl⟩ := Lib.guard_some.mp h
        obtain rfl : name = serviceName := by simpa [Ev.movesConfig] using hmove
        obtain ⟨value, rfl, rfl⟩ := he res rfl
        rcases readVersion_cases (c := c) name u (some value) with ⟨-, -, -, h⟩ | ⟨hnone, -⟩ | ⟨_, hval, hne, -⟩
        · rw [h]
          exact ⟨fun task ht => hidle task (List.mem_of_mem_erase ht), htold⟩
        · cases hnone
        · cases hval
          exact absurd hver hne
      | deliverConfig name round res =>
        obtain ⟨hmem, -⟩ := Lib.guard_some.mp h
        exact absurd (hidle _ hmem) (by simpa [Task.isConfig, Ev.movesConfig] using hmove)
      | runNotifyConfig name config items =>
        obtain ⟨hmem, -⟩ := Lib.guard_some.mp h
        exact absurd (hidle _ hmem) (by simpa [Task.isConfig, Ev.movesConfig] using hmove)
      | _ => cases hmove
  exact (Lib.run_history (step c) (fun _ e => e.ReadsVersion c serviceName version) _ hstep [] ⟨hver, hidle, rfl⟩
    (Lib.meets_of_forall _ (fun e he _ => hes e he) s) hr).2

/-! ## A fetch that fails -/

/-- The listing of version "v2". -/
def slowListing : ConsulValues :=
  ⟨9, [⟨"ads-core/services/predictor/config/router", slowRouterValue⟩,
    ⟨"ads-core/services/predictor/config/version", "djI="⟩]⟩

/-- The version read fails first and its values read comes back empty; the retry reads the
    version and its values. -/
def fetchedRun : List Ev :=
  [.subscribeConfig "predictor", .getConfig "predictor", .readVersion "predictor" none,
    .deliverConfig "predictor" none (some ⟨3, []⟩), .runQueueConfig "predictor", .fallback,
    .retry "ads-core/services/predictor/config/"] ++
  .readVersion "predictor" (some "djI=") ::
  [.deliverConfig "predictor" (some "v2") (some slowListing),
    .runNotifyConfig "predictor" { router := slowRouter } []]

theorem config_is_told_retried :
    ∃ t, Lib.run (step plainCodec) {} fetchedRun = some t ∧
      ("predictor", configOf plainCodec "predictor" slowListing) ∈ t.configNotified := by
  have htasks : (Lib.run (step plainCodec) {} fetchedRun).map St.tasks = some [] := by decide +kernel
  have hm : Lib.Meets (step plainCodec) (Fetched "predictor" (plainCodec.base64 "djI=") slowListing) {} fetchedRun := by
    decide +kernel
  obtain ⟨t, ht, htasks⟩ := Option.map_eq_some_iff.mp htasks
  refine ⟨t, ht, config_is_told (by decide) (by decide) hm ht (fun e he res h => ?_) fun task htask => ?_⟩
  · rw [h] at he
    simp at he
  · rw [htasks] at htask
    cases htask

/-- The values read of "v2" fails; the retry and a further `getConfig` find the version
    unchanged. -/
def failedRun : List Ev :=
  [.subscribeConfig "predictor", .getConfig "predictor", .readVersion "predictor" (some "djI="),
    .deliverConfig "predictor" (some "v2") none, .fallback, .retry "ads-core/services/predictor/config/",
    .readVersion "predictor" (some "djI="), .getConfig "predictor", .readVersion "predictor" (some "djI=")]

/-- Consul answers every later read with "v2", the retry and another call are done, nothing
    is in flight or queued, and the subscriber was told nothing. -/
theorem failed_fetch_is_not_retried :
    ∃ t, Lib.run (step plainCodec) {} failedRun = some t ∧ t.tasks = [] ∧ t.fallbacks = ∅ ∧ t.work = ∅ ∧
      ("predictor", configOf plainCodec "predictor" slowListing) ∉ t.configNotified := by
  have hend : (Lib.run (step plainCodec) {} failedRun).map
      (fun t => (t.tasks, decide (t.fallbacks = ∅), decide (t.work = ∅), t.configNotified)) =
      some ([], true, true, []) := by
    decide +kernel
  obtain ⟨t, ht, hv⟩ := Option.map_eq_some_iff.mp hend
  obtain ⟨htasks, hv⟩ := Prod.mk.inj hv
  obtain ⟨hfall, hv⟩ := Prod.mk.inj hv
  obtain ⟨hwork, hnot⟩ := Prod.mk.inj hv
  refine ⟨t, ht, htasks, of_decide_eq_true hfall, of_decide_eq_true hwork, ?_⟩
  rw [hnot]
  exact List.not_mem_nil

end ConsulRegistry

end PredictorService.ServiceRouter
