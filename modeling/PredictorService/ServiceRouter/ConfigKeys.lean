/-
  PredictorService.ServiceRouter.ConfigKeys — which keys of a config listing are read as what
  (service_router/registry.cc, `ConsulRegistry::processConfig`).

  The three paths under a service's config prefix are searched anywhere in a key: first
  `version`, then `router`, then `configs/`, and of a key with the last one the letters
  after the length of the path are the name of a config item. So a key like `router.bak` is
  read as the router configuration, and of several such keys the last that decodes wins. The
  subscriber of an item is stored under the service and the key written together, where two
  may be the same text.
  - `readConfig_eq`: what the loop makes of a listing.
  - `processConfig_exact_iff`: for a listing of different keys, the router configuration is
    that of its own key, and the items are those of the keys that start with the `configs/`
    path, each told once with its own value to its own subscriber, iff no key that is read
    later as the router configuration says something else, the items read from other keys make
    up for the keys that are not read as items, and no other service names an item of which the
    text is that of one read.
  - `misfiled_perm_skipped_iff`: where the service name has no slash, the latter means that
    there are no such keys.
  - `a_backup_overrides_the_router`: the keys `router` and `router.bak`.
-/

import PredictorService.Lib.Runs
import PredictorService.ServiceRouter.Registry

namespace PredictorService.ServiceRouter

open PredictorService.Lib (FinMap run run_history meets_of_forall guard_some)
open ConsulNode

namespace ConsulRegistry

variable (c : Codec) (serviceName : String)

/-! ## How a key is read -/

def readsRouter (t : ConsulValue) : Bool :=
  !contains t.key (getConfigVersionPath serviceName) && contains t.key (getRouterConfigPath serviceName)

def readsItem (t : ConsulValue) : Bool :=
  !contains t.key (getConfigVersionPath serviceName) && !contains t.key (getRouterConfigPath serviceName) &&
    contains t.key (getConfigsPath serviceName)

def routerOf (t : ConsulValue) : Option ServiceRouterConfig := c.parseRouterConfig (c.base64 t.value)

/-- The router configuration that a pair sets. -/
def routerRead (t : ConsulValue) : Option ServiceRouterConfig :=
  if readsRouter serviceName t then routerOf c t else none

/-- What stands behind the `configs/` path, and the value. -/
def itemOf (t : ConsulValue) : String × String :=
  (String.ofList (t.key.toList.drop (getConfigsPath serviceName).length), c.base64 t.value)

def itemsRead (values : List ConsulValue) : List (String × String) :=
  (values.filter (readsItem serviceName)).map (itemOf c serviceName)

theorem readConfigItem_eq (acc : ServiceConfig × List (String × String)) (t : ConsulValue) :
    readConfigItem c serviceName acc t =
      ({ router := (routerRead c serviceName t).getD acc.1.router,
         configs := FinMap.insertAll acc.1.configs (itemsRead c serviceName [t]) },
       acc.2 ++ itemsRead c serviceName [t]) := by
  unfold readConfigItem routerRead itemsRead readsRouter readsItem
  by_cases hversion : contains t.key (getConfigVersionPath serviceName)
  · simp [hversion, FinMap.insertAll]
  · by_cases hrouter : contains t.key (getRouterConfigPath serviceName)
    · cases hdecode : routerOf c t with
      | none =>
        rw [routerOf] at hdecode
        simp [hversion, hrouter, hdecode, FinMap.insertAll]
      | some router =>
        rw [routerOf] at hdecode
        simp [hversion, hrouter, hdecode, FinMap.insertAll]
    · by_cases hconfigs : contains t.key (getConfigsPath serviceName) <;>
        simp [hversion, hrouter, hconfigs, FinMap.insertAll, itemOf]

/-- The last pair that sets the router configuration wins, and the items are read in
    order. -/
theorem readConfig_eq (values : List ConsulValue) :
    readConfig c serviceName values =
      ({ router := (values.reverse.findSome? (routerRead c serviceName)).getD {},
         configs := FinMap.insertAll ∅ (itemsRead c serviceName values) },
       itemsRead c serviceName values) := by
  induction values using List.reverseRecOn with
  | nil => rfl
  | append_singleton values t ih =>
    have happend : itemsRead c serviceName (values ++ [t]) =
        itemsRead c serviceName values ++ itemsRead c serviceName [t] := by simp [itemsRead]
    rw [readConfig, List.foldl_append, List.foldl_cons, List.foldl_nil]
    rw [readConfig] at ih
    rw [ih, readConfigItem_eq, happend]
    have hrouter : ((values ++ [t]).reverse.findSome? (routerRead c serviceName)).getD {} =
        (routerRead c serviceName t).getD ((values.reverse.findSome? (routerRead c serviceName)).getD {}) := by
      rw [List.reverse_append, List.reverse_singleton, List.singleton_append, List.findSome?_cons]
      cases routerRead c serviceName t <;> rfl
    rw [hrouter]
    simp only [FinMap.insertAll, List.foldl_append]

/-! ## What a listing says -/

/-- The key starts with the `configs/` path. -/
def isItemKey (t : ConsulValue) : Bool := (getConfigsPath serviceName).toList <+: t.key.toList

/-- The router configuration under its own key, or the default. -/
def ownRouter (values : List ConsulValue) : ServiceRouterConfig :=
  ((values.find? fun t => t.key = getRouterConfigPath serviceName).bind (routerOf c)).getD {}

/-- The items of a listing. -/
def ownItems (values : List ConsulValue) : List (String × String) :=
  (values.filter (isItemKey serviceName)).map (itemOf c serviceName)

/-- The service and the key that a call for an item subscriber names. -/
def Ev.item : Ev → Option (String × String)
  | .subscribeConfigItem serviceName configKey => some (serviceName, configKey)
  | .unsubscribeConfigItem serviceName configKey => some (serviceName, configKey)
  | _ => none

def subscribeItem (subscribed : Finset (String × String)) : Ev → Finset (String × String)
  | .subscribeConfigItem serviceName configKey => insert (serviceName, configKey) subscribed
  | .unsubscribeConfigItem serviceName configKey => subscribed.erase (serviceName, configKey)
  | _ => subscribed

/-- The items whose latest call was a subscription. -/
def subscribedItems (es : List Ev) : Finset (String × String) := es.foldl subscribeItem ∅

/-- A notified configuration is that of the listing: the router configuration of its own
    key, the items of the keys that start with the `configs/` path, and the subscriber of
    each is told it once, in every run in which other services name the items `others`. -/
structure ExactConfig (others : Set (String × String)) (values : List ConsulValue) (config : ServiceConfig)
    (items : List (String × String)) : Prop where
  router : config.router = ownRouter c serviceName values
  configs : ∀ configKey v, config.configs.lookup configKey = some v ↔
    ∃ t ∈ values, t.key = getConfigsPath serviceName ++ configKey ∧ c.base64 t.value = v
  told : ∀ es u, run (step c) {} es = some u → (∀ e ∈ es, ∀ p, e.item = some p → p.1 = serviceName ∨ p ∈ others) →
    (notifyConfig u serviceName config items).configItemNotified.Perm
      (((ownItems c serviceName values).filter fun item => (serviceName, item.1) ∈ subscribedItems es).map
        (fun item => (serviceName, item)) ++ u.configItemNotified)

/-- The last pair that sets the router configuration. -/
def LastRouter (values : List ConsulValue) (t : ConsulValue) : Prop :=
  ∃ before after, values = before ++ t :: after ∧ (routerRead c serviceName t).isSome ∧
    ∀ u ∈ after, routerRead c serviceName u = none

/-- The items read from keys that do not start with the `configs/` path. -/
def misfiled (values : List ConsulValue) : List (String × String) :=
  (values.filter fun t => readsItem serviceName t && !isItemKey serviceName t).map (itemOf c serviceName)

/-- The items of keys that start with the path and are not read as items. -/
def skipped (values : List ConsulValue) : List (String × String) :=
  (values.filter fun t => isItemKey serviceName t && !readsItem serviceName t).map (itemOf c serviceName)

/-- The condition on a listing, and on the items of other services. -/
structure FiledRight (others : Set (String × String)) (values : List ConsulValue) : Prop where
  router : ∀ t, LastRouter c serviceName values t →
    t.key = getRouterConfigPath serviceName ∨ routerOf c t = some (ownRouter c serviceName values)
  items : (misfiled c serviceName values).Perm (skipped c serviceName values)
  apart : ∀ p ∈ others, p.1 ≠ serviceName → ∀ item ∈ itemsRead c serviceName values, p.1 ++ p.2 ≠ serviceName ++ item.1

/-- The items that are told. -/
def heardItems (u : St) (items : List (String × String)) : List (String × String × String) :=
  items.filterMap fun item =>
    (u.configItemSubscribers.lookup (serviceName ++ item.1)).map fun subscriber => (subscriber.1, subscriber.2, item.2)

section Exact

variable {c serviceName} {values : List ConsulValue}

/-! ## The router configuration -/

theorem routerRead_eq_some {t : ConsulValue} {r : ServiceRouterConfig} (h : routerRead c serviceName t = some r) :
    routerOf c t = some r := by
  unfold routerRead at h
  split at h
  · exact h
  · cases h

theorem findSome_routerRead {r : ServiceRouterConfig} :
    values.reverse.findSome? (routerRead c serviceName) = some r ↔
      ∃ t, LastRouter c serviceName values t ∧ routerRead c serviceName t = some r := by
  rw [List.findSome?_eq_some_iff]
  constructor
  · intro h
    obtain ⟨after, t, before, hvalues, ht, hafter⟩ := h
    refine ⟨t, ⟨before.reverse, after.reverse, ?_, by rw [ht]; rfl, fun u hu => hafter u (List.mem_reverse.mp hu)⟩, ht⟩
    rw [← List.reverse_reverse values, hvalues]
    simp
  · intro h
    obtain ⟨t, ⟨before, after, rfl, -, hafter⟩, ht⟩ := h
    exact ⟨after.reverse, t, before.reverse, by simp, ht, fun u hu => hafter u (List.mem_reverse.mp hu)⟩

/-- The key of the router configuration is read as that: the path of the version is longer. -/
theorem routerRead_own {t : ConsulValue} (hkey : t.key = getRouterConfigPath serviceName) :
    routerRead c serviceName t = routerOf c t := by
  have hversion : contains t.key (getConfigVersionPath serviceName) = false := by
    rw [contains, decide_eq_false_iff_not, hkey]
    intro h
    have hlen := h.length_le
    have hshort : "router".toList.length = 6 := by decide
    have hlong : "version".toList.length = 7 := by decide
    simp only [getConfigVersionPath, getRouterConfigPath, String.toList_append, List.length_append] at hlen
    omega
  have hrouter : contains t.key (getRouterConfigPath serviceName) = true := by
    rw [contains, decide_eq_true_eq, hkey]
  rw [routerRead, readsRouter, hversion, hrouter]
  rfl

theorem ownRouter_of_mem (hkeys : (values.map (·.key)).Nodup) {t : ConsulValue} (ht : t ∈ values)
    (hkey : t.key = getRouterConfigPath serviceName) :
    ownRouter c serviceName values = (routerOf c t).getD {} := by
  cases hfind : values.find? fun t => t.key = getRouterConfigPath serviceName with
  | none =>
    have hno := List.find?_eq_none.mp hfind t ht
    exact absurd hkey (by simpa using hno)
  | some u =>
    have hu : u.key = getRouterConfigPath serviceName := by simpa using List.find?_some hfind
    have hsame : u = t := List.inj_on_of_nodup_map hkeys (List.mem_of_find?_eq_some hfind) ht (hu.trans hkey.symm)
    rw [ownRouter, hfind, hsame, Option.bind_some]

/-- The router configuration is its own key's iff the last one read is, or says the same. -/
theorem router_exact_iff (hkeys : (values.map (·.key)).Nodup) :
    (values.reverse.findSome? (routerRead c serviceName)).getD {} = ownRouter c serviceName values ↔
      ∀ t, LastRouter c serviceName values t →
        t.key = getRouterConfigPath serviceName ∨ routerOf c t = some (ownRouter c serviceName values) := by
  constructor
  · intro h t hlast
    obtain ⟨before, after, hvalues, hsome, hafter⟩ := hlast
    obtain ⟨r, hr⟩ := Option.isSome_iff_exists.mp hsome
    have hfind := findSome_routerRead.mpr ⟨t, ⟨before, after, hvalues, hsome, hafter⟩, hr⟩
    rw [hfind, Option.getD_some] at h
    exact Or.inr (by rw [← h, routerRead_eq_some hr])
  · intro h
    cases hfind : values.reverse.findSome? (routerRead c serviceName) with
    | some r =>
      obtain ⟨t, hlast, hr⟩ := findSome_routerRead.mp hfind
      have ht : t ∈ values := by
        obtain ⟨before, after, rfl, -⟩ := hlast
        simp
      rcases h t hlast with hkey | hsame
      · rw [ownRouter_of_mem hkeys ht hkey, routerRead_eq_some hr]
      · rw [routerRead_eq_some hr] at hsame
        rw [Option.getD_some, Option.some.inj hsame]
    | none =>
      -- nothing is read, and so the own key, if there, does not decode
      have hnone : ∀ t ∈ values, t.key = getRouterConfigPath serviceName → routerOf c t = none := by
        intro t ht hkey
        rw [← routerRead_own hkey]
        exact List.findSome?_eq_none_iff.mp hfind t (List.mem_reverse.mpr ht)
      rw [ownRouter]
      cases hown : values.find? fun t => t.key = getRouterConfigPath serviceName with
      | none => rfl
      | some t =>
        have hkey : t.key = getRouterConfigPath serviceName := by simpa using List.find?_some hown
        rw [Option.bind_some, hnone t (List.mem_of_find?_eq_some hown) hkey]

/-! ## The items -/

/-- What only one of two filters lets through decides whether they let the same through. -/
theorem map_filter_perm_iff {α β : Type} (f : α → β) (p q : α → Bool) (l : List α) :
    ((l.filter p).map f).Perm ((l.filter q).map f) ↔
      ((l.filter fun x => p x && !q x).map f).Perm ((l.filter fun x => q x && !p x).map f) := by
  have hsplit : ∀ p q : α → Bool, ((l.filter p).map f).Perm
      ((l.filter fun x => p x && q x).map f ++ (l.filter fun x => p x && !q x).map f) := by
    intro p q
    have h := (List.filter_append_perm q (l.filter p)).symm.map f
    simpa only [List.filter_filter, List.map_append, Bool.and_comm] using h
  have hboth : (l.filter fun x => p x && q x) = l.filter fun x => q x && p x := by simp only [Bool.and_comm]
  constructor
  · intro h
    have hall := ((hsplit p q).symm.trans h).trans (hsplit q p)
    rw [hboth] at hall
    exact (List.perm_append_left_iff _).mp hall
  · intro h
    have hall := hsplit p q
    rw [hboth] at hall
    exact (hall.trans (h.append_left _)).trans (hsplit q p).symm

theorem items_perm_iff :
    (itemsRead c serviceName values).Perm (ownItems c serviceName values) ↔
      (misfiled c serviceName values).Perm (skipped c serviceName values) :=
  map_filter_perm_iff (itemOf c serviceName) (readsItem serviceName) (isItemKey serviceName) values

theorem isItemKey_iff {t : ConsulValue} :
    isItemKey serviceName t = true ↔ t.key = getConfigsPath serviceName ++ (itemOf c serviceName t).1 := by
  rw [isItemKey, decide_eq_true_eq, itemOf]
  constructor
  · intro h
    obtain ⟨suffix, hsuffix⟩ := h
    refine String.toList_inj.mp ?_
    rw [String.toList_append, String.toList_ofList, ← hsuffix, ← String.length_toList, List.drop_left]
  · intro h
    rw [h, String.toList_append]
    exact List.prefix_append _ _

theorem mem_ownItems {configKey v : String} :
    (configKey, v) ∈ ownItems c serviceName values ↔
      ∃ t ∈ values, t.key = getConfigsPath serviceName ++ configKey ∧ c.base64 t.value = v := by
  simp only [ownItems, List.mem_map, List.mem_filter]
  constructor
  · intro h
    obtain ⟨t, ⟨ht, hitem⟩, heq⟩ := h
    have hkey := (isItemKey_iff (c := c)).mp hitem
    rw [heq] at hkey
    exact ⟨t, ht, hkey, congrArg Prod.snd heq⟩
  · intro h
    obtain ⟨t, ht, hkey, hv⟩ := h
    have hsuffix : (itemOf c serviceName t).1 = configKey := by
      rw [itemOf, hkey, String.toList_append, ← String.length_toList, List.drop_left, String.ofList_toList]
    exact ⟨t, ⟨ht, (isItemKey_iff (c := c)).mpr (by rw [hsuffix]; exact hkey)⟩, Prod.ext hsuffix hv⟩

/-- Different keys have different suffixes. -/
theorem nodup_ownItems (hkeys : (values.map (·.key)).Nodup) : ((ownItems c serviceName values).map (·.1)).Nodup := by
  rw [ownItems, List.map_map]
  refine List.Nodup.map_on ?_ (hkeys.of_map.filter _)
  intro t ht u hu heq
  have htkey := (isItemKey_iff (c := c)).mp (List.mem_filter.mp ht).2
  have hukey := (isItemKey_iff (c := c)).mp (List.mem_filter.mp hu).2
  have hsuffix : (itemOf c serviceName t).1 = (itemOf c serviceName u).1 := heq
  refine List.inj_on_of_nodup_map hkeys (List.mem_filter.mp ht).1 (List.mem_filter.mp hu).1 ?_
  rw [htkey, hukey, hsuffix]

theorem configs_of_perm (hkeys : (values.map (·.key)).Nodup)
    (h : (itemsRead c serviceName values).Perm (ownItems c serviceName values)) {configKey v : String} :
    (FinMap.insertAll ∅ (itemsRead c serviceName values)).lookup configKey = some v ↔
      ∃ t ∈ values, t.key = getConfigsPath serviceName ++ configKey ∧ c.base64 t.value = v := by
  have hnd : ((itemsRead c serviceName values).map (·.1)).Nodup :=
    (h.map (·.1)).nodup_iff.mpr (nodup_ownItems hkeys)
  rw [FinMap.lookup_insertAll_iff hnd, h.mem_iff, mem_ownItems]
  simp

/-! ## The subscribers of items -/

/-- What a step does to the subscribers of items. -/
def storeItem (subscribers : FinMap String (String × String)) : Ev → FinMap String (String × String)
  | .subscribeConfigItem serviceName configKey =>
    subscribers.insert (serviceName ++ configKey) (serviceName, configKey)
  | .unsubscribeConfigItem serviceName configKey => subscribers.erase (serviceName ++ configKey)
  | _ => subscribers

theorem registerServer_subscribers (s : St) (server : Server) :
    (registerServer c s server).configItemSubscribers = s.configItemSubscribers := by
  unfold registerServer
  split
  · rfl
  · split <;> rfl

theorem unregisterServer_subscribers (s : St) (server : Server) :
    (unregisterServer s server).configItemSubscribers = s.configItemSubscribers := by
  unfold unregisterServer
  split <;> rfl

theorem notifyDiscover_subscribers (s : St) (name : String) (servers : List Server) :
    (notifyDiscover s name servers).configItemSubscribers = s.configItemSubscribers := by
  unfold notifyDiscover
  split <;> rfl

theorem discover_subscribers (s : St) (name : String) :
    (discover s name).configItemSubscribers = s.configItemSubscribers := by
  unfold discover
  split
  · split <;> rfl
  · simp only
    split
    · exact notifyDiscover_subscribers _ _ _
    · rfl

theorem getConfig_subscribers (s : St) (name : String) :
    (getConfig s name).configItemSubscribers = s.configItemSubscribers := by
  unfold getConfig
  split <;> rfl

theorem retry_subscribers {s t : St} {key : String} (h : retry c s key = some t) :
    t.configItemSubscribers = s.configItemSubscribers := by
  unfold retry at h
  split at h
  · cases h
  · simp only at h
    split at h <;> cases h
    · exact registerServer_subscribers _ _
    · exact unregisterServer_subscribers _ _
    · exact discover_subscribers _ _
    · exact getConfig_subscribers _ _

theorem step_subscribers {s t : St} {e : Ev} (h : step c s e = some t) :
    t.configItemSubscribers = storeItem s.configItemSubscribers e := by
  cases e with
  | registerServer server =>
    cases h
    exact registerServer_subscribers s server
  | unregisterServer server =>
    cases h
    exact unregisterServer_subscribers s server
  | discover name =>
    cases h
    exact discover_subscribers s name
  | getConfig name =>
    cases h
    exact getConfig_subscribers s name
  | answer r ok =>
    obtain ⟨-, rfl⟩ := guard_some.mp h
    rfl
  | deliver r ok =>
    obtain ⟨-, rfl⟩ := guard_some.mp h
    unfold deliver
    split <;> rfl
  | deliverNodes name res =>
    obtain ⟨-, rfl⟩ := guard_some.mp h
    cases res with
    | none => rfl
    | some values =>
      simp only [deliverNodes, processDiscover]
      split <;> rfl
  | runNotifyDiscover name servers =>
    obtain ⟨-, rfl⟩ := guard_some.mp h
    exact notifyDiscover_subscribers _ _ _
  | readVersion name res =>
    obtain ⟨-, rfl⟩ := guard_some.mp h
    simp only [readVersion]
    split <;> rfl
  | deliverConfig name version res =>
    obtain ⟨-, rfl⟩ := guard_some.mp h
    cases res with
    | none => rfl
    | some values =>
      simp only [deliverConfig, processConfig]
      split
      · rfl
      · split <;> rfl
  | runQueueConfig name =>
    obtain ⟨-, rfl⟩ := guard_some.mp h
    rfl
  | runNotifyConfig name config items =>
    obtain ⟨-, rfl⟩ := guard_some.mp h
    simp only [notifyConfig]
    split <;> rfl
  | fallback =>
    obtain ⟨-, rfl⟩ := guard_some.mp h
    rfl
  | retry key => exact retry_subscribers h
  | subscribe _ | unsubscribe _ | subscribeConfig _ | unsubscribeConfig _ | subscribeConfigItem _ _
  | unsubscribeConfigItem _ _ | enableStatic | disableStatic | pushStaticNodes _ _ | poolGone =>
    cases h
    rfl

/-- Under a text that one item alone makes, its own subscriber is found. -/
theorem lookup_storeItem {subscribers : FinMap String (String × String)} {subscribed : Finset (String × String)}
    {item : String × String}
    (h : subscribers.lookup (item.1 ++ item.2) = if item ∈ subscribed then some item else none) {e : Ev}
    (he : ∀ p, e.item = some p → p.1 ++ p.2 = item.1 ++ item.2 → p = item) :
    (storeItem subscribers e).lookup (item.1 ++ item.2) =
      if item ∈ subscribeItem subscribed e then some item else none := by
  cases e with
  | subscribeConfigItem name key =>
    rw [storeItem, FinMap.lookup_insert_ite, subscribeItem]
    by_cases hsame : name ++ key = item.1 ++ item.2
    · obtain rfl := he (name, key) rfl hsame
      simp
    · have hne : item ≠ (name, key) := by
        rintro rfl
        exact hsame rfl
      rw [if_neg (Ne.symm hsame), h]
      simp [hne]
  | unsubscribeConfigItem name key =>
    rw [storeItem, FinMap.lookup_erase_ite, subscribeItem]
    by_cases hsame : name ++ key = item.1 ++ item.2
    · obtain rfl := he (name, key) rfl hsame
      simp
    · have hne : item ≠ (name, key) := by
        rintro rfl
        exact hsame rfl
      rw [if_neg (Ne.symm hsame), h]
      simp [hne]
  | _ => exact h

theorem lookup_configItemSubscribers {es : List Ev} {u : St} (hrun : run (step c) {} es = some u) (item : String × String)
    (hapart : ∀ e ∈ es, ∀ p, e.item = some p → p.1 ++ p.2 = item.1 ++ item.2 → p = item) :
    u.configItemSubscribers.lookup (item.1 ++ item.2) = if item ∈ subscribedItems es then some item else none := by
  have hinv := run_history (step c) (fun _ e => ∀ p, e.item = some p → p.1 ++ p.2 = item.1 ++ item.2 → p = item)
    (fun hist s => s.configItemSubscribers.lookup (item.1 ++ item.2) =
      if item ∈ subscribedItems hist then some item else none)
    (fun hist s t e hs he hstep => ?_) [] (Finmap.lookup_empty _) (meets_of_forall (step c) (fun e he _ => hapart e he) {})
    hrun
  · simpa using hinv
  · rw [step_subscribers hstep, subscribedItems, List.foldl_append]
    exact lookup_storeItem hs he

theorem configItemNotified_notifyConfig (u : St) (config : ServiceConfig) (items : List (String × String)) :
    (notifyConfig u serviceName config items).configItemNotified =
      (heardItems serviceName u items).reverse ++ u.configItemNotified := by
  simp only [notifyConfig]
  split <;> rfl

/-- Where the texts are apart, each item is told to its own subscriber. -/
theorem heardItems_eq {es : List Ev} {u : St} (hrun : run (step c) {} es = some u) {items : List (String × String)}
    (hapart : ∀ e ∈ es, ∀ p, e.item = some p → ∀ item ∈ items, p.1 ++ p.2 = serviceName ++ item.1 →
      p = (serviceName, item.1)) :
    heardItems serviceName u items =
      (items.filter fun item => (serviceName, item.1) ∈ subscribedItems es).map fun item => (serviceName, item) := by
  rw [heardItems, ← List.filterMap_eq_map, ← List.filterMap_eq_filter, List.filterMap_filterMap]
  refine List.filterMap_congr fun item hitem => ?_
  have hlookup := lookup_configItemSubscribers hrun (serviceName, item.1)
    fun e he p hp heq => hapart e he p hp item hitem heq
  simp only at hlookup
  rw [hlookup]
  by_cases hmem : (serviceName, item.1) ∈ subscribedItems es <;> simp [hmem, Option.guard]

theorem run_subscribe (l : List (String × String)) (s : St) :
    ∃ u, run (step c) s (l.map fun p => .subscribeConfigItem p.1 p.2) = some u := by
  induction l generalizing s with
  | nil => exact ⟨s, rfl⟩
  | cons p l ih => exact ih _

theorem mem_foldl_subscribe {l : List (String × String)} {subscribed : Finset (String × String)} {p : String × String} :
    p ∈ (l.map fun p => Ev.subscribeConfigItem p.1 p.2).foldl subscribeItem subscribed ↔ p ∈ subscribed ∨ p ∈ l := by
  induction l generalizing subscribed with
  | nil => simp
  | cons q l ih =>
    rw [List.map_cons, List.foldl_cons, ih, subscribeItem, Finset.mem_insert, List.mem_cons]
    tauto

/-- In all runs with the items `others` of other services: whoever subscribes is told the
    items of the listing iff they are the items read and their texts are no others'. -/
theorem told_iff (others : Set (String × String)) (config : ServiceConfig) (items items' : List (String × String)) :
    (∀ es u, run (step c) {} es = some u → (∀ e ∈ es, ∀ p, e.item = some p → p.1 = serviceName ∨ p ∈ others) →
      (notifyConfig u serviceName config items).configItemNotified.Perm
        ((items'.filter fun item => (serviceName, item.1) ∈ subscribedItems es).map (fun item => (serviceName, item)) ++
          u.configItemNotified)) ↔
    items.Perm items' ∧ ∀ p ∈ others, p.1 ≠ serviceName → ∀ item ∈ items, p.1 ++ p.2 ≠ serviceName ++ item.1 := by
  simp only [configItemNotified_notifyConfig, List.perm_append_right_iff]
  constructor
  · intro h
    refine ⟨?_, fun p hp hne item hitem heq => ?_⟩
    · -- all the items have subscribers
      obtain ⟨u, hu⟩ := run_subscribe (c := c) ((items ++ items').map fun item => (serviceName, item.1)) {}
      have hcalls : ∀ e ∈ ((items ++ items').map fun item => (serviceName, item.1)).map
          (fun p => Ev.subscribeConfigItem p.1 p.2), ∀ p, e.item = some p → p.1 = serviceName := by
        intro e he p hp
        simp only [List.mem_map] at he
        obtain ⟨_, ⟨item, -, rfl⟩, rfl⟩ := he
        cases hp
        rfl
      have hall := h _ u hu fun e he p hp => .inl (hcalls e he p hp)
      rw [heardItems_eq hu, List.filter_eq_self.mpr, List.filter_eq_self.mpr] at hall
      · exact (List.map_perm_map_iff (Prod.mk_right_injective serviceName)).mp ((List.reverse_perm _).symm.trans hall)
      · intro item hitem
        rw [decide_eq_true_eq, subscribedItems, mem_foldl_subscribe]
        exact .inr (List.mem_map.mpr ⟨item, List.mem_append_right _ hitem, rfl⟩)
      · intro item hitem
        rw [decide_eq_true_eq, subscribedItems, mem_foldl_subscribe]
        exact .inr (List.mem_map.mpr ⟨item, List.mem_append_left _ hitem, rfl⟩)
      · intro e he p hp item _ heq
        have hname := hcalls e he p hp
        rw [hname, String.append_right_inj] at heq
        exact Prod.ext hname heq
    · -- the other service subscribes, and is told the item
      obtain ⟨u, hu⟩ := run_subscribe (c := c) [p] {}
      have htold := h _ u hu fun e he q hq => by
        rw [List.mem_singleton.mp he] at hq
        cases hq
        exact .inr hp
      have hown : ∀ item ∈ items', (serviceName, item.1) ∉ subscribedItems ([p].map fun p => Ev.subscribeConfigItem p.1 p.2) := by
        intro item _ hmem
        rw [subscribedItems, mem_foldl_subscribe] at hmem
        rcases hmem with hmem | hmem
        · simp at hmem
        · rw [← List.mem_singleton.mp hmem] at hne
          exact hne rfl
      rw [List.filter_eq_nil_iff.mpr fun item hitem => by simpa using hown item hitem] at htold
      have hlookup : u.configItemSubscribers.lookup (p.1 ++ p.2) = some p := by
        rw [lookup_configItemSubscribers hu p, if_pos]
        · rw [subscribedItems, mem_foldl_subscribe]
          exact .inr (List.mem_singleton_self p)
        · intro e he q hq _
          rw [List.mem_singleton.mp he] at hq
          cases hq
          rfl
      have hmem : (p.1, p.2, item.2) ∈ heardItems serviceName u items :=
        List.mem_filterMap.mpr ⟨item, hitem, by rw [← heq, hlookup]; rfl⟩
      rw [(List.reverse_perm _).symm.trans htold |>.eq_nil] at hmem
      cases hmem
  · intro h es u hu hes
    rw [heardItems_eq hu]
    · exact (List.reverse_perm _).trans ((h.1.filter _).map _)
    · intro e he p hp item hitem heq
      rcases hes e he p hp with hname | hother
      · rw [hname, String.append_right_inj] at heq
        exact Prod.ext hname heq
      · by_contra hne
        refine h.2 p hother (fun hname => hne ?_) item hitem heq
        rw [hname, String.append_right_inj] at heq
        exact Prod.ext hname heq

end Exact

/-! ## A service name without slashes

With slashes in the name a path can begin inside another, and an item read from a foreign key
can make up for one that is skipped. Without them neither is there. -/

def servicesPath : List Char := "ads-core/services/".toList

def configsTail : List Char := "/config/".toList ++ "configs/".toList

theorem toList_path (a name b w : String) :
    (a ++ name ++ b ++ w).toList = a.toList ++ (name.toList ++ (b.toList ++ w.toList)) := by
  simp only [String.toList_append, List.append_assoc]

theorem append_cancel_path {a name b w rest w' rest' : List Char}
    (h : a ++ (name ++ (b ++ w)) ++ rest = a ++ (name ++ (b ++ w' ++ rest'))) : w ++ rest = w' ++ rest' := by
  simpa only [List.append_assoc, List.append_cancel_left_eq] using h

/-- Up to the end of the `configs/` path, a path under the services begins at its start
    only. -/
theorem services_once {name : List Char} (behind : List Char) (hname : '/' ∉ name) {k : Nat} (hpos : 0 < k)
    (hk : k < 18 + (name.length + 16)) :
    ¬ ∀ i < 18, (servicesPath ++ (name ++ (configsTail ++ behind)))[k + i]? = servicesPath[i]? := by
  intro hstart
  have hservices : servicesPath.length = 18 := by decide
  have htail : configsTail.length = 16 := by decide
  have hname' : ∀ i < name.length, (servicesPath ++ (name ++ (configsTail ++ behind)))[18 + i]? = name[i]? := by
    intro i hi
    rw [List.getElem?_append_right (by omega), hservices, Nat.add_sub_cancel_left, List.getElem?_append_left hi]
  have htail' : ∀ i < 16,
      (servicesPath ++ (name ++ (configsTail ++ behind)))[18 + (name.length + i)]? = configsTail[i]? := by
    intro i hi
    rw [List.getElem?_append_right (by omega), hservices, Nat.add_sub_cancel_left, List.getElem?_append_right (by omega),
      Nat.add_sub_cancel_left, List.getElem?_append_left (by omega)]
  rcases Nat.lt_or_ge k 18 with hlt | hge
  · -- the first letter stands once in the services path
    have hfirst := hstart 0 (by omega)
    rw [Nat.add_zero, List.getElem?_append_left (by omega)] at hfirst
    have honce : ∀ i < 18, 0 < i → servicesPath[i]? ≠ servicesPath[0]? := by decide
    exact honce k hlt hpos hfirst
  obtain ⟨j, rfl⟩ := Nat.exists_eq_add_of_le hge
  rcases Nat.lt_or_ge j name.length with hin | hout
  · -- the first slash is not in the name, so it is one of the next two
    have hslash := hstart 8 (by omega)
    rw [Nat.add_assoc] at hslash
    rcases Nat.lt_or_ge (j + 8) name.length with hin' | hout'
    · rw [hname' (j + 8) hin'] at hslash
      exact hname (List.mem_of_getElem? hslash)
    · obtain ⟨d, hd⟩ := Nat.exists_eq_add_of_le hout'
      rw [hd, htail' d (by omega)] at hslash
      have htwo : ∀ d < 8, configsTail[d]? = servicesPath[8]? → d = 0 ∨ d = 7 := by decide
      rcases htwo d (by omega) hslash with rfl | rfl
      · have hnext := hstart 9 (by omega)
        rw [Nat.add_assoc, show j + 9 = name.length + 1 by omega, htail' 1 (by omega)] at hnext
        exact absurd hnext (by decide)
      · have hnext := hstart 1 (by omega)
        rw [Nat.add_assoc, show j + 1 = name.length + 0 by omega, htail' 0 (by omega)] at hnext
        exact absurd hnext (by decide)
  · -- behind the name the first letter does not stand at all
    obtain ⟨e, rfl⟩ := Nat.exists_eq_add_of_le hout
    have hfirst := hstart 0 (by omega)
    rw [Nat.add_zero, htail' e (by omega)] at hfirst
    have hnone : ∀ e < 16, configsTail[e]? ≠ servicesPath[0]? := by decide
    exact hnone e (by omega) hfirst

/-- A path under the config prefix that stands in an item's key stands in the suffix. -/
theorem infix_behind {name w behind : List Char} (hname : '/' ∉ name)
    (hw : ∀ rest, w ++ rest ≠ "configs/".toList ++ behind)
    (h : servicesPath ++ (name ++ ("/config/".toList ++ w)) <:+: servicesPath ++ (name ++ (configsTail ++ behind))) :
    servicesPath ++ (name ++ ("/config/".toList ++ w)) <:+: behind := by
  obtain ⟨before, rest, heq⟩ := h
  have hservices : servicesPath.length = 18 := by decide
  have htail : configsTail.length = 16 := by decide
  by_cases hbehind : 18 + (name.length + 16) ≤ before.length
  · have hpath : servicesPath ++ name ++ configsTail <+: before := by
      refine List.prefix_of_prefix_length_le ⟨behind, ?_⟩ ⟨_, (List.append_assoc _ _ _).symm.trans heq⟩ ?_
      · simp only [List.append_assoc]
      · simp only [List.length_append]
        omega
    obtain ⟨before', rfl⟩ := hpath
    refine ⟨before', rest, ?_⟩
    simpa only [List.append_assoc, List.append_cancel_left_eq] using heq
  · exfalso
    rcases Nat.eq_zero_or_pos before.length with hzero | hpos
    · rw [List.length_eq_zero_iff.mp hzero, List.nil_append] at heq
      exact hw rest (append_cancel_path heq)
    · refine services_once behind hname hpos (by omega) fun i hi => ?_
      rw [← heq, List.append_assoc, List.getElem?_append_right (by omega), Nat.add_sub_cancel_left, List.append_assoc,
        List.getElem?_append_left (by omega)]

variable {c serviceName} in
/-- The suffix of a skipped key has the path for which it was skipped. -/
theorem contains_behind (hname : '/' ∉ serviceName.toList) {t : ConsulValue} (hitem : isItemKey serviceName t = true)
    {w : String} (hw : ∀ rest behind : List Char, w.toList ++ rest ≠ "configs/".toList ++ behind)
    (h : contains t.key (getConfigPath serviceName ++ w) = true) :
    contains (itemOf c serviceName t).1 (getConfigPath serviceName ++ w) = true := by
  have hpath : (getConfigPath serviceName ++ w).toList =
      servicesPath ++ (serviceName.toList ++ ("/config/".toList ++ w.toList)) := toList_path _ _ _ _
  have hkey : t.key.toList =
      servicesPath ++ (serviceName.toList ++ (configsTail ++ (itemOf c serviceName t).1.toList)) := by
    have hconfigs : (getConfigsPath serviceName).toList = servicesPath ++ (serviceName.toList ++ configsTail) :=
      toList_path _ _ _ _
    have hitem' := congrArg String.toList ((isItemKey_iff (c := c)).mp hitem)
    rw [String.toList_append, hconfigs] at hitem'
    simpa only [List.append_assoc] using hitem'
  rw [contains, decide_eq_true_eq, hpath] at h ⊢
  rw [hkey] at h
  exact infix_behind hname (fun rest => hw rest _) h

variable {serviceName} in
/-- A service name without slashes: no foreign item makes up for a skipped one. -/
theorem misfiled_perm_skipped_iff (hname : '/' ∉ serviceName.toList) (values : List ConsulValue) :
    (misfiled c serviceName values).Perm (skipped c serviceName values) ↔
      misfiled c serviceName values = [] ∧ skipped c serviceName values = [] := by
  constructor
  · intro h
    have hskipped : skipped c serviceName values = [] := by
      refine List.eq_nil_iff_forall_not_mem.mpr fun item hitem => ?_
      obtain ⟨t, ht, rfl⟩ := List.mem_map.mp hitem
      obtain ⟨u, hu, heq⟩ := List.mem_map.mp (h.mem_iff.mpr hitem)
      simp only [List.mem_filter, Bool.and_eq_true, Bool.not_eq_true'] at ht hu
      obtain ⟨-, hkey, hread⟩ := ht
      obtain ⟨-, hread', -⟩ := hu
      -- the suffix of `t`, which is that of `u`, has a path that `u`'s key has not
      have hin : ∀ w : String, (∀ rest behind : List Char, w.toList ++ rest ≠ "configs/".toList ++ behind) →
          contains t.key (getConfigPath serviceName ++ w) = true →
          contains u.key (getConfigPath serviceName ++ w) = true := by
        intro w hw hcontains
        have hsuffix := contains_behind (c := c) hname hkey hw hcontains
        rw [← heq, contains, decide_eq_true_eq, itemOf, String.toList_ofList] at hsuffix
        rw [contains, decide_eq_true_eq]
        exact hsuffix.trans (List.drop_suffix _ _).isInfix
      have hversion := hin "version" (by simp)
      have hrouter := hin "router" (by simp)
      simp only [readsItem, getConfigVersionPath, getRouterConfigPath, Bool.and_eq_true, Bool.not_eq_true'] at hread hread'
      have hconfigs : contains t.key (getConfigsPath serviceName) = true := by
        rw [contains, decide_eq_true_eq]
        exact (decide_eq_true_eq.mp hkey).isInfix
      rw [hconfigs, Bool.and_true] at hread
      have hnone : contains t.key (getConfigPath serviceName ++ "version") = false ∧
          contains t.key (getConfigPath serviceName ++ "router") = false := by
        constructor
        · exact Bool.eq_false_iff.mpr fun hc => by simp [hversion hc] at hread'
        · exact Bool.eq_false_iff.mpr fun hc => by simp [hrouter hc] at hread'
      rw [hnone.1, hnone.2] at hread
      cases hread
    rw [hskipped] at h
    exact ⟨h.eq_nil, hskipped⟩
  · intro h
    rw [h.1, h.2]

/-! ## Exactness -/

theorem exactConfig_readConfig_iff (others : Set (String × String)) {values : List ConsulValue}
    (hkeys : (values.map (·.key)).Nodup) :
    ExactConfig c serviceName others values (readConfig c serviceName values).1 (readConfig c serviceName values).2 ↔
      FiledRight c serviceName others values := by
  rw [readConfig_eq]
  constructor
  · intro h
    obtain ⟨hitems, hapart⟩ := (told_iff _ _ _ _).mp h.told
    exact ⟨(router_exact_iff hkeys).mp h.router, items_perm_iff.mp hitems, hapart⟩
  · intro h
    have hitems := items_perm_iff.mpr h.items
    exact ⟨(router_exact_iff hkeys).mpr h.router, fun _ _ => configs_of_perm hkeys hitems,
      (told_iff _ _ _ _).mpr ⟨hitems, h.apart⟩⟩

/-- A listing of different keys that is an update, in a registry where other services name the
    items `others`: the configuration notified is exactly that of the listing iff its keys are
    filed right. -/
theorem processConfig_exact_iff (others : Set (String × String)) (s : St) (values : ConsulValues)
    (hkeys : (values.value.map (·.key)).Nodup) (hvalue : values.value ≠ [])
    (hupdate : (checkUpdate s.lastIndexes (getConfigPath serviceName) values.consulIndex).1 = true) :
    ∃ config items, (processConfig c s serviceName values).tasks = s.tasks ++ [.notifyConfig serviceName config items] ∧
      (ExactConfig c serviceName others values.value config items ↔ FiledRight c serviceName others values.value) := by
  refine ⟨_, _, ?_, exactConfig_readConfig_iff c serviceName others hkeys⟩
  simp [processConfig, hvalue, hupdate]

def defaultRouterJson : String :=
  "\x7b\"TtlInMs\":3000,\"LoadBalance\":\"random\",\"TotalShards\":0,\"PullInterval\":3\x7d"

/-- The JSON as consul returns it. -/
def defaultRouterValue : String :=
  "eyJUdGxJbk1zIjozMDAwLCJMb2FkQmFsYW5jZSI6InJhbmRvbSIsIlRvdGFsU2hhcmRzIjowLCJQdWxsSW50ZXJ2YWwiOjN9"

/-- The codec on these values and those of `plainCodec`. -/
def routerCodec : Codec where
  toJson := plainCodec.toJson
  base64 value := if value = defaultRouterValue then defaultRouterJson else plainCodec.base64 value
  parseServer := plainCodec.parseServer
  parseRouterConfig json := if json = defaultRouterJson then some {} else plainCodec.parseRouterConfig json

/-- A listing with a version, a router configuration and an item. -/
def tidyListing : ConsulValues :=
  ⟨9, [⟨"ads-core/services/predictor/config/configs/model", "djI="⟩,
    ⟨"ads-core/services/predictor/config/router", slowRouterValue⟩,
    ⟨"ads-core/services/predictor/config/version", "djI="⟩]⟩

theorem processConfig_exact_tidy :
    ∃ config items, (processConfig routerCodec {} "predictor" tidyListing).tasks =
        [.notifyConfig "predictor" config items] ∧
      ExactConfig routerCodec "predictor" {("feeder", "model")} tidyListing.value config items := by
  obtain ⟨config, items, htasks, hiff⟩ := processConfig_exact_iff routerCodec "predictor" {("feeder", "model")} {}
    tidyListing (by decide) (by decide) (by decide)
  refine ⟨config, items, htasks, hiff.mpr ⟨fun t hlast => Or.inl ?_, ?_, ?_⟩⟩
  · obtain ⟨before, after, hvalues, hsome, -⟩ := hlast
    have ht : t ∈ tidyListing.value := by
      rw [hvalues]
      simp
    have hall : ∀ u ∈ tidyListing.value, (routerRead routerCodec "predictor" u).isSome →
        u.key = getRouterConfigPath "predictor" := by decide +kernel
    exact hall t ht hsome
  · have hnone : misfiled routerCodec "predictor" tidyListing.value = [] ∧
        skipped routerCodec "predictor" tidyListing.value = [] := by decide +kernel
    rw [hnone.1, hnone.2]
  · rintro _ rfl -
    decide +kernel

/-- Next to the router configuration, with a ttl of 5000 ms, stands an older one. -/
def backupListing : ConsulValues :=
  ⟨9, [⟨"ads-core/services/predictor/config/router", slowRouterValue⟩,
    ⟨"ads-core/services/predictor/config/router.bak", defaultRouterValue⟩]⟩

/-- The backup is what the subscriber is told. -/
theorem a_backup_overrides_the_router :
    (backupListing.value.map (·.key)).Nodup ∧
      ownRouter routerCodec "predictor" backupListing.value = slowRouter ∧
      ∃ config items, (processConfig routerCodec {} "predictor" backupListing).tasks =
          [.notifyConfig "predictor" config items] ∧
        config.router = {} ∧ ¬ ExactConfig routerCodec "predictor" ∅ backupListing.value config items := by
  have hown : ownRouter routerCodec "predictor" backupListing.value = slowRouter := by decide +kernel
  have hread : (readConfig routerCodec "predictor" backupListing.value).1.router = {} := by decide +kernel
  refine ⟨by decide, hown, _, _, rfl, hread, fun h => ?_⟩
  have hrouter := h.router
  rw [hown] at hrouter
  exact absurd (hread.symm.trans hrouter) (by decide)

end ConsulRegistry

end PredictorService.ServiceRouter
