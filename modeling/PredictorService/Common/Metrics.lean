/-
  PredictorService.Common.Metrics — one metric for a module, a name and tags
  (common/metrics/metrics.h, `MetricStore`).

  The tags are an `unordered_map`, here the list of its entries in iteration order, which
  depends on how the map was built. `metricHash` folds a seeded hash over them in that order
  (`H` is `CityHash64WithSeed`). `build`, `getOne` and `eraseOne` each hold the lock of the
  store where they read or change it, so a run is one call after another.

  `one_metric_iff`: calls for equal tags find one metric in every run that iterates equal tags
  in one order, and only there as far as the keys of the run differ. Two maps of the same
  entries, iterated in different orders, are two metrics (`one_pair_of_tags_is_two_metrics`).
-/

import PredictorService.Lib.FinMap
import PredictorService.Thirdparty.City

namespace PredictorService.Common.Metrics

open PredictorService.Lib (FinMap)
open PredictorService.Thirdparty (cityHash64WithSeed)

/-- An `unordered_map<string, string>`, in iteration order. -/
structure TagMap where
  entries : List (String × String) := []
  distinct : (entries.map Prod.fst).Nodup := by decide
  deriving DecidableEq

/-- What a metric is known by: `MetricBase` without its event base. -/
structure Ident where
  moduleName : String
  metricName : String
  tags : TagMap := {}
  deriving DecidableEq

/-- The arguments of the three calls; `MetricTags` is optional. -/
structure Request where
  moduleName : String
  metricName : String
  tags : Option TagMap := none
  deriving DecidableEq

/-- A metric object; `id` tells apart those that `creator` made. -/
structure Metric where
  id : Nat
  ident : Ident
  deriving DecidableEq

def Request.ident (r : Request) : Ident := ⟨r.moduleName, r.metricName, r.tags.getD {}⟩

structure MetricStore where
  metrics : FinMap UInt64 Metric := ∅
  created : Nat := 0

variable (H : String → UInt64 → UInt64)

/-- The loop over the tags. -/
def foldTags (key : UInt64) (tags : TagMap) : UInt64 := tags.entries.foldl (fun key t => H t.2 (H t.1 key)) key

def metricHash (r : Request) : UInt64 :=
  let key := H r.moduleName 0
  let key := H r.metricName key
  match r.tags with
  | none => key
  | some tags => foldTags H key tags

namespace MetricStore

def getOne (s : MetricStore) (r : Request) : Option Metric := s.metrics.lookup (metricHash H r)

/-- The metric under the key, or a new one with the tags. -/
def build (s : MetricStore) (r : Request) : Metric × MetricStore :=
  match s.metrics.lookup (metricHash H r) with
  | some m => (m, s)
  | none =>
    let m : Metric := ⟨s.created, r.ident⟩
    (m, ⟨s.metrics.insert (metricHash H r) m, s.created + 1⟩)

def eraseOne (s : MetricStore) (r : Request) : Bool × MetricStore :=
  match s.metrics.lookup (metricHash H r) with
  | none => (false, s)
  | some _ => (true, { s with metrics := s.metrics.erase (metricHash H r) })

inductive Call where
  | build (r : Request)
  | getOne (r : Request)
  | eraseOne (r : Request)
  deriving DecidableEq

def Call.request : Call → Request
  | .build r => r
  | .getOne r => r
  | .eraseOne r => r

def apply (s : MetricStore) : Call → MetricStore
  | .build r => (s.build H r).2
  | .getOne _ => s
  | .eraseOne r => (s.eraseOne H r).2

def run (calls : List Call) : MetricStore := calls.foldl (apply H) {}

/-- The store holds the metric. -/
def Live (s : MetricStore) (m : Metric) : Prop := ∃ k, s.metrics.lookup k = some m

end MetricStore

/-! ## One metric -/

/-- Equal module, name and set of tags. -/
def Ident.Same (i j : Ident) : Prop :=
  i.moduleName = j.moduleName ∧ i.metricName = j.metricName ∧ ∀ t, t ∈ i.tags.entries ↔ t ∈ j.tags.entries

theorem Ident.Same.symm {i j : Ident} (h : i.Same j) : j.Same i := ⟨h.1.symm, h.2.1.symm, fun t => (h.2.2 t).symm⟩

theorem Ident.Same.trans {i j l : Ident} (h : i.Same j) (h' : j.Same l) : i.Same l :=
  ⟨h.1.trans h'.1, h.2.1.trans h'.2.1, fun t => (h.2.2 t).trans (h'.2.2 t)⟩

/-- In every state of the run, the calls for equal module, name and tags refer to one metric. -/
structure OneMetric (calls : List MetricStore.Call) : Prop where
  keys : ∀ c ∈ calls, ∀ c' ∈ calls, c.request.ident.Same c'.request.ident → metricHash H c.request = metricHash H c'.request
  unique : ∀ before after, calls = before ++ after → ∀ m m', (MetricStore.run H before).Live m →
    (MetricStore.run H before).Live m' → m.ident.Same m'.ident → m = m'
  refers : ∀ before after, calls = before ++ after → ∀ c ∈ calls, ∀ m, (MetricStore.run H before).Live m →
    m.ident.Same c.request.ident →
      (MetricStore.run H before).getOne H c.request = some m ∧
      (MetricStore.run H before).build H c.request = (m, MetricStore.run H before) ∧
      ∀ m', ((MetricStore.run H before).eraseOne H c.request).2.Live m' → ¬m'.ident.Same c.request.ident

/-- Calls for equal tags iterate them in one order. -/
def OneOrder (calls : List MetricStore.Call) : Prop :=
  ∀ c ∈ calls, ∀ c' ∈ calls, c.request.ident.Same c'.request.ident → c.request.ident.tags = c'.request.ident.tags

/-- No two calls have a key by collision. -/
def KeysApart (calls : List MetricStore.Call) : Prop :=
  ∀ c ∈ calls, ∀ c' ∈ calls, metricHash H c.request = metricHash H c'.request → c.request.ident = c'.request.ident

/-- The key of what a metric is known by. -/
def identHash (i : Ident) : UInt64 := foldTags H (H i.metricName (H i.moduleName 0)) i.tags

theorem metricHash_eq (r : Request) : metricHash H r = identHash H r.ident := by
  unfold metricHash identHash Request.ident
  cases r.tags with
  | none => rfl
  | some tags => rfl

theorem identHash_eq_of_same {i j : Ident} (h : i.Same j) (htags : i.tags = j.tags) : identHash H i = identHash H j := by
  rw [identHash, identHash, h.1, h.2.1, htags]

namespace MetricStore

/-- Every metric stands under its key and was built by a call. -/
def Filed (calls : List Call) (s : MetricStore) : Prop :=
  ∀ k m, s.metrics.lookup k = some m → k = identHash H m.ident ∧ ∃ c ∈ calls, c.request.ident = m.ident

theorem filed_apply {calls : List Call} {s : MetricStore} (hs : Filed H calls s) {c : Call} (hc : c ∈ calls) :
    Filed H calls (s.apply H c) := by
  cases c with
  | getOne r => exact hs
  | build r =>
    show Filed H calls (s.build H r).2
    unfold build
    split
    · exact hs
    · intro k m hm
      rw [FinMap.lookup_insert_ite] at hm
      split at hm
      · rename_i hk
        cases hm
        exact ⟨hk.trans (metricHash_eq H r), .build r, hc, rfl⟩
      · exact hs k m hm
  | eraseOne r =>
    show Filed H calls (s.eraseOne H r).2
    unfold eraseOne
    split
    · exact hs
    · intro k m hm
      rw [FinMap.lookup_erase_ite] at hm
      split at hm
      · cases hm
      · exact hs k m hm

theorem filed_run {calls before : List Call} (h : ∀ c ∈ before, c ∈ calls) : Filed H calls (run H before) := by
  suffices hfold : ∀ s, Filed H calls s → Filed H calls (before.foldl (apply H) s) from
    hfold {} fun k m hm => by cases hm
  induction before with
  | nil => exact fun s hs => hs
  | cons c before ih =>
    intro s hs
    exact ih (fun c' hc' => h c' (List.mem_cons_of_mem _ hc')) _ (filed_apply H hs (h c List.mem_cons_self))

end MetricStore

section Order

variable {H} {calls before after : List MetricStore.Call} (horder : OneOrder calls) (hcalls : calls = before ++ after)

include horder hcalls

/-- Where equal tags have one order, a metric stands under the key of every call for it. -/
theorem lookup_of_same {c : MetricStore.Call} (hc : c ∈ calls) {k : UInt64} {m : Metric}
    (hm : (MetricStore.run H before).metrics.lookup k = some m) (hsame : m.ident.Same c.request.ident) :
    k = metricHash H c.request := by
  have hin : ∀ c ∈ before, c ∈ calls := fun c hc => hcalls ▸ List.mem_append_left _ hc
  obtain ⟨hk, c', hc', hident⟩ := MetricStore.filed_run H hin k m hm
  rw [← hident] at hsame
  rw [hk, metricHash_eq, ← hident]
  exact identHash_eq_of_same H hsame (horder c' hc' c hc hsame)

theorem live_unique {m m' : Metric} (hm : (MetricStore.run H before).Live m) (hm' : (MetricStore.run H before).Live m')
    (hsame : m.ident.Same m'.ident) : m = m' := by
  obtain ⟨k, hk⟩ := hm
  obtain ⟨k', hk'⟩ := hm'
  have hin : ∀ c ∈ before, c ∈ calls := fun c hc => hcalls ▸ List.mem_append_left _ hc
  obtain ⟨heq, c, hc, hident⟩ := MetricStore.filed_run H hin k' m' hk'
  rw [← hident] at hsame
  have hkey := lookup_of_same horder hcalls hc hk hsame
  rw [metricHash_eq, hident, ← heq] at hkey
  rw [hkey, hk'] at hk
  exact (Option.some.inj hk).symm

theorem refers_of_same {c : MetricStore.Call} (hc : c ∈ calls) {m : Metric} (hm : (MetricStore.run H before).Live m)
    (hsame : m.ident.Same c.request.ident) :
    (MetricStore.run H before).getOne H c.request = some m ∧
      (MetricStore.run H before).build H c.request = (m, MetricStore.run H before) ∧
      ∀ m', ((MetricStore.run H before).eraseOne H c.request).2.Live m' → ¬m'.ident.Same c.request.ident := by
  obtain ⟨k, hk⟩ := hm
  obtain rfl := lookup_of_same horder hcalls hc hk hsame
  refine ⟨hk, by rw [MetricStore.build, hk], fun m' hm' hsame' => ?_⟩
  obtain ⟨k', hk'⟩ := hm'
  rw [MetricStore.eraseOne, hk, FinMap.lookup_erase_ite] at hk'
  split at hk'
  · cases hk'
  · rename_i hne
    exact hne (lookup_of_same horder hcalls hc hk' hsame')

end Order

/-- In a run that iterates equal tags in one order, the calls for them refer to one metric in
    every state; and when no keys collide, only in such a run. -/
theorem one_metric_iff (calls : List MetricStore.Call) :
    (OneOrder calls → OneMetric H calls) ∧ (KeysApart H calls → OneMetric H calls → OneOrder calls) := by
  refine ⟨fun horder => ⟨fun c hc c' hc' hsame => ?_, fun before after heq m m' hm hm' hsame => ?_,
    fun before after heq c hc m hm hsame => ?_⟩, fun hapart hone c hc c' hc' hsame => ?_⟩
  · rw [metricHash_eq, metricHash_eq]
    exact identHash_eq_of_same H hsame (horder c hc c' hc' hsame)
  · exact live_unique horder heq hm hm' hsame
  · exact refers_of_same horder heq hc hm hsame
  · exact congrArg Ident.tags (hapart c hc c' hc' (hone.keys c hc c' hc' hsame))

def abTags : TagMap where
  entries := [("method", "get"), ("shard", "1")]

def baTags : TagMap where
  entries := [("shard", "1"), ("method", "get")]

theorem one_map_is_one_metric :
    OneMetric cityHash64WithSeed
      [.build ⟨"router", "requests", some abTags⟩, .getOne ⟨"router", "requests", some abTags⟩,
        .eraseOne ⟨"router", "requests", some abTags⟩] := by
  refine (one_metric_iff cityHash64WithSeed _).1 fun c hc c' hc' _ => ?_
  simp only [List.mem_cons, List.not_mem_nil, or_false] at hc hc'
  rcases hc with rfl | rfl | rfl <;> rcases hc' with rfl | rfl | rfl <;> rfl

/-- The same two tags, iterated in two orders: the second `build` makes a second metric. -/
theorem one_pair_of_tags_is_two_metrics :
    (MetricStore.run cityHash64WithSeed
      [.build ⟨"router", "requests", some abTags⟩, .build ⟨"router", "requests", some baTags⟩]).created = 2 ∧
    ¬OneMetric cityHash64WithSeed
      [.build ⟨"router", "requests", some abTags⟩, .build ⟨"router", "requests", some baTags⟩] := by
  refine ⟨by decide +kernel, fun h => ?_⟩
  have hsame : (Request.ident ⟨"router", "requests", some abTags⟩).Same (Request.ident ⟨"router", "requests", some baTags⟩) := by
    refine ⟨rfl, rfl, fun t => ?_⟩
    show t ∈ [("method", "get"), ("shard", "1")] ↔ t ∈ [("shard", "1"), ("method", "get")]
    simp only [List.mem_cons, List.not_mem_nil, or_false]
    exact or_comm
  have hkeys := h.keys (.build ⟨"router", "requests", some abTags⟩) (by simp) (.build ⟨"router", "requests", some baTags⟩)
    (by simp) hsame
  exact absurd hkeys (by decide +kernel)

end PredictorService.Common.Metrics
