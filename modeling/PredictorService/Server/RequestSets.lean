/-
  PredictorService.Server.RequestSets — what `loadAndRegister` reads out of a request.

  `entries` lists the model records of a request with the service each is under, in the
  order of the loops. The sets that the loops fill are described by it: the requested
  names, and for each full name the first record under a service (`serviceRecord`) and the
  first record that has to be loaded (`compRecord`).
-/

import PredictorService.Server.HttpService

namespace PredictorService.HttpService

open Std (TreeMap TreeSet)

def entries (req : Request) : List (String × ModelJson) :=
  req.flatMap fun service => service.modelRecords.map (service.serviceName, ·)

def serviceNames (req : Request) : List String := req.map (·.serviceName)

def modelNames (req : Request) : List String := (entries req).map (·.2.name)

/-- The record of an entry. -/
def entryRecord (e : String × ModelJson) : ModelRecord := modelRecord e.1 e.2

/-- The first record with this full name that is `ok`. -/
def firstRecord (ok : String × ModelJson → Bool) (es : List (String × ModelJson)) (fullName : String) :
    Option ModelRecord :=
  (es.find? fun e => ok e && e.2.fullName = fullName).map entryRecord

/-- The first record of a service. -/
def serviceRecord (es : List (String × ModelJson)) (service fullName : String) : Option ModelRecord :=
  firstRecord (·.1 = service) es fullName

variable (env : Env) (modelMap : TreeMap String ModelRecord)

/-- The first record that has to be loaded. -/
def compRecord (es : List (String × ModelJson)) (fullName : String) : Option ModelRecord :=
  firstRecord (needsLoad env modelMap ·.2) es fullName

/-- The sets hold what has been read: services `ns` and records `es`. -/
structure Reads (ns : List String) (es : List (String × ModelJson)) (p : Parsed) : Prop where
  names : ∀ n, n ∈ p.reqModelNames ↔ n ∈ es.map (·.2.name)
  services : ∀ n, n ∈ p.serviceModels ↔ n ∈ ns
  records : ∀ n f, (p.serviceModels.getD n ∅)[f]? = serviceRecord es n f
  comp : ∀ f, p.compModels[f]? = compRecord env modelMap es f

variable {env modelMap}

theorem getElem?_insertIfNew_or (t : RecordSet) (k f : String) (r : ModelRecord) :
    (t.insertIfNew k r)[f]? = t[f]?.or (if k = f then some r else none) := by
  rw [TreeMap.getElem?_insertIfNew]
  by_cases hk : k = f
  · subst hk
    by_cases hm : k ∈ t <;> simp [hm]
  · simp [hk]

section FirstRecord

variable {ok : String × ModelJson → Bool} {es : List (String × ModelJson)} {f : String}

theorem firstRecord_append (e : String × ModelJson) :
    firstRecord ok (es ++ [e]) f =
      (firstRecord ok es f).or (if ok e ∧ e.2.fullName = f then some (entryRecord e) else none) := by
  unfold firstRecord
  rw [List.find?_append]
  cases es.find? fun e => ok e && e.2.fullName = f with
  | some a => rfl
  | none => by_cases h : ok e ∧ e.2.fullName = f <;> simp [h]

theorem of_firstRecord {r : ModelRecord} (h : firstRecord ok es f = some r) :
    ∃ e ∈ es, ok e ∧ e.2.fullName = f ∧ entryRecord e = r := by
  obtain ⟨e, he, rfl⟩ := Option.map_eq_some_iff.mp h
  have hp := List.find?_some he
  simp only [Bool.and_eq_true, decide_eq_true_eq] at hp
  exact ⟨e, List.mem_of_find?_eq_some he, hp.1, hp.2, rfl⟩

variable (ok) in
theorem exists_firstRecord {e : String × ModelJson} (he : e ∈ es) (hok : ok e) :
    ∃ r, firstRecord ok es e.2.fullName = some r := by
  have hsome : (es.find? fun a => ok a && a.2.fullName = e.2.fullName).isSome := by
    rw [List.find?_isSome]
    exact ⟨e, he, by simp [hok]⟩
  obtain ⟨a, ha⟩ := Option.isSome_iff_exists.mp hsome
  exact ⟨entryRecord a, by simp [firstRecord, ha]⟩

end FirstRecord

theorem Reads.readModel {ns : List String} {es : List (String × ModelJson)} {p : Parsed} {service : String}
    (h : Reads env modelMap ns es p) (hs : service ∈ ns) (m : ModelJson) :
    Reads env modelMap ns (es ++ [(service, m)]) (readModel env modelMap service p m) where
  names n := by
    simp only [HttpService.readModel, TreeSet.mem_insert, h.names, Std.compare_eq_iff_eq, List.map_append,
      List.map_cons, List.map_nil, List.mem_append, List.mem_singleton]
    grind
  services n := by
    simp only [HttpService.readModel, TreeMap.mem_insert, h.services, Std.compare_eq_iff_eq]
    grind
  records n f := by
    rw [serviceRecord, firstRecord_append, ← serviceRecord, ← h.records n f]
    simp only [HttpService.readModel, TreeMap.getD_insert, Std.compare_eq_iff_eq]
    by_cases hn : service = n
    · subst hn
      rw [if_pos rfl, getElem?_insertIfNew_or]
      by_cases hf : m.fullName = f <;> simp [modelRecord, entryRecord, hf]
    · simp [hn]
  comp f := by
    rw [compRecord, firstRecord_append, ← compRecord, ← h.comp f]
    simp only [HttpService.readModel]
    by_cases hl : needsLoad env modelMap m
    · rw [if_pos hl, getElem?_insertIfNew_or]
      by_cases hf : m.fullName = f <;> simp [modelRecord, entryRecord, hl, hf]
    · simp [hl]

theorem Reads.models {ns : List String} {service : String} (hs : service ∈ ns) (ms : List ModelJson)
    {es : List (String × ModelJson)} {p : Parsed} (h : Reads env modelMap ns es p) :
    Reads env modelMap ns (es ++ ms.map (service, ·)) (ms.foldl (HttpService.readModel env modelMap service) p) := by
  induction ms generalizing es p with
  | nil => simpa using h
  | cons m ms ih => simpa using ih (h.readModel hs m)

theorem Reads.readService {ns : List String} {es : List (String × ModelJson)} {p : Parsed}
    (h : Reads env modelMap ns es p) (service : ServiceJson) :
    Reads env modelMap (ns ++ [service.serviceName]) (es ++ service.modelRecords.map (service.serviceName, ·))
      (readService env modelMap p service) := by
  refine Reads.models (by simp) _ ⟨h.names, ?_, ?_, h.comp⟩
  · intro n
    simp only [TreeMap.mem_insertIfNew, h.services, Std.compare_eq_iff_eq, List.mem_append, List.mem_singleton]
    grind
  · intro n f
    rw [← h.records n f]
    simp only [TreeMap.getD_insertIfNew, Std.compare_eq_iff_eq]
    split
    · rename_i hn
      obtain ⟨rfl, hmem⟩ := hn
      rw [TreeMap.getD_eq_fallback hmem]
    · rfl

theorem Reads.services_of {ns : List String} {es : List (String × ModelJson)} {p : Parsed} (req : Request)
    (h : Reads env modelMap ns es p) :
    Reads env modelMap (ns ++ serviceNames req) (es ++ entries req) (req.foldl (HttpService.readService env modelMap) p) := by
  induction req generalizing ns es p with
  | nil => simpa [serviceNames, entries] using h
  | cons service req ih => simpa [serviceNames, entries] using ih (h.readService service)

theorem reads_parse (env : Env) (modelMap : TreeMap String ModelRecord) (req : Request) :
    Reads env modelMap (serviceNames req) (entries req) (parse env modelMap req) := by
  have h0 : Reads env modelMap [] [] {} := by
    refine ⟨?_, ?_, ?_, ?_⟩ <;> simp [serviceRecord, compRecord, firstRecord]
  exact h0.services_of req

/-! ## The handler's work -/

theorem mem_recordsOf {set : RecordSet} {r : ModelRecord} : r ∈ recordsOf set ↔ ∃ f : String, set[f]? = some r := by
  simp only [recordsOf, List.mem_map, Prod.exists, TreeMap.mem_toList_iff_getElem?_eq_some, exists_eq_right]

theorem mem_compModels {req : Request} {r : ModelRecord} :
    r ∈ recordsOf (parse env modelMap req).compModels ↔ ∃ f, compRecord env modelMap (entries req) f = some r := by
  simp only [mem_recordsOf, (reads_parse env modelMap req).comp]

theorem mem_registerJobs {req : Request} {job : RegisterJob} (h : job ∈ registerJobs env (parse env modelMap req)) :
    job.serviceName ∈ serviceNames req ∧
      ∀ r, r ∈ job.modelRecords ↔ ∃ f, serviceRecord (entries req) job.serviceName f = some r := by
  obtain ⟨⟨service, records⟩, hmem, rfl⟩ := List.mem_map.mp h
  have hget := TreeMap.mem_toList_iff_getElem?_eq_some.mp hmem
  have hreads := reads_parse env modelMap req
  refine ⟨(hreads.services _).mp (TreeMap.mem_iff_isSome_getElem?.mpr (by rw [hget]; rfl)), fun r => ?_⟩
  show r ∈ recordsOf records ↔ _
  have hrec : ∀ f, records[f]? = serviceRecord (entries req) service f := by
    intro f
    rw [← hreads.records, TreeMap.getD_eq_getD_getElem?, hget]
    rfl
  simp only [mem_recordsOf, hrec]

theorem mem_uselessModelNames {m : Maps} {req : Request} {n : String} :
    n ∈ uselessModelNames m (parse env modelMap req) ↔ n ∈ m.modelMap ∧ n ∉ modelNames req := by
  simp [uselessModelNames, modelNames, (reads_parse env modelMap req).names]

theorem mem_uselessServiceNames {m : Maps} {req : Request} {n : String} :
    n ∈ uselessServiceNames m (parse env modelMap req) ↔ n ∈ m.serviceMap ∧ n ∉ serviceNames req := by
  simp [uselessServiceNames, (reads_parse env modelMap req).services]

end PredictorService.HttpService
