/-
  PredictorService.ServiceFramework.HttpServerManager — the locations of the HTTP server
  (service_framework/http/http_server_manager.cc, http_server_manager.h).

  `registerLocation` inserts, and so keeps the handler of a location that has one.
  `unregisterLocation` returns when the location is there, and otherwise erases nothing. A
  location that was registered keeps its first handler for good, so the table is the map of
  the latest registrations exactly as long as nobody registers another handler for it or
  unregisters it (`behavesAsMap_iff`).

  A handler is a callback with its method; both are type parameters.
-/

import PredictorService.Lib.FinMap

namespace PredictorService.ServiceFramework.HttpServerManager

open PredictorService.Lib

variable {Callback Method : Type}

structure Location (Callback Method : Type) where
  location : String
  callback : Callback
  method : Method
  deriving DecidableEq, Repr

/-- `locations_`. -/
abbrev Locations (Callback Method : Type) := FinMap String (Location Callback Method)

def registerLocation (locations : Locations Callback Method) (location : String) (callback : Callback)
    (method : Method) : Locations Callback Method :=
  let locationInfo : Location Callback Method := ⟨location, callback, method⟩
  if location ∈ locations then locations else locations.insert location locationInfo

def unregisterLocation (locations : Locations Callback Method) (location : String) : Locations Callback Method :=
  if location ∈ locations then locations else locations.erase location

def getLocation (locations : Locations Callback Method) (location : String) : Option (Location Callback Method) :=
  if location ∈ locations then locations.lookup location else none

inductive Call (Callback Method : Type) where
  | registerLocation (location : String) (callback : Callback) (method : Method)
  | unregisterLocation (location : String)
  | getLocation (location : String)

def Call.location : Call Callback Method → String
  | .registerLocation location _ _ => location
  | .unregisterLocation location => location
  | .getLocation location => location

def exec (locations : Locations Callback Method) : Call Callback Method → Locations Callback Method
  | .registerLocation location callback method => registerLocation locations location callback method
  | .unregisterLocation location => unregisterLocation locations location
  | .getLocation _ => locations

/-- The locations after some calls. -/
def after (calls : List (Call Callback Method)) : Locations Callback Method := calls.foldl exec ∅

/-! ## What a map would hold -/

/-- What a call leaves for a location that had `current`. -/
def Call.change (location : String) (current : Option (Location Callback Method)) :
    Call Callback Method → Option (Location Callback Method)
  | .registerLocation l callback method => if l = location then some ⟨l, callback, method⟩ else current
  | .unregisterLocation l => if l = location then none else current
  | .getLocation _ => current

/-- The latest registration of a location that no removal follows. -/
def latest (calls : List (Call Callback Method)) (location : String) : Option (Location Callback Method) :=
  calls.foldl (Call.change location) none

structure BehavesAsMap (calls : List (Call Callback Method)) : Prop where
  latest : ∀ calls', calls' <+: calls → ∀ location, getLocation (after calls') location = latest calls' location
  others : ∀ calls' call, calls' ++ [call] <+: calls → ∀ location, location ≠ call.location →
    getLocation (after (calls' ++ [call])) location = getLocation (after calls') location

/-- The second call changes nothing that the first one registered. -/
def Leaves : Call Callback Method → Call Callback Method → Prop
  | .registerLocation location callback method, .registerLocation location' callback' method' =>
    location = location' → callback = callback' ∧ method = method'
  | .registerLocation location _ _, .unregisterLocation location' => location ≠ location'
  | _, _ => True

/-! ## One call -/

theorem getLocation_eq (locations : Locations Callback Method) (location : String) :
    getLocation locations location = locations.lookup location := by
  unfold getLocation
  split
  · rfl
  · rename_i h
    exact (Finmap.lookup_eq_none.mpr h).symm

/-- What is there stays. -/
theorem getLocation_exec (locations : Locations Callback Method) (call : Call Callback Method) (location : String) :
    getLocation (exec locations call) location =
      (getLocation locations location).or (Call.change location none call) := by
  simp only [getLocation_eq]
  cases call with
  | registerLocation l callback method =>
    simp only [exec, registerLocation, Call.change]
    split
    · rename_i hmem
      obtain ⟨info, hinfo⟩ := Finmap.mem_iff.mp hmem
      split
      · subst location
        rw [hinfo, Option.some_or]
      · rw [Option.or_none]
    · rename_i hmem
      rw [FinMap.lookup_insert_ite]
      by_cases hl : l = location
      · subst hl
        rw [if_pos rfl, if_pos rfl, Finmap.lookup_eq_none.mpr hmem, Option.none_or]
      · rw [if_neg (Ne.symm hl), if_neg hl, Option.or_none]
  | unregisterLocation l =>
    have hnone : Call.change location none (.unregisterLocation l : Call Callback Method) = none := by
      simp only [Call.change, ite_self]
    rw [hnone, Option.or_none]
    simp only [exec, unregisterLocation]
    split
    · rfl
    · rename_i hmem
      rw [FinMap.lookup_erase_ite]
      split
      · subst location
        exact (Finmap.lookup_eq_none.mpr hmem).symm
      · rfl
  | getLocation l => rw [Call.change, Option.or_none]; rfl

theorem after_snoc (calls : List (Call Callback Method)) (call : Call Callback Method) :
    after (calls ++ [call]) = exec (after calls) call := by
  rw [after, List.foldl_append]
  rfl

theorem latest_snoc (calls : List (Call Callback Method)) (call : Call Callback Method) (location : String) :
    latest (calls ++ [call]) location = call.change location (latest calls location) := by
  rw [latest, List.foldl_append]
  rfl

theorem change_other {call : Call Callback Method} {location : String} (h : location ≠ call.location)
    (current : Option (Location Callback Method)) : call.change location current = current := by
  cases call with
  | registerLocation l callback method => exact if_neg (Ne.symm h)
  | unregisterLocation l => exact if_neg (Ne.symm h)
  | getLocation l => rfl

/-- A call leaves other locations alone. -/
theorem getLocation_other (calls : List (Call Callback Method)) {call : Call Callback Method} {location : String}
    (h : location ≠ call.location) :
    getLocation (after (calls ++ [call])) location = getLocation (after calls) location := by
  rw [after_snoc, getLocation_exec, change_other h, Option.or_none]

/-! ## Whole runs -/

/-- The table and the map agree. -/
def Agree (calls : List (Call Callback Method)) : Prop :=
  ∀ location, getLocation (after calls) location = latest calls location

theorem mem_of_latest {calls : List (Call Callback Method)} {location : String} {info : Location Callback Method}
    (h : latest calls location = some info) :
    info.location = location ∧ .registerLocation location info.callback info.method ∈ calls := by
  induction calls using List.reverseRecOn with
  | nil => cases h
  | append_singleton calls call ih =>
    rw [latest_snoc] at h
    by_cases hother : location = call.location
    · subst hother
      cases call with
      | registerLocation l callback method =>
        rw [Call.location, Call.change, if_pos rfl, Option.some_inj] at h
        subst h
        exact ⟨rfl, List.mem_append_right _ List.mem_cons_self⟩
      | unregisterLocation l =>
        rw [Call.location, Call.change, if_pos rfl] at h
        cases h
      | getLocation l =>
        obtain ⟨hlocation, hmem⟩ := ih h
        exact ⟨hlocation, List.mem_append_left _ hmem⟩
    · rw [change_other hother] at h
      obtain ⟨hlocation, hmem⟩ := ih h
      exact ⟨hlocation, List.mem_append_left _ hmem⟩

/-- Where later calls leave them, all registrations are still the latest ones. -/
theorem latest_of_mem {calls : List (Call Callback Method)} (hleaves : calls.Pairwise Leaves) {location : String}
    {callback : Callback} {method : Method} (h : .registerLocation location callback method ∈ calls) :
    latest calls location = some ⟨location, callback, method⟩ := by
  induction calls using List.reverseRecOn with
  | nil => cases h
  | append_singleton calls call ih =>
    obtain ⟨hcalls, -, hlast⟩ := List.pairwise_append.mp hleaves
    rw [latest_snoc]
    rcases List.mem_append.mp h with hmem | hmem
    · have hlatest := ih hcalls hmem
      have hleave := hlast _ hmem call List.mem_cons_self
      cases call with
      | registerLocation l callback' method' =>
        rw [Call.change, hlatest]
        split
        · subst l
          obtain ⟨rfl, rfl⟩ := hleave rfl
          rfl
        · rfl
      | unregisterLocation l => rw [Call.change, if_neg (Ne.symm hleave), hlatest]
      | getLocation l => exact hlatest
    · cases List.mem_singleton.mp hmem
      exact if_pos rfl

/-- A call keeps the agreement exactly when it changes no registration. -/
theorem agree_snoc_iff {calls : List (Call Callback Method)} (hleaves : calls.Pairwise Leaves) (hagree : Agree calls)
    (call : Call Callback Method) : Agree (calls ++ [call]) ↔ ∀ call' ∈ calls, Leaves call' call := by
  have hstep (location : String) : getLocation (after (calls ++ [call])) location = latest (calls ++ [call]) location ↔
      (latest calls location).or (call.change location none) = call.change location (latest calls location) := by
    rw [after_snoc, getLocation_exec, hagree location, latest_snoc]
  refine (forall_congr' hstep).trans ⟨fun h call' hmem => ?_, fun h location => ?_⟩
  · cases call' with
    | registerLocation location callback method =>
      have hkept := h location
      rw [latest_of_mem hleaves hmem, Option.some_or] at hkept
      cases call with
      | registerLocation l callback' method' =>
        rintro rfl
        rw [Call.change, if_pos rfl] at hkept
        cases hkept
        exact ⟨rfl, rfl⟩
      | unregisterLocation l =>
        rintro rfl
        rw [Call.change, if_pos rfl] at hkept
        cases hkept
      | getLocation l => trivial
    | unregisterLocation l => trivial
    | getLocation l => trivial
  · cases hlatest : latest calls location with
    | none => rw [Option.none_or]
    | some info =>
      obtain ⟨hlocation, hmem⟩ := mem_of_latest hlatest
      have hleave := h _ hmem
      rw [Option.some_or]
      cases call with
      | registerLocation l callback method =>
        rw [Call.change]
        split
        · obtain ⟨rfl, rfl⟩ := hleave (Eq.symm ‹l = location›)
          subst l
          rw [← hlocation]
        · rfl
      | unregisterLocation l => exact (if_neg (Ne.symm hleave)).symm
      | getLocation l => rfl

theorem agree_prefixes_iff (calls : List (Call Callback Method)) :
    (∀ calls', calls' <+: calls → Agree calls') ↔ calls.Pairwise Leaves := by
  induction calls using List.reverseRecOn with
  | nil =>
    refine ⟨fun _ => .nil, fun _ calls' h location => ?_⟩
    rw [List.prefix_nil.mp h, getLocation_eq]
    exact Finmap.lookup_empty location
  | append_singleton calls call ih =>
    have hbefore : (∀ calls', calls' <+: calls ++ [call] → Agree calls') ↔
        Agree (calls ++ [call]) ∧ ∀ calls', calls' <+: calls → Agree calls' := by
      simp only [List.prefix_concat_iff, forall_eq_or_imp]
    have hpairwise : (calls ++ [call]).Pairwise Leaves ↔ calls.Pairwise Leaves ∧ ∀ call' ∈ calls, Leaves call' call := by
      simp [List.pairwise_append]
    rw [hbefore, hpairwise, ih, and_comm]
    refine and_congr_right fun hleaves => ?_
    exact agree_snoc_iff hleaves (ih.mpr hleaves calls List.prefix_rfl) call

/-- The table behaves as a map exactly while nobody changes or removes a registration. -/
theorem behavesAsMap_iff (calls : List (Call Callback Method)) : BehavesAsMap calls ↔ calls.Pairwise Leaves :=
  ⟨fun h => (agree_prefixes_iff calls).mp h.latest,
    fun h => ⟨(agree_prefixes_iff calls).mpr h, fun calls' _ _ _ hother => getLocation_other calls' hother⟩⟩

/-- Neither a new handler nor a removal reaches the table. -/
theorem first_handler_stays :
    let calls : List (Call Nat Nat) := [.registerLocation "/status" 1 0, .registerLocation "/status" 2 0]
    let calls' : List (Call Nat Nat) := [.registerLocation "/status" 1 0, .unregisterLocation "/status"]
    getLocation (after calls) "/status" = some ⟨"/status", 1, 0⟩ ∧ latest calls "/status" = some ⟨"/status", 2, 0⟩ ∧
      getLocation (after calls') "/status" = some ⟨"/status", 1, 0⟩ ∧ latest calls' "/status" = none ∧
      ¬ BehavesAsMap calls ∧ ¬ BehavesAsMap calls' := by
  intro calls calls'
  have hfirst (call : Call Nat Nat) :
      getLocation (after [.registerLocation "/status" 1 0, call]) "/status" = some ⟨"/status", 1, 0⟩ := by
    rw [after, List.foldl_cons, List.foldl_cons, List.foldl_nil, getLocation_exec, getLocation_exec, getLocation_eq,
      Finmap.lookup_empty]
    rfl
  refine ⟨hfirst _, rfl, hfirst _, rfl, fun h => ?_, fun h => ?_⟩
  · have hlatest := h.latest calls List.prefix_rfl "/status"
    rw [hfirst] at hlatest
    exact absurd (congrArg (Option.map Location.callback) hlatest) (by decide)
  · have hlatest := h.latest calls' List.prefix_rfl "/status"
    rw [hfirst] at hlatest
    cases hlatest

end PredictorService.ServiceFramework.HttpServerManager
