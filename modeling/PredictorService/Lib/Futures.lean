/-
  PredictorService.Lib.Futures — a batch of tasks on a thread pool, and `collectAll`.

  A batch is a list of tasks. Task `i` completes once, at a moment of its own: `value q w`
  is what task `q` ends with when it sees the world `w`, an exception included, and
  `pushes q w` is what it appends to a vector that the tasks share. A run of `complete` is
  a completion order. `collectAll` waits for every task and returns the outcomes in the
  order of the tasks.

  `run_perm` is the rule: whatever the order, every task's outcome stands at its own place,
  and the shared vector holds what was pushed, in the order of completion.
-/

import Mathlib.Data.List.Basic
import PredictorService.Lib.Runs

namespace PredictorService.Lib.Futures

variable {ε α β P Q W : Type*}

/-! ## Outcomes -/

/-- `folly::Try`: a value, or the exception the task ended with. -/
abbrev Try (ε α : Type*) := Except ε α

namespace Try

def hasException : Try ε α → Bool
  | .ok _ => false
  | .error _ => true

/-- `value()` rethrows the exception. -/
def value (v : Try ε α) : Except ε α := v

@[simp] theorem hasException_ok (a : α) : hasException (.ok a : Try ε α) = false := rfl
@[simp] theorem hasException_error (e : ε) : hasException (.error e : Try ε α) = true := rfl

end Try

/-- The values among the outcomes. -/
def values (vs : List (Try ε α)) : List α := vs.filterMap Except.toOption

@[simp] theorem values_nil : values ([] : List (Try ε α)) = [] := rfl
@[simp] theorem values_ok (a : α) (vs : List (Try ε α)) : values (.ok a :: vs) = a :: values vs := rfl

/-- A loop over outcomes that takes the value of each. -/
def foldValues (f : β → α → β) (acc : β) : List (Try ε α) → Except ε β
  | [] => .ok acc
  | v :: vs => v.value.bind fun a => foldValues f (f acc a) vs

/-- Such a loop ends exactly when no outcome is an exception. -/
theorem foldValues_ok_iff {f : β → α → β} {acc out : β} {vs : List (Try ε α)} :
    foldValues f acc vs = .ok out ↔ (∀ v ∈ vs, v.hasException = false) ∧ out = (values vs).foldl f acc := by
  induction vs generalizing acc with
  | nil =>
    have hnil : foldValues f acc ([] : List (Try ε α)) = .ok acc := rfl
    simp only [hnil, Except.ok.injEq, List.not_mem_nil, false_imp_iff, implies_true, true_and, values_nil,
      List.foldl_nil]
    exact eq_comm
  | cons v vs ih =>
    cases v with
    | ok a =>
      show foldValues f (f acc a) vs = .ok out ↔ _
      rw [ih]
      simp
    | error e =>
      have herr : foldValues f acc (.error e :: vs) = .error e := rfl
      simp [herr]

/-! ## Batches -/

structure Batch (P ε α : Type*) where
  pushed : List P
  slots : List (Option (Try ε α))

/-- Every task is pending. -/
def start (P ε α : Type*) (n : Nat) : Batch P ε α := ⟨[], List.replicate n none⟩

variable (value : Q → W → Try ε α) (pushes : Q → W → List P) (tasks : List Q)

/-- Task `e.1` completes, in the world `e.2`. -/
def complete (b : Batch P ε α) (e : Nat × W) : Option (Batch P ε α) :=
  match tasks[e.1]?, b.slots[e.1]? with
  | some q, some none => some ⟨b.pushed ++ pushes q e.2, b.slots.set e.1 (some (value q e.2))⟩
  | _, _ => none

/-- What the future of `collectAll` holds; `none` while a task is pending. -/
def collectAll (b : Batch P ε α) : Option (List (Try ε α)) := b.slots.mapM id

/-- The completions of all tasks, in task order, when task `i` sees `ws[i]`. -/
def completions (ws : List W) : List (Nat × W) := ws.zipIdx.map Prod.swap

theorem mem_completions {ws : List W} {e : Nat × W} : e ∈ completions ws ↔ ws[e.1]? = some e.2 := by
  simp [completions, List.mem_zipIdx_iff_getElem?, Prod.ext_iff]

theorem nodup_completions (ws : List W) : ((completions ws).map (·.1)).Nodup := by
  have h : (completions ws).map (·.1) = List.range ws.length := by
    simp [completions, Function.comp_def, List.range_eq_range']
  rw [h]
  exact List.nodup_range

/-- `completed` is a completion order of all tasks, in which task `i` sees `ws[i]`. -/
def Completes {Q W : Type*} (tasks : List Q) (ws : List W) (completed : List (Nat × W)) : Prop :=
  ws.length = tasks.length ∧ completed.Perm (completions ws)

/-- The outcomes, in task order. -/
def outcomes (ws : List W) : List (Try ε α) := List.zipWith value tasks ws

/-- The slots once the tasks `done` have completed. -/
def filled (ws : List W) (done : List Nat) : List (Option (Try ε α)) :=
  (outcomes value tasks ws).zipIdx.map fun v => if v.2 ∈ done then some v.1 else none

theorem filled_nil {ws : List W} (hlen : ws.length = tasks.length) :
    filled value tasks ws [] = List.replicate tasks.length none := by
  rw [List.eq_replicate_iff]
  simp [filled, outcomes, hlen]

theorem getElem?_filled (ws : List W) (done : List Nat) (i : Nat) :
    (filled value tasks ws done)[i]? =
      (outcomes value tasks ws)[i]?.map fun v => if i ∈ done then some v else none := by
  simp [filled, List.getElem?_zipIdx, Option.map_map, Function.comp_def]

/-- What the task of a completion pushes. -/
def pushedBy (e : Nat × W) : List P := (tasks[e.1]?.map fun q => pushes q e.2).getD []

/-- One completion fills the slot of its task. -/
theorem complete_filled {ws : List W} {done : List Nat} {p : List P} {e : Nat × W} (hlen : ws.length = tasks.length)
    (he : ws[e.1]? = some e.2) (hnew : e.1 ∉ done) :
    complete value pushes tasks ⟨p, filled value tasks ws done⟩ e =
      some ⟨p ++ pushedBy pushes tasks e, filled value tasks ws (done ++ [e.1])⟩ := by
  have hlt : e.1 < tasks.length := by
    have := (List.getElem?_eq_some_iff.mp he).1
    omega
  have hq : tasks[e.1]? = some tasks[e.1] := List.getElem?_eq_getElem hlt
  have hout : (outcomes value tasks ws)[e.1]? = some (value tasks[e.1] e.2) := by
    simp [outcomes, List.getElem?_zipWith, hq, he]
  have hslot : (filled value tasks ws done)[e.1]? = some none := by
    rw [getElem?_filled, hout]
    simp [hnew]
  simp only [complete, hq, hslot, pushedBy, Option.map_some, Option.getD_some]
  congr 2
  refine List.ext_getElem? fun i => ?_
  rw [List.getElem?_set, getElem?_filled, getElem?_filled]
  by_cases hi : e.1 = i
  · subst hi
    have hl : e.1 < (filled value tasks ws done).length := (List.getElem?_eq_some_iff.mp hslot).1
    simp [hl, hout]
  · simp [hi, Ne.symm hi]

theorem run_filled {ws : List W} (hlen : ws.length = tasks.length) {es : List (Nat × W)} (done : List Nat) (p : List P)
    (hes : ∀ e ∈ es, ws[e.1]? = some e.2) (hnew : (done ++ es.map (·.1)).Nodup) :
    run (complete value pushes tasks) ⟨p, filled value tasks ws done⟩ es =
      some ⟨p ++ es.flatMap (pushedBy pushes tasks), filled value tasks ws (done ++ es.map (·.1))⟩ := by
  induction es generalizing done p with
  | nil => simp
  | cons e es ih =>
    have he : e.1 ∉ done := fun h => (List.nodup_append.mp hnew).2.2 e.1 h e.1 (by simp) rfl
    have hrest : (done ++ [e.1] ++ es.map (·.1)).Nodup := by simpa using hnew
    rw [run_cons, complete_filled value pushes tasks hlen (hes e List.mem_cons_self) he, Option.bind_some,
      ih _ _ (fun e' he' => hes e' (List.mem_cons_of_mem _ he')) hrest]
    simp

/-- Any completion order of all tasks is a run, and it leaves every outcome at its place. -/
theorem run_perm {ws : List W} {es : List (Nat × W)} (h : Completes tasks ws es) :
    run (complete value pushes tasks) (start P ε α tasks.length) es =
      some ⟨es.flatMap (pushedBy pushes tasks), (outcomes value tasks ws).map some⟩ := by
  obtain ⟨hlen, hes⟩ := h
  have hnd : (es.map (·.1)).Nodup := (hes.map _).nodup_iff.mpr (nodup_completions ws)
  have hall := run_filled value pushes tasks hlen [] []
    (fun e he => mem_completions.mp (hes.mem_iff.mp he)) (by simpa using hnd)
  rw [filled_nil value tasks hlen] at hall
  rw [start, hall]
  congr 2
  refine List.ext_getElem? fun i => ?_
  rw [getElem?_filled, List.getElem?_map]
  cases hv : (outcomes value tasks ws)[i]? with
  | none => rfl
  | some v =>
    obtain ⟨hi, -⟩ := List.getElem?_eq_some_iff.mp hv
    have hw : i < ws.length := by
      simp only [outcomes, List.length_zipWith] at hi
      omega
    have hmem : (i, ws[i]) ∈ es := hes.mem_iff.mpr (mem_completions.mpr (List.getElem?_eq_getElem hw))
    simp [List.mem_map.mpr ⟨_, hmem, rfl⟩]

@[simp] theorem collectAll_all (p : List P) (vs : List (Try ε α)) : collectAll ⟨p, vs.map some⟩ = some vs := by
  unfold collectAll
  induction vs with
  | nil => rfl
  | cons v vs ih => simp_all [List.mapM_cons]

theorem forall_outcomes {ws : List W} {C : Try ε α → Prop} :
    (∀ v ∈ outcomes value tasks ws, C v) ↔ ∀ p ∈ tasks.zip ws, C (value p.1 p.2) := by
  rw [outcomes, ← List.map_uncurry_zip_eq_zipWith, List.forall_mem_map]
  rfl

theorem mem_values_outcomes {ws : List W} {a : α} (h : a ∈ values (outcomes value tasks ws)) :
    ∃ q w, value q w = .ok a := by
  obtain ⟨v, hv, ha⟩ := List.mem_filterMap.mp h
  rw [outcomes, ← List.map_uncurry_zip_eq_zipWith] at hv
  obtain ⟨⟨q, w⟩, -, rfl⟩ := List.mem_map.mp hv
  refine ⟨q, w, ?_⟩
  rw [Function.uncurry_apply_pair] at ha
  cases hval : value q w with
  | error e => simp [hval, Except.toOption] at ha
  | ok b => simpa [hval, Except.toOption] using ha

/-- Without exceptions every task has its value. -/
theorem forall₂_values_outcomes {R : Q → α → Prop} {ws : List W} (hlen : ws.length = tasks.length)
    (hok : ∀ v ∈ outcomes value tasks ws, v.hasException = false)
    (hR : ∀ q ∈ tasks, ∀ w ∈ ws, ∀ a, value q w = .ok a → R q a) :
    List.Forall₂ R tasks (values (outcomes value tasks ws)) := by
  induction tasks generalizing ws with
  | nil => exact List.Forall₂.nil
  | cons q tasks ih =>
    cases ws with
    | nil => cases hlen
    | cons w ws =>
      have htail := ih (Nat.succ.inj hlen) (fun v hv => hok v (List.mem_cons_of_mem _ hv)) fun q hq w hw =>
        hR q (List.mem_cons_of_mem _ hq) w (List.mem_cons_of_mem _ hw)
      have hhead := hok (value q w) List.mem_cons_self
      show List.Forall₂ R (q :: tasks) (values (value q w :: outcomes value tasks ws))
      cases hv : value q w with
      | ok a => exact .cons (hR q List.mem_cons_self w List.mem_cons_self a hv) htail
      | error e =>
        rw [hv] at hhead
        cases hhead

/-- What was pushed, whatever the order. -/
theorem mem_pushed {ws : List W} {es : List (Nat × W)} (h : Completes tasks ws es) {x : P} :
    x ∈ es.flatMap (pushedBy pushes tasks) ↔ ∃ p ∈ tasks.zip ws, x ∈ pushes p.1 p.2 := by
  simp only [List.mem_flatMap, h.2.mem_iff, mem_completions, List.mem_iff_getElem? (l := tasks.zip ws)]
  constructor
  · intro h
    obtain ⟨e, he, hx⟩ := h
    cases hq : tasks[e.1]? with
    | none => simp [pushedBy, hq] at hx
    | some q =>
      refine ⟨(q, e.2), ⟨e.1, by simp [List.getElem?_zip_eq_some, hq, he]⟩, ?_⟩
      simpa [pushedBy, hq] using hx
  · intro h
    obtain ⟨p, ⟨i, hi⟩, hx⟩ := h
    obtain ⟨hq, hw⟩ := List.getElem?_zip_eq_some.mp hi
    exact ⟨(i, p.2), hw, by simpa [pushedBy, hq] using hx⟩

end PredictorService.Lib.Futures
