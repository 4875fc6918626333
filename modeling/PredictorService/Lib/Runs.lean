/-
  PredictorService.Lib.Runs — runs of an event machine.

  A machine is a partial step function `step : S → E → Option S`; `none` says that the
  event is not enabled in that state. A run is the fold of `step` over a list of events.
  `Meets ok s es` says that each step of the run over `es` meets a condition on the state
  before it and on its event: the form in which an environment promises something.

  The rules are `run_invariant` (a property of states), `run_history` (a property of the
  state together with the events that led to it), and `prefixes_iff_meets`: when a
  condition says exactly which steps keep a property, the runs that have the property
  throughout are those that meet the condition (`prefixes_iff_meets_on` when something is
  known of the events, `foldl_prefixes_iff` when every event is enabled). A `Component` of a
  machine has runs of its own.
-/

import Mathlib.Data.List.Basic

namespace PredictorService.Lib

variable {S E : Type*} (step : S → E → Option S)

/-- The state after the events `es`, or `none` when one of them was not enabled. -/
def run (s : S) (es : List E) : Option S := es.foldlM step s

/-- Every step of the run over `es` meets `ok`. -/
def Meets (ok : S → E → Prop) : S → List E → Prop
  | _, [] => True
  | s, e :: es => ok s e ∧ ∀ t, step s e = some t → Meets ok t es

@[simp] theorem run_nil (s : S) : run step s [] = some s := rfl

theorem run_cons (s : S) (e : E) (es : List E) : run step s (e :: es) = (step s e).bind (run step · es) := rfl

theorem run_cons_some {s t : S} {e : E} {es : List E} :
    run step s (e :: es) = some t ↔ ∃ u, step s e = some u ∧ run step u es = some t := by
  rw [run_cons, Option.bind_eq_some_iff]

theorem run_append_some {s t : S} {es fs : List E} :
    run step s (es ++ fs) = some t ↔ ∃ u, run step s es = some u ∧ run step u fs = some t := by
  simp only [run, List.foldlM_append, Option.bind_eq_bind, Option.bind_eq_some_iff]

/-- A guarded step. -/
theorem guard_some {p : Prop} [Decidable p] {a b : S} : (if p then some a else none) = some b ↔ p ∧ a = b := by
  by_cases h : p <;> simp [h]

theorem meets_true (s : S) (es : List E) : Meets step (fun _ _ => True) s es := by
  induction es generalizing s with
  | nil => trivial
  | cons e es ih => exact ⟨trivial, fun t _ => ih t⟩

theorem meets_of_forall {ok : S → E → Prop} {es : List E} (h : ∀ e ∈ es, ∀ s, ok s e) (s : S) : Meets step ok s es := by
  induction es generalizing s with
  | nil => trivial
  | cons e es ih =>
    exact ⟨h e List.mem_cons_self s, fun t _ => ih (fun e' he' => h e' (List.mem_cons_of_mem _ he')) t⟩

theorem Meets.mono {ok ok' : S → E → Prop} (h : ∀ s e, ok s e → ok' s e) {s : S} {es : List E}
    (hm : Meets step ok s es) : Meets step ok' s es := by
  induction es generalizing s with
  | nil => trivial
  | cons e es ih => exact ⟨h s e hm.1, fun t ht => ih (hm.2 t ht)⟩

/-- A condition that can be checked at a step can be checked along a run. -/
instance decidableMeets (ok : S → E → Prop) [∀ s e, Decidable (ok s e)] :
    ∀ (s : S) (es : List E), Decidable (Meets step ok s es)
  | _, [] => isTrue trivial
  | s, e :: es =>
    match h : step s e with
    | none => decidable_of_iff (ok s e) (by simp [Meets, h])
    | some t =>
      have := decidableMeets ok t es
      decidable_of_iff (ok s e ∧ Meets step ok t es) (by simp [Meets, h])

/-- What every step keeps, every run keeps, and the invariant may speak of the events so
    far. -/
theorem run_history (ok : S → E → Prop) (Inv : List E → S → Prop)
    (hstep : ∀ (hist : List E) (s t : S) (e : E), Inv hist s → ok s e → step s e = some t → Inv (hist ++ [e]) t)
    (hist : List E) {es : List E} {s t : S} (h0 : Inv hist s) (hm : Meets step ok s es) (hr : run step s es = some t) :
    Inv (hist ++ es) t := by
  induction es generalizing hist s with
  | nil =>
    rw [run_nil] at hr
    cases hr
    simpa using h0
  | cons e es ih =>
    obtain ⟨u, hu, hr⟩ := (run_cons_some step).mp hr
    have h1 := ih (hist ++ [e]) (hstep hist s u e h0 hm.1 hu) (hm.2 u hu) hr
    simpa using h1

theorem run_invariant (Inv : S → Prop) (hstep : ∀ (s t : S) (e : E), Inv s → step s e = some t → Inv t)
    {es : List E} {s t : S} (h0 : Inv s) (hr : run step s es = some t) : Inv t := by
  have hh : ∀ (_ : List E) (s t : S) (e : E), Inv s → True → step s e = some t → Inv t :=
    fun _ s t e h _ ht => hstep s t e h ht
  exact run_history step (fun _ _ => True) (fun _ s => Inv s) hh [] h0 (meets_true step s es) hr

/-- Where every step makes a weight smaller, the weight bounds a run. -/
theorem run_length_le (weight : S → Nat) (Inv : S → Prop)
    (hstep : ∀ (s t : S) (e : E), Inv s → step s e = some t → Inv t ∧ weight t < weight s) {es : List E} {s t : S}
    (h0 : Inv s) (hr : run step s es = some t) : es.length + weight t ≤ weight s := by
  induction es generalizing s with
  | nil =>
    cases hr
    simp
  | cons e es ih =>
    obtain ⟨u, hu, hr⟩ := (run_cons_some step).mp hr
    obtain ⟨hinv, hlt⟩ := hstep s u e h0 hu
    have hrest := ih hinv hr
    rw [List.length_cons]
    omega

/-- When a condition says which steps keep a property, the runs that have the property
    throughout are those that meet the condition. `P` is what is known of every event. -/
theorem prefixes_iff_meets_on (P : E → Prop) (ok : S → E → Prop) (Base Good : S → Prop)
    (hbase : ∀ (s t : S) (e : E), P e → Base s → step s e = some t → Base t)
    (hgood : ∀ (s t : S) (e : E), P e → Base s → Good s → step s e = some t → (Good t ↔ ok s e))
    {es : List E} (hes : ∀ e ∈ es, P e) {s t : S} (h0 : Base s) (hg : Good s) (hr : run step s es = some t) :
    (∀ es₁ es₂ u, es = es₁ ++ es₂ → run step s es₁ = some u → Good u) ↔ Meets step ok s es := by
  induction es generalizing s with
  | nil =>
    refine ⟨fun _ => trivial, fun _ es₁ es₂ u hes hu => ?_⟩
    obtain ⟨rfl, -⟩ := List.append_eq_nil_iff.mp hes.symm
    cases hu
    exact hg
  | cons e es ih =>
    obtain ⟨v, hv, hr⟩ := (run_cons_some step).mp hr
    have he := hes e List.mem_cons_self
    have htl : ∀ e' ∈ es, P e' := fun e' he' => hes e' (List.mem_cons_of_mem _ he')
    have hiff := hgood s v e he h0 hg hv
    have hbv := hbase s v e he h0 hv
    constructor
    · intro h
      have hgv : Good v := h [e] es v rfl ((run_cons_some step).mpr ⟨v, hv, rfl⟩)
      refine ⟨hiff.mp hgv, fun u hu => ?_⟩
      obtain rfl : v = u := Option.some.inj (hv.symm.trans hu)
      refine (ih htl hbv hgv hr).mp fun es₁ es₂ w hes hw => ?_
      exact h (e :: es₁) es₂ w (by rw [hes]; rfl) ((run_cons_some step).mpr ⟨v, hv, hw⟩)
    · intro hm es₁ es₂ u hes hu
      have hgv : Good v := hiff.mpr hm.1
      cases es₁ with
      | nil =>
        cases hu
        exact hg
      | cons e' es₁ =>
        obtain ⟨rfl, htail⟩ := List.cons.inj hes
        obtain ⟨v', hv', hu⟩ := (run_cons_some step).mp hu
        obtain rfl : v = v' := Option.some.inj (hv.symm.trans hv')
        exact (ih htl hbv hgv hr).mpr (hm.2 v hv) es₁ es₂ u htail hu

theorem prefixes_iff_meets (ok : S → E → Prop) (Base Good : S → Prop)
    (hbase : ∀ (s t : S) (e : E), Base s → step s e = some t → Base t)
    (hgood : ∀ (s t : S) (e : E), Base s → Good s → step s e = some t → (Good t ↔ ok s e))
    {es : List E} {s t : S} (h0 : Base s) (hg : Good s) (hr : run step s es = some t) :
    (∀ es₁ es₂ u, es = es₁ ++ es₂ → run step s es₁ = some u → Good u) ↔ Meets step ok s es :=
  prefixes_iff_meets_on step (fun _ => True) ok Base Good (fun s t e _ => hbase s t e) (fun s t e _ => hgood s t e)
    (fun _ _ => trivial) h0 hg hr

/-- The same for a machine that takes every event, with a condition on the events alone. -/
theorem foldl_prefixes_iff {f : S → E → S} {Good : S → Prop} {ok : E → Prop}
    (hgood : ∀ (s : S) (e : E), Good s → (Good (f s e) ↔ ok e)) (s : S) (es : List E) :
    (∀ es₁ es₂, es = es₁ ++ es₂ → Good (es₁.foldl f s)) ↔ Good s ∧ ∀ e ∈ es, ok e := by
  induction es generalizing s with
  | nil => simp
  | cons e es ih =>
    constructor
    · intro h
      have hs : Good s := h [] (e :: es) rfl
      have hrest : ∀ es₁ es₂, es = es₁ ++ es₂ → Good (es₁.foldl f (f s e)) := fun es₁ es₂ hes =>
        h (e :: es₁) es₂ (by rw [hes]; rfl)
      obtain ⟨hfirst, hall⟩ := (ih (f s e)).mp hrest
      exact ⟨hs, List.forall_mem_cons.mpr ⟨(hgood s e hs).mp hfirst, hall⟩⟩
    · rintro ⟨hs, hall⟩ es₁ es₂ hes
      obtain ⟨he, hrest⟩ := List.forall_mem_cons.mp hall
      cases es₁ with
      | nil => exact hs
      | cons e' es₁ =>
        obtain ⟨rfl, htail⟩ := List.cons.inj hes
        exact (ih (f s e)).mpr ⟨(hgood s e hs).mpr he, hrest⟩ es₁ es₂ htail

/-! ## A component of a machine -/

section Component

variable {S E T F : Type*} {step : S → E → Option S} {inner : T → F → Option T}

/-- Each step of the machine is one of the component's or leaves it as it is. -/
structure Component (step : S → E → Option S) (inner : T → F → Option T) where
  state : S → T
  event : E → Option F
  step_some : ∀ s t e f, event e = some f → step s e = some t → inner (state s) f = some (state t)
  step_none : ∀ s t e, event e = none → step s e = some t → state t = state s

/-- A run of the machine is one of the component. -/
theorem Component.run (c : Component step inner) {es : List E} {s t : S} (hr : run step s es = some t) :
    Lib.run inner (c.state s) (es.filterMap c.event) = some (c.state t) := by
  induction es generalizing s with
  | nil =>
    cases hr
    rfl
  | cons e es ih =>
    obtain ⟨u, hu, hr⟩ := (run_cons_some step).mp hr
    cases he : c.event e with
    | none =>
      rw [List.filterMap_cons_none he, ← c.step_none s u e he hu]
      exact ih hr
    | some f =>
      rw [List.filterMap_cons_some he]
      exact (run_cons_some inner).mpr ⟨c.state u, c.step_some s u e f he hu, ih hr⟩

end Component

end PredictorService.Lib
