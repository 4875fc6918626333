/-
  PredictorService.Lib.Rejoin — results that go back to their elements by position.

  Of a list only some elements have something to be asked (`f`); the answers come in the
  order of the questions and are put beside the list's first elements. Each answer then
  stands beside the element that it was asked for exactly when the elements with a question
  come first (`zip_filterMap_iff`), and then each of them has its answer
  (`mem_fst_zip_filterMap`).
-/

import Mathlib.Data.List.Forall2

namespace PredictorService.Lib

variable {α β γ : Type*} {f : α → Option β}

/-- No element with a question stands behind one without. -/
def AskedFirst (f : α → Option β) (xs : List α) : Prop := xs.Pairwise fun a b => (f b).isSome → (f a).isSome

instance (f : α → Option β) (xs : List α) : Decidable (AskedFirst f xs) :=
  inferInstanceAs (Decidable (List.Pairwise _ _))

theorem askedFirst_cons_some {x : α} {xs : List α} {b : β} (h : f x = some b) :
    AskedFirst f (x :: xs) ↔ AskedFirst f xs := by
  simp [AskedFirst, h]

theorem askedFirst_cons_none {x : α} {xs : List α} (h : f x = none) :
    AskedFirst f (x :: xs) ↔ xs.filterMap f = [] := by
  rw [AskedFirst, List.pairwise_cons, List.filterMap_eq_nil_iff]
  constructor
  · rintro ⟨hx, -⟩ y hy
    by_contra hne
    have := hx y hy (Option.ne_none_iff_isSome.mp hne)
    rw [h] at this
    cases this
  · intro hnone
    refine ⟨fun y hy hsome => ?_, List.pairwise_of_forall_mem_list fun y _ z hz hsome => ?_⟩
    · rw [hnone y hy] at hsome
      cases hsome
    · rw [hnone z hz] at hsome
      cases hsome

/-- Each answer stands beside its own element. -/
theorem of_mem_zip_filterMap {R : β → γ → Prop} {xs : List α} {ys : List γ} (hfirst : AskedFirst f xs)
    (h : List.Forall₂ R (xs.filterMap f) ys) {p : α × γ} (hp : p ∈ xs.zip ys) : ∃ b, f p.1 = some b ∧ R b p.2 := by
  induction xs generalizing ys with
  | nil => cases hp
  | cons x xs ih =>
    cases hx : f x with
    | none =>
      rw [List.filterMap_cons_none hx, (askedFirst_cons_none hx).mp hfirst] at h
      cases h
      cases hp
    | some b =>
      rw [List.filterMap_cons_some hx] at h
      obtain ⟨y, ys, hb, hrest, rfl⟩ := List.forall₂_cons_left_iff.mp h
      rcases List.mem_cons.mp hp with rfl | hp
      · exact ⟨b, hx, hb⟩
      · exact ih ((askedFirst_cons_some hx).mp hfirst) hrest hp

theorem mem_fst_zip_filterMap {R : β → γ → Prop} {xs : List α} {ys : List γ} (hfirst : AskedFirst f xs)
    (h : List.Forall₂ R (xs.filterMap f) ys) {x : α} (hx : x ∈ xs) (hsome : (f x).isSome) :
    x ∈ (xs.zip ys).map (·.1) := by
  induction xs generalizing ys with
  | nil => cases hx
  | cons a xs ih =>
    cases ha : f a with
    | none =>
      have hnone := (askedFirst_cons_none ha).mp hfirst
      rcases List.mem_cons.mp hx with rfl | hx
      · rw [ha] at hsome
        cases hsome
      · rw [List.filterMap_eq_nil_iff.mp hnone x hx] at hsome
        cases hsome
    | some b =>
      rw [List.filterMap_cons_some ha] at h
      obtain ⟨y, ys, -, hrest, rfl⟩ := List.forall₂_cons_left_iff.mp h
      rcases List.mem_cons.mp hx with rfl | hx
      · exact List.mem_cons_self
      · exact List.mem_cons_of_mem _ (ih ((askedFirst_cons_some ha).mp hfirst) hrest hx)

/-- An answer beside an element without a question is the only thing that can go wrong. -/
theorem zip_filterMap_iff {xs : List α} {ys : List γ} (h : ys.length = (xs.filterMap f).length) :
    (∀ p ∈ xs.zip ys, (f p.1).isSome) ↔ AskedFirst f xs := by
  induction xs generalizing ys with
  | nil => simp [AskedFirst]
  | cons x xs ih =>
    cases hx : f x with
    | none =>
      rw [List.filterMap_cons_none hx] at h
      rw [askedFirst_cons_none hx, ← List.length_eq_zero_iff, ← h]
      cases ys with
      | nil => simp
      | cons y ys => simp [hx]
    | some b =>
      rw [List.filterMap_cons_some hx] at h
      rw [askedFirst_cons_some hx]
      cases ys with
      | nil => cases h
      | cons y ys =>
        rw [← ih (Nat.succ.inj h)]
        simp [hx]

end PredictorService.Lib
