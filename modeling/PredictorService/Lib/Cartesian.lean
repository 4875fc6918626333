/-
  PredictorService.Lib.Cartesian — the cartesian product of a list of lists, in
  lexicographic order.

  `cartesian` is what nested loops go through, the innermost over the last list. The lists
  may have equal elements, so its order is that of the positions that the elements were
  taken from: `LexProduct` says that some tuples are, one for each tuple of positions, the
  elements there, and that the positions grow. `lexProduct_cartesian` is the rule.
-/

import Mathlib.Data.List.Forall2
import Mathlib.Data.List.Pairwise
import Mathlib.Data.List.Range

namespace PredictorService.Lib

variable {α β : Type*}

def cartesian : List (List α) → List (List α)
  | [] => [[]]
  | l :: ls => l.flatMap fun a => (cartesian ls).map (a :: ·)

theorem mem_cartesian {ls : List (List α)} {t : List α} : t ∈ cartesian ls ↔ List.Forall₂ (· ∈ ·) t ls := by
  induction ls generalizing t with
  | nil => simp [cartesian, List.forall₂_nil_right_iff]
  | cons l ls ih =>
    simp only [cartesian, List.mem_flatMap, List.mem_map, ih, List.forall₂_cons_right_iff]
    constructor
    · intro h
      obtain ⟨a, ha, t, ht, rfl⟩ := h
      exact ⟨a, t, ha, ht, rfl⟩
    · intro h
      obtain ⟨a, t, ha, ht, rfl⟩ := h
      exact ⟨a, ha, t, ht, rfl⟩

/-- An empty list leaves no tuple, and nothing else does. -/
theorem cartesian_eq_nil_iff {ls : List (List α)} : cartesian ls = [] ↔ [] ∈ ls := by
  induction ls with
  | nil => simp [cartesian]
  | cons l ls ih =>
    rw [List.mem_cons, ← ih, cartesian]
    constructor
    · intro h
      by_contra hne
      rw [not_or] at hne
      obtain ⟨a, ha⟩ := List.exists_mem_of_ne_nil l (Ne.symm hne.1)
      have hempty := List.flatMap_eq_nil_iff.mp h a ha
      exact hne.2 (List.map_eq_nil_iff.mp hempty)
    · rintro (rfl | h)
      · rfl
      · rw [h]
        exact List.flatMap_eq_nil_iff.mpr fun _ _ => rfl

/-- A loop that extends what each round has so far goes through the product. -/
theorem foldl_cartesian {γ : Type*} (f : γ → α → γ) (init : γ) (l : List α) (ls : List (List α)) :
    (cartesian (l :: ls)).map (List.foldl f init) =
      l.flatMap fun a => (cartesian ls).map (List.foldl f (f init a)) := by
  simp [cartesian, List.map_flatMap, Function.comp_def]

theorem pairwise_cartesian {r : α → α → Prop} {ls : List (List α)} (h : ∀ l ∈ ls, l.Pairwise r) :
    (cartesian ls).Pairwise (List.Lex r) := by
  induction ls with
  | nil => exact List.pairwise_singleton _ _
  | cons l ls ih =>
    obtain ⟨hl, hls⟩ := List.forall_mem_cons.mp h
    rw [cartesian, List.pairwise_flatMap]
    constructor
    · intro a _
      exact List.pairwise_map.mpr ((ih hls).imp .cons)
    · refine hl.imp fun hr s hs t ht => ?_
      obtain ⟨s, -, rfl⟩ := List.mem_map.mp hs
      obtain ⟨t, -, rfl⟩ := List.mem_map.mp ht
      exact .rel hr

/-- `tuples` are the elements at the tuples of positions, in lexicographic order. -/
def LexProduct (ls : List (List α)) (tuples : List (List α)) : Prop :=
  ∃ positions : List (List ℕ), positions.Pairwise (List.Lex (· < ·)) ∧
    (∀ p, p ∈ positions ↔ List.Forall₂ (fun i l => i < l.length) p ls) ∧
    List.Forall₂ (fun p t => List.zipWith (fun i l => l[i]?) p ls = t.map some) positions tuples

theorem lexProduct_cartesian (ls : List (List α)) : LexProduct ls (cartesian ls) := by
  refine ⟨cartesian (ls.map fun l => List.range l.length), ?_, fun p => ?_, ?_⟩
  · refine pairwise_cartesian fun l hl => ?_
    obtain ⟨l, -, rfl⟩ := List.mem_map.mp hl
    exact List.pairwise_lt_range
  · simp only [mem_cartesian, List.forall₂_map_right_iff, List.mem_range]
  · induction ls with
    | nil => exact .cons rfl .nil
    | cons l ls ih =>
      have hat : List.Forall₂ (fun i a => l[i]? = some a) (List.range l.length) l := by
        refine List.forall₂_iff_get.mpr ⟨List.length_range, fun i hi hi' => ?_⟩
        simp
      refine List.rel_flatMap hat fun i a ha => List.rel_map (fun p t ht => ?_) ih
      rw [List.zipWith_cons_cons, List.map_cons, ha, ht]

end PredictorService.Lib
