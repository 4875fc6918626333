/-
  PredictorService.Lib.Worklist — a worklist finds what is reached in a graph.

  A node is taken from `todo`. Is it `done`, it is dropped; otherwise it is done, and what it
  needs goes on the list unless it is done or there. In whichever order the nodes are taken,
  the list is empty after at most `bound` rounds, and then the nodes that are done are those
  that are reached from the seeds (`Worklist.done_iff`, `bound_take`).
-/

import PredictorService.Lib.Dag
import Mathlib.Data.Finset.Card
import Mathlib.Data.Finset.SDiff
import Mathlib.Data.List.Nodup
import Mathlib.Data.Set.Insert

namespace PredictorService.Lib

open PredictorService.Lib.Dag

variable {α : Type*} {needs : α → List α} {seeds todo todo' : List α} {finished : Set α} {x d : α}

/-- Some seed is the node or depends on it. -/
def Reached (needs : α → List α) (seeds : List α) (x : α) : Prop :=
  ∃ s ∈ seeds, Relation.ReflTransGen (Needs needs) s x

theorem Reached.seed (h : x ∈ seeds) : Reached needs seeds x := ⟨x, h, .refl⟩

theorem Reached.next (h : Reached needs seeds x) (hd : d ∈ needs x) : Reached needs seeds d := by
  obtain ⟨s, hs, hpath⟩ := h
  exact ⟨s, hs, hpath.tail hd⟩

structure Worklist (needs : α → List α) (seeds : List α) (finished : Set α) (todo : List α) : Prop where
  finished_reached : ∀ x ∈ finished, Reached needs seeds x
  todo_reached : ∀ x ∈ todo, Reached needs seeds x
  seeds_known : ∀ x ∈ seeds, x ∈ finished ∨ x ∈ todo
  closed : ∀ x ∈ finished, ∀ d ∈ needs x, d ∈ finished ∨ d ∈ todo

namespace Worklist

theorem start : Worklist needs seeds ∅ seeds where
  finished_reached _ hx := hx.elim
  todo_reached _ hx := .seed hx
  seeds_known _ hx := .inr hx
  closed _ hx := hx.elim

/-- A node that is done is dropped. -/
theorem drop (h : Worklist needs seeds finished todo) (hx : x ∈ finished) (hsub : ∀ y ∈ todo', y ∈ todo)
    (hrest : ∀ y ∈ todo, y = x ∨ y ∈ todo') : Worklist needs seeds finished todo' := by
  have hknown : ∀ y, y ∈ finished ∨ y ∈ todo → y ∈ finished ∨ y ∈ todo' := by
    rintro y (hy | hy)
    · exact .inl hy
    · rcases hrest y hy with rfl | hy
      · exact .inl hx
      · exact .inr hy
  exact ⟨h.finished_reached, fun y hy => h.todo_reached y (hsub y hy), fun y hy => hknown y (h.seeds_known y hy),
    fun y hy d hd => hknown d (h.closed y hy d hd)⟩

/-- A node is done, and what it needs is put on the list. -/
theorem take (h : Worklist needs seeds finished todo) (hx : x ∈ todo)
    (hsub : ∀ y ∈ todo', y ∈ todo ∨ y ∈ needs x) (hrest : ∀ y ∈ todo, y = x ∨ y ∈ todo')
    (hdeps : ∀ d ∈ needs x, d ∈ insert x finished ∨ d ∈ todo') :
    Worklist needs seeds (insert x finished) todo' := by
  have hreached := h.todo_reached x hx
  have hknown : ∀ y, y ∈ finished ∨ y ∈ todo → y ∈ insert x finished ∨ y ∈ todo' := by
    rintro y (hy | hy)
    · exact .inl (.inr hy)
    · rcases hrest y hy with rfl | hy
      · exact .inl (.inl rfl)
      · exact .inr hy
  refine ⟨fun y hy => ?_, fun y hy => ?_, fun y hy => hknown y (h.seeds_known y hy), fun y hy d hd => ?_⟩
  · rcases hy with rfl | hy
    · exact hreached
    · exact h.finished_reached y hy
  · rcases hsub y hy with hy | hy
    · exact h.todo_reached y hy
    · exact hreached.next hy
  · rcases hy with rfl | hy
    · exact hdeps d hd
    · exact hknown d (h.closed y hy d hd)

/-- An empty list: everything that is reached is done. -/
theorem done_iff (h : Worklist needs seeds finished []) : x ∈ finished ↔ Reached needs seeds x := by
  have hknown : ∀ y, y ∈ finished ∨ y ∈ ([] : List α) → y ∈ finished := by simp
  constructor
  · exact h.finished_reached x
  · rintro ⟨s, hs, hpath⟩
    induction hpath with
    | refl => exact hknown s (h.seeds_known s hs)
    | tail _ hd ih => exact hknown _ (h.closed _ ih _ hd)

end Worklist

/-! ## The number of rounds -/

variable [DecidableEq α] {all done : Finset α}

/-- Each node of `all` that is not done is worth a whole list. -/
def bound (all done : Finset α) (todo : List α) : Nat := todo.length + (all.card + 1) * (all \ done).card

theorem bound_pos (h : x ∈ todo) : 0 < bound all done todo := by
  have hlength := List.length_pos_of_mem h
  unfold bound
  omega

theorem bound_drop (h : todo'.length < todo.length) : bound all done todo' < bound all done todo :=
  Nat.add_lt_add_right h _

theorem bound_take (h : x ∈ todo) (hx : x ∈ all) (hdone : x ∉ done) (hnd : todo'.Nodup) (hsub : ∀ y ∈ todo', y ∈ all) :
    bound all (insert x done) todo' < bound all done todo := by
  have htodo : todo'.length ≤ all.card := by
    rw [← List.toFinset_card_of_nodup hnd]
    exact Finset.card_le_card fun y hy => hsub y (List.mem_toFinset.mp hy)
  have hless : (all \ insert x done).card + 1 = (all \ done).card := by
    rw [Finset.sdiff_insert]
    exact Finset.card_erase_add_one (Finset.mem_sdiff.mpr ⟨hx, hdone⟩)
  have hlength := List.length_pos_of_mem h
  unfold bound
  rw [← hless, Nat.mul_add, Nat.mul_one]
  omega

end PredictorService.Lib
