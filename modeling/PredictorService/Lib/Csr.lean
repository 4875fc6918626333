/-
  PredictorService.Lib.Csr — rows laid one after the other in one list.

  `offsets` says where each row begins, and after the last one where it ends. What stands
  between two of them is the row again (`slice_offsets`).
-/

import Mathlib.Algebra.BigOperators.Group.List.Lemmas

namespace PredictorService.Lib.Csr

variable {α : Type*}

def offsets (rows : List (List α)) : List ℕ := rows.scanl (fun start row => start + row.length) 0

/-- The elements from `start` up to `stop`. -/
def slice (data : List α) (start stop : ℕ) : List α := (data.take stop).drop start

variable (rows : List (List α))

theorem length_offsets : (offsets rows).length = rows.length + 1 := List.length_scanl

theorem foldl_length (start : ℕ) : rows.foldl (fun start row => start + row.length) start = start + rows.flatten.length := by
  induction rows generalizing start with
  | nil => rfl
  | cons row rows ih => rw [List.foldl_cons, ih, List.flatten_cons, List.length_append, Nat.add_assoc]

theorem getElem?_offsets {i : ℕ} (hi : i ≤ rows.length) :
    (offsets rows)[i]? = some (rows.take i).flatten.length := by
  rw [offsets, List.getElem?_scanl, if_pos hi, foldl_length, Nat.zero_add]

theorem head?_offsets : (offsets rows).head? = some 0 := List.head?_scanl

theorem getLast?_offsets : (offsets rows).getLast? = some rows.flatten.length := by
  rw [offsets, List.getLast?_scanl, foldl_length, Nat.zero_add]

/-- From any start on, the offsets only grow. -/
theorem le_of_mem_scanl (start : ℕ) : ∀ o ∈ rows.scanl (fun start row => start + row.length) start, start ≤ o := by
  induction rows generalizing start with
  | nil => simp
  | cons row rows ih =>
    intro o ho
    rw [List.scanl_cons] at ho
    rcases List.mem_cons.mp ho with rfl | ho
    · exact Nat.le_refl _
    · exact Nat.le_trans (Nat.le_add_right _ _) (ih _ o ho)

theorem pairwise_scanl (start : ℕ) : (rows.scanl (fun start row => start + row.length) start).Pairwise (· ≤ ·) := by
  induction rows generalizing start with
  | nil => simp
  | cons row rows ih =>
    rw [List.scanl_cons]
    exact List.pairwise_cons.mpr
      ⟨fun o ho => Nat.le_trans (Nat.le_add_right _ _) (le_of_mem_scanl rows _ o ho), ih _⟩

theorem pairwise_offsets : (offsets rows).Pairwise (· ≤ ·) := pairwise_scanl rows 0

theorem slice_offsets {i start stop : ℕ} (hi : i < rows.length) (hstart : (offsets rows)[i]? = some start)
    (hstop : (offsets rows)[i + 1]? = some stop) : slice rows.flatten start stop = rows[i] := by
  rw [getElem?_offsets rows (Nat.le_of_lt hi), Option.some_inj] at hstart
  rw [getElem?_offsets rows hi, Option.some_inj] at hstop
  rw [slice, ← hstart, ← hstop, List.length_flatten, List.length_flatten, List.map_take, List.map_take]
  exact List.drop_take_succ_flatten_eq_getElem rows i hi

end PredictorService.Lib.Csr
