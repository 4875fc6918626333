/-
  PredictorService.Lib.Windows — consecutive elements of a list.

  `window l i m` is the `m` elements from position `i` on. A schedule is fair over a list of
  `n` targets when each window of `n` has every target once (`count_window_mul` takes this
  to windows of `k * n`), and a window of `n` has every target once iff neither the targets
  nor the window repeat anything (`forall_count_eq_one_iff`).
-/

import Mathlib.Data.List.Nodup
import Mathlib.Data.List.Perm.Subperm

namespace PredictorService.Lib

variable {α β : Type*}

def window (l : List α) (i m : Nat) : List α := (l.drop i).take m

theorem window_map (f : α → β) (l : List α) (i m : Nat) : window (l.map f) i m = (window l i m).map f := by
  simp only [window, List.map_drop, List.map_take]

theorem length_window {l : List α} {i m : Nat} (h : i + m ≤ l.length) : (window l i m).length = m := by
  rw [window, List.length_take, List.length_drop]
  omega

theorem window_add (l : List α) (i m m' : Nat) : window l i (m + m') = window l i m ++ window l (i + m) m' := by
  rw [window, List.take_add, List.drop_drop]
  rfl

variable [BEq α]

/-- What each window of `n` has once, a window of `k * n` has `k` times. -/
theorem count_window_mul {l : List α} {n : Nat} {a : α}
    (h : ∀ i, i + n ≤ l.length → (window l i n).count a = 1) (k : Nat) {i : Nat} (hi : i + k * n ≤ l.length) :
    (window l i (k * n)).count a = k := by
  induction k with
  | zero =>
    rw [Nat.zero_mul]
    rfl
  | succ k ih =>
    rw [Nat.succ_mul] at hi
    rw [Nat.succ_mul, window_add, List.count_append, ih (by omega), h _ (by omega)]

variable [LawfulBEq α]

/-- A list of as many elements as there are targets, all of them targets. -/
theorem forall_count_eq_one_iff {targets l : List α} (hlen : l.length = targets.length) (hsub : l ⊆ targets) :
    (∀ a ∈ targets, l.count a = 1) ↔ targets.Nodup ∧ l.Nodup := by
  have hperm : l.Nodup → l.Perm targets := fun h => (h.subperm hsub).perm_of_length_le (Nat.le_of_eq hlen.symm)
  constructor
  · intro h
    have hl : l.Nodup := by
      rw [List.nodup_iff_count_le_one]
      intro a
      by_cases ha : a ∈ l
      · exact Nat.le_of_eq (h a (hsub ha))
      · rw [List.count_eq_zero_of_not_mem ha]
        exact Nat.zero_le 1
    exact ⟨(hperm hl).nodup_iff.mp hl, hl⟩
  · intro h a ha
    rw [(hperm h.2).count_eq, List.count_eq_one_of_mem h.1 ha]

end PredictorService.Lib
