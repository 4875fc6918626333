/-
  PredictorService.Lib.Writes — loops that write a list, element by element.

  A loop that writes some values from a position on leaves what stands before and behind
  them (`foldl_set_zipIdx`), and so does one that writes one value over and over
  (`foldl_set_range'`). One that reads each time what it wrote before makes a scan
  (`foldl_set_scanl`). `padded` is what a buffer of a given length holds after values were
  copied into it and the rest was filled.
-/

import Mathlib.Data.List.Basic

namespace PredictorService.Lib

variable {α : Type*}

theorem foldl_set_zipIdx (row vs : List α) (k : ℕ) (h : k + vs.length ≤ row.length) :
    (vs.zipIdx k).foldl (fun row v => row.set v.2 v.1) row = row.take k ++ vs ++ row.drop (k + vs.length) := by
  induction vs generalizing k row with
  | nil => simp
  | cons v vs ih =>
    rw [List.length_cons] at h
    have hk : k < row.length := by omega
    have hwritten : (row.set k v).take (k + 1) = row.take k ++ [v] := by
      rw [List.take_add_one, List.take_set, List.set_eq_of_length_le (List.length_take_le k row)]
      simp [hk]
    rw [List.zipIdx_cons, List.foldl_cons, ih _ _ (by rw [List.length_set]; omega), hwritten,
      List.drop_set_of_lt (by omega), List.length_cons, show k + 1 + vs.length = k + (vs.length + 1) by omega]
    simp

/-- The loop that writes one value. -/
theorem foldl_set_range' {row : List α} {k n : ℕ} (v : α) (h : k + n ≤ row.length) :
    (List.range' k n).foldl (fun row index => row.set index v) row =
      row.take k ++ List.replicate n v ++ row.drop (k + n) := by
  have hzip : (List.replicate n v).zipIdx k = (List.range' k n).map fun index => (v, index) := by
    rw [List.zipIdx_eq_zip_range', List.length_replicate]
    refine List.ext_getElem (by simp) fun i hi hi' => ?_
    simp
  have hwrite := foldl_set_zipIdx row (List.replicate n v) k (by simpa using h)
  rw [hzip, List.foldl_map, List.length_replicate] at hwrite
  exact hwrite

/-- The loop that writes behind each place what it makes of that place. -/
theorem foldl_set_scanl {β : Type*} (f : α → β → α) (d : α) (done : List α) (a : α) (rest : List α) (vs : List β)
    (h : rest.length = vs.length) :
    (vs.zipIdx done.length).foldl (fun row v => row.set (v.2 + 1) (f (row.getD v.2 d) v.1)) (done ++ a :: rest) =
      done ++ vs.scanl f a := by
  induction vs generalizing done a rest with
  | nil =>
    cases List.eq_nil_of_length_eq_zero h
    simp
  | cons v vs ih =>
    obtain ⟨r, rest, rfl⟩ := List.exists_cons_of_length_eq_add_one h
    have hread : (done ++ a :: r :: rest).getD done.length d = a := by simp
    have hwritten : (done ++ a :: r :: rest).set (done.length + 1) (f a v) = (done ++ [a]) ++ f a v :: rest := by
      simp
    have hround := ih (done ++ [a]) (f a v) rest (Nat.succ.inj h)
    rw [List.length_append, List.length_singleton] at hround
    rw [List.zipIdx_cons, List.foldl_cons, hread, hwritten, hround, List.scanl_cons, List.append_assoc]
    rfl

/-- The first values, and the default up to the length. -/
def padded (len : ℕ) (values : List α) (defaultVal : α) : List α :=
  values.take len ++ List.replicate (len - values.length) defaultVal

@[simp] theorem length_padded (len : ℕ) (values : List α) (defaultVal : α) :
    (padded len values defaultVal).length = len := by
  rw [padded, List.length_append, List.length_take, List.length_replicate]
  omega

end PredictorService.Lib
