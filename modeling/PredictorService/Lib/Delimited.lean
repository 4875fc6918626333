/-
  PredictorService.Lib.Delimited — fields written one after the other with a delimiter
  between them.

  Splitting the text gives the pieces of each field in turn (`splitOn_intercalate_flatMap`),
  so a delimiter inside a field is not told from one between two. Two rows of as many fields
  are one exactly when their texts are one and each field has as many delimiters inside
  (`eq_iff_intercalate_eq`).
-/

import Mathlib.Data.List.Basic

namespace PredictorService.Lib

variable {α : Type*} [DecidableEq α] {x : α}

theorem splitOn_intercalate_flatMap {fields : List (List α)} (hne : fields ≠ []) :
    ([x].intercalate fields).splitOn x = fields.flatMap (·.splitOn x) := by
  induction fields with
  | nil => exact absurd rfl hne
  | cons field fields ih =>
    cases fields with
    | nil => simp
    | cons next rest =>
      rw [List.intercalate_cons_cons, List.append_assoc, List.singleton_append, List.splitOn_append_cons_self,
        ih (List.cons_ne_nil _ _)]
      rfl

theorem length_splitOn (l : List α) : (l.splitOn x).length = l.count x + 1 := by
  induction l with
  | nil => simp
  | cons a l ih =>
    rw [List.splitOn_cons_eq_if_modifyHead, List.count_cons]
    split
    · rw [List.length_cons, ih]
    · rw [List.length_modifyHead, ih, Nat.add_zero]

theorem splitOn_injective : Function.Injective fun l : List α => l.splitOn x := by
  intro l l' h
  calc l = [x].intercalate (l.splitOn x) := (List.intercalate_splitOn x).symm
    _ = [x].intercalate (l'.splitOn x) := congrArg _ h
    _ = l' := List.intercalate_splitOn x

theorem eq_iff_intercalate_eq {fields fields' : List (List α)} (hlen : fields.length = fields'.length) :
    fields = fields' ↔ [x].intercalate fields = [x].intercalate fields' ∧
      fields.map (·.count x) = fields'.map (·.count x) := by
  refine ⟨fun h => h ▸ ⟨rfl, rfl⟩, fun ⟨htext, hcount⟩ => ?_⟩
  by_cases hne : fields = []
  · subst hne
    exact (List.eq_nil_of_length_eq_zero hlen.symm).symm
  have hne' : fields' ≠ [] := fun h0 => hne (List.eq_nil_of_length_eq_zero (by rw [hlen, h0]; rfl))
  have hpieces : fields.flatMap (·.splitOn x) = fields'.flatMap (·.splitOn x) := by
    rw [← splitOn_intercalate_flatMap hne, ← splitOn_intercalate_flatMap hne', htext]
  refine splitOn_injective.list_map (List.eq_iff_flatten_eq.mpr ⟨hpieces, ?_⟩)
  simp only [List.map_map, Function.comp_def, length_splitOn]
  have := congrArg (List.map (· + 1)) hcount
  simpa only [List.map_map, Function.comp_def] using this

end PredictorService.Lib
