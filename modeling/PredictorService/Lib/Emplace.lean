/-
  PredictorService.Lib.Emplace — rows of `emplace` into an ordered map.

  `std::map::emplace`, and `insert` of a range, keep an entry that is there. So under each
  key the first value of the row stays (`getElem?_emplaceAll`), and a row that has one
  value for each of its keys is the map of its pairs (`emplaceAll_eq_some_iff`).

  `m[k] = v` replaces an entry that is there. A row of such assignments to different keys
  does not depend on its order (`insertAll_perm`), and makes of an empty map the map of its
  pairs (`getElem?_insertAll_empty`).
-/

import Mathlib.Data.List.Nodup
import Mathlib.Data.String.Basic
import Mathlib.Tactic.Linarith.Datatypes

namespace PredictorService.Lib

open Std (ExtTreeMap TransCmp LawfulEqCmp)

variable {κ β : Type*} {cmp : κ → κ → Ordering} [TransCmp cmp]

def emplaceAll (m : ExtTreeMap κ β cmp) (l : List (κ × β)) : ExtTreeMap κ β cmp :=
  l.foldl (fun m p => m.insertIfNew p.1 p.2) m

variable [LawfulEqCmp cmp]

/-- The pairs of a map have one value for each key. -/
theorem functional_toList (m : ExtTreeMap κ β cmp) : ∀ p ∈ m.toList, ∀ q ∈ m.toList, p.1 = q.1 → p.2 = q.2 := by
  intro p hp q hq hkey
  have hp' := ExtTreeMap.mem_toList_iff_getElem?_eq_some.mp hp
  have hq' := ExtTreeMap.mem_toList_iff_getElem?_eq_some.mp hq
  rw [hkey, hq'] at hp'
  exact (Option.some_inj.mp hp').symm

variable [DecidableEq κ]

theorem getElem?_emplaceAll (m : ExtTreeMap κ β cmp) (l : List (κ × β)) (k : κ) :
    (emplaceAll m l)[k]? = m[k]?.or ((l.find? fun p => p.1 = k).map (·.2)) := by
  induction l generalizing m with
  | nil => simp [emplaceAll]
  | cons p l ih =>
    show (emplaceAll (m.insertIfNew p.1 p.2) l)[k]? = _
    rw [ih, ExtTreeMap.getElem?_insertIfNew, List.find?_cons]
    simp only [LawfulEqCmp.compare_eq_iff_eq]
    by_cases hp : p.1 = k
    · subst hp
      by_cases hm : p.1 ∈ m <;> simp [hm]
    · simp [hp]

/-- A key has an entry iff it had one or stands in the row. -/
theorem mem_emplaceAll {m : ExtTreeMap κ β cmp} {l : List (κ × β)} {k : κ} :
    k ∈ emplaceAll m l ↔ k ∈ m ∨ k ∈ l.map (·.1) := by
  rw [ExtTreeMap.mem_iff_isSome_getElem?, getElem?_emplaceAll, ExtTreeMap.mem_iff_isSome_getElem?]
  simp

theorem emplaceAll_eq_some_iff {l : List (κ × β)} (h : ∀ p ∈ l, ∀ q ∈ l, p.1 = q.1 → p.2 = q.2) {k : κ} {v : β} :
    (emplaceAll (∅ : ExtTreeMap κ β cmp) l)[k]? = some v ↔ (k, v) ∈ l := by
  rw [getElem?_emplaceAll]
  constructor
  · intro hk
    simp only [ExtTreeMap.getElem?_empty, Option.none_or, Option.map_eq_some_iff] at hk
    obtain ⟨p, hp, rfl⟩ := hk
    have hkey := List.find?_some hp
    simp only [decide_eq_true_eq] at hkey
    rw [← hkey]
    exact List.mem_of_find?_eq_some hp
  · intro hmem
    cases hf : l.find? fun p : κ × β => p.1 = k with
    | none =>
      have := List.find?_eq_none.mp hf (k, v) hmem
      simp at this
    | some p =>
      have hkey := List.find?_some hf
      simp only [decide_eq_true_eq] at hkey
      simp [h p (List.mem_of_find?_eq_some hf) (k, v) hmem hkey]

/-- `insert` of all pairs of another map. -/
theorem getElem?_emplaceAll_toList (m m' : ExtTreeMap κ β cmp) (k : κ) :
    (emplaceAll m m'.toList)[k]? = m[k]?.or m'[k]? := by
  have hempty : (emplaceAll (∅ : ExtTreeMap κ β cmp) m'.toList)[k]? = m'[k]? := by
    refine Option.ext fun v => ?_
    rw [emplaceAll_eq_some_iff (functional_toList m'), ExtTreeMap.mem_toList_iff_getElem?_eq_some]
  rw [getElem?_emplaceAll, ExtTreeMap.getElem?_empty, Option.none_or] at hempty
  rw [getElem?_emplaceAll, hempty]

/-! ## Assignments -/

def insertAll (m : ExtTreeMap κ β cmp) (l : List (κ × β)) : ExtTreeMap κ β cmp :=
  l.foldl (fun m p => m.insert p.1 p.2) m

theorem insert_comm {m : ExtTreeMap κ β cmp} {p q : κ × β} (h : p.1 = q.1 → p = q) :
    (m.insert p.1 p.2).insert q.1 q.2 = (m.insert q.1 q.2).insert p.1 p.2 := by
  by_cases hkey : p.1 = q.1
  · rw [h hkey]
  · refine ExtTreeMap.ext_getElem? fun k => ?_
    simp only [ExtTreeMap.getElem?_insert, LawfulEqCmp.compare_eq_iff_eq]
    by_cases hp : p.1 = k
    · subst hp
      simp [Ne.symm hkey]
    · simp [hp]

theorem getElem?_insertAll_of_forall {m : ExtTreeMap κ β cmp} {l : List (κ × β)} {k : κ} {v : β}
    (hval : ∀ p ∈ l, p.1 = k → p.2 = v) (hkey : k ∈ l.map (·.1) ∨ m[k]? = some v) : (insertAll m l)[k]? = some v := by
  induction l generalizing m with
  | nil => simpa [insertAll] using hkey
  | cons p l ih =>
    refine ih (fun q hq => hval q (List.mem_cons_of_mem _ hq)) ?_
    simp only [ExtTreeMap.getElem?_insert, LawfulEqCmp.compare_eq_iff_eq]
    by_cases hp : p.1 = k
    · exact .inr (by rw [if_pos hp, hval p List.mem_cons_self hp])
    · simpa [hp, Ne.symm hp] using hkey

theorem mem_of_getElem?_insertAll {m : ExtTreeMap κ β cmp} {l : List (κ × β)} {k : κ} {v : β}
    (h : (insertAll m l)[k]? = some v) : (k, v) ∈ l ∨ m[k]? = some v := by
  induction l generalizing m with
  | nil => exact .inr h
  | cons p l ih =>
    rcases ih (m := m.insert p.1 p.2) h with hmem | hkey
    · exact .inl (List.mem_cons_of_mem _ hmem)
    · rw [ExtTreeMap.getElem?_insert] at hkey
      simp only [LawfulEqCmp.compare_eq_iff_eq] at hkey
      split at hkey
      · rename_i hp
        subst hp
        rw [Option.some_inj] at hkey
        exact .inl (hkey ▸ List.mem_cons_self)
      · exact .inr hkey

/-- Assignments to different keys of an empty map are its entries. -/
theorem getElem?_insertAll_empty {l : List (κ × β)} (hkeys : (l.map (·.1)).Nodup) {k : κ} {v : β} :
    (insertAll (∅ : ExtTreeMap κ β cmp) l)[k]? = some v ↔ (k, v) ∈ l := by
  constructor
  · intro h
    rcases mem_of_getElem?_insertAll h with hmem | hempty
    · exact hmem
    · rw [ExtTreeMap.getElem?_empty] at hempty
      cases hempty
  · intro hmem
    refine getElem?_insertAll_of_forall (fun p hp hkey => ?_) (.inl (List.mem_map.mpr ⟨_, hmem, rfl⟩))
    exact congrArg Prod.snd (List.inj_on_of_nodup_map hkeys hp hmem hkey)

theorem insertAll_perm {l l' : List (κ × β)} (hkeys : (l.map (·.1)).Nodup) (h : l.Perm l')
    (m : ExtTreeMap κ β cmp) : insertAll m l = insertAll m l' := by
  refine h.foldl_eq' ?_ m
  intro p hp q hq m
  exact insert_comm (List.inj_on_of_nodup_map hkeys hp hq)

end PredictorService.Lib
