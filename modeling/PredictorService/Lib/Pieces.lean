/-
  PredictorService.Lib.Pieces — pieces of a text with separators between them.

  A word without the separator stands in the text iff it stands in a piece
  (`infix_append_cons_iff`). What is trimmed off a piece are the letters around it
  (`trimBy_around`), and the last separator is found whatever stands before it
  (`splitLast_append_cons`).
-/

import Mathlib.Data.List.DropRight

namespace PredictorService.Lib

variable {α : Type*}

/-! ## Words -/

section Words

variable {x : α} {word before after : List α}

/-- A word does not reach beyond a letter that it does not have. -/
theorem prefix_append_cons (hx : x ∉ word) (h : word <+: before ++ x :: after) : word <+: before := by
  induction before generalizing word with
  | nil =>
    cases word with
    | nil => exact List.nil_prefix
    | cons c word =>
      obtain ⟨rfl, -⟩ := List.cons_prefix_cons.mp h
      exact absurd List.mem_cons_self hx
  | cons b before ih =>
    cases word with
    | nil => exact List.nil_prefix
    | cons c word =>
      rw [List.cons_append] at h
      obtain ⟨hc, hrest⟩ := List.cons_prefix_cons.mp h
      exact List.cons_prefix_cons.mpr ⟨hc, ih (List.not_mem_of_not_mem_cons hx) hrest⟩

theorem infix_append_cons_iff (hx : x ∉ word) (hne : word ≠ []) :
    word <:+: before ++ x :: after ↔ word <:+: before ∨ word <:+: after := by
  induction before with
  | nil =>
    rw [List.nil_append, List.infix_cons_iff, List.infix_nil]
    refine or_congr_left ⟨fun h => ?_, fun h => absurd h hne⟩
    have hnil : word <+: [] := prefix_append_cons hx h
    exact List.prefix_nil.mp hnil
  | cons b before ih =>
    rw [List.cons_append, List.infix_cons_iff, ih, List.infix_cons_iff, or_assoc]
    refine or_congr_left ⟨fun h => ?_, fun h => ?_⟩
    · rw [← List.cons_append] at h
      exact prefix_append_cons hx h
    · exact h.trans (List.prefix_append (b :: before) _)

end Words

/-! ## Trimming -/

section Trim

variable {p : α → Bool} {a b s : List α}

/-- The list without the elements at its ends that have the property. -/
def trimBy (p : α → Bool) (s : List α) : List α := (s.dropWhile p).rdropWhile p

theorem dropWhile_append_of_all (ha : ∀ c ∈ a, p c = true) : (a ++ s).dropWhile p = s.dropWhile p := by
  induction a with
  | nil => rfl
  | cons c a ih =>
    rw [List.cons_append, List.dropWhile_cons_of_pos (ha c List.mem_cons_self)]
    exact ih fun c' hc' => ha c' (List.mem_cons_of_mem _ hc')

theorem rdropWhile_append_of_all (hb : ∀ c ∈ b, p c = true) : (s ++ b).rdropWhile p = s.rdropWhile p := by
  rw [List.rdropWhile, List.reverse_append, dropWhile_append_of_all (by simpa using hb), List.rdropWhile]

/-- Neither end has the property. -/
def Ends (p : α → Bool) (s : List α) : Prop := ∀ c, s.head? = some c ∨ s.getLast? = some c → p c = false

theorem Ends.of_forall (h : ∀ c ∈ s, p c = false) : Ends p s := by
  intro c hc
  rcases hc with hc | hc
  · exact h c (List.mem_of_mem_head? hc)
  · exact h c (List.mem_of_getLast? hc)

theorem Ends.between {c d : α} (hc : p c = false) (hd : p d = false) (s : List α) : Ends p (c :: s ++ [d]) := by
  intro x hx
  rcases hx with hx | hx
  · obtain rfl : c = x := by simpa using hx
    exact hc
  · rw [List.getLast?_append_of_ne_nil _ (List.cons_ne_nil _ _)] at hx
    obtain rfl : d = x := by simpa using hx
    exact hd

theorem trimBy_of_ends (h : Ends p s) : trimBy p s = s := by
  have hhead : s.dropWhile p = s := by
    cases s with
    | nil => rfl
    | cons c s => rw [List.dropWhile_cons_of_neg (by simp [h c (.inl rfl)])]
  rw [trimBy, hhead, List.rdropWhile_eq_self_iff]
  intro hne
  simp [h _ (.inr (List.getLast?_eq_some_getLast hne))]

theorem trimBy_append_left (ha : ∀ c ∈ a, p c = true) : trimBy p (a ++ s) = trimBy p s := by
  rw [trimBy, dropWhile_append_of_all ha, trimBy]

/-- What stands around a piece is taken off. -/
theorem trimBy_around (ha : ∀ c ∈ a, p c = true) (hb : ∀ c ∈ b, p c = true) (h : Ends p s) :
    trimBy p (a ++ s ++ b) = s := by
  rw [List.append_assoc, trimBy_append_left ha]
  cases s with
  | nil =>
    rw [List.nil_append, trimBy, List.dropWhile_eq_nil_iff.mpr hb]
    rfl
  | cons c s =>
    have hc : ¬ p c = true := by simp [h c (.inl rfl)]
    rw [trimBy, List.cons_append, List.dropWhile_cons_of_neg hc, ← List.cons_append, rdropWhile_append_of_all hb]
    have htrim := trimBy_of_ends h
    rwa [trimBy, List.dropWhile_cons_of_neg hc] at htrim

end Trim

/-! ## The last separator -/

section Last

variable [DecidableEq α] {x : α} {before after : List α}

/-- The parts before and after the last `x`. -/
def splitLast (x : α) : List α → Option (List α × List α)
  | [] => none
  | c :: s =>
    match splitLast x s with
    | some (before, after) => some (c :: before, after)
    | none => if c = x then some ([], s) else none

theorem splitLast_eq_none (h : x ∉ after) : splitLast x after = none := by
  induction after with
  | nil => rfl
  | cons c s ih =>
    rw [List.mem_cons, not_or] at h
    obtain ⟨hc, hs⟩ := h
    rw [splitLast, ih hs]
    exact if_neg (Ne.symm hc)

theorem splitLast_append_cons (h : x ∉ after) : splitLast x (before ++ x :: after) = some (before, after) := by
  induction before with
  | nil =>
    rw [List.nil_append, splitLast, splitLast_eq_none h]
    exact if_pos rfl
  | cons c before ih => rw [List.cons_append, splitLast, ih]

end Last

end PredictorService.Lib
