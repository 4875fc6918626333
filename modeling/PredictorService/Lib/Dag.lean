/-
  PredictorService.Lib.Dag — graphs given by the list of what each node needs.

  A list is `Covered` when everything that a node of it needs comes later in it; that is kept
  by putting lists together and by removing duplicates, all but the last.

  `Expands needs x l` derives the list of all that `x` needs: each of its own needs followed
  by the list of that one, without duplicates. Such a list is unique, has what `x` depends on
  and nothing else, and is covered (`Expands.unique`, `Expands.mem_iff`, `Expands.covered`).
  There is one exactly where nothing that is needed leads round in a circle
  (`exists_expands_iff`, `acc_iff_acyclic`).
-/

import Mathlib.Data.List.Dedup
import Mathlib.Data.Fintype.EquivFin
import Mathlib.Data.Fintype.Sets
import Mathlib.Logic.Relation
import Mathlib.Order.WellFounded

namespace PredictorService.Lib.Dag

variable {α : Type*}

/-- `x` needs `y` itself. -/
def Needs (needs : α → List α) (x y : α) : Prop := y ∈ needs x

/-- `x` needs `y`, or something that does. -/
abbrev DependsOn (needs : α → List α) : α → α → Prop := Relation.TransGen (Needs needs)

variable {needs : α → List α} {x y : α} {l l' : List α}

theorem dependsOn_cases : DependsOn needs x y ↔ ∃ d ∈ needs x, d = y ∨ DependsOn needs d y := by
  rw [DependsOn, Relation.TransGen.head'_iff]
  simp only [Relation.reflTransGen_iff_eq_or_transGen, Needs, eq_comm]

/-! ## Covered lists -/

variable (needs) in
/-- What a node of the list needs comes later. -/
def Covered : List α → Prop
  | [] => True
  | x :: l => (∀ d ∈ needs x, d ∈ l) ∧ Covered l

theorem Covered.append (h : Covered needs l) (h' : Covered needs l') : Covered needs (l ++ l') := by
  induction l with
  | nil => exact h'
  | cons x l ih => exact ⟨fun d hd => List.mem_append_left _ (h.1 d hd), ih h.2⟩

theorem Covered.of_append (h : Covered needs (l ++ l')) : Covered needs l' := by
  induction l with
  | nil => exact h
  | cons x l ih => exact ih h.2

theorem Covered.mem_of_needs (h : Covered needs l) (hx : x ∈ l) (hy : y ∈ needs x) : y ∈ l := by
  obtain ⟨a, b, rfl⟩ := List.append_of_mem hx
  exact List.mem_append_right _ (List.mem_cons_of_mem _ (h.of_append.1 y hy))

theorem Covered.mem_of_dependsOn (h : Covered needs l) (hx : x ∈ l) (hy : DependsOn needs x y) : y ∈ l := by
  induction hy with
  | single hy => exact h.mem_of_needs hx hy
  | tail _ hy ih => exact h.mem_of_needs ih hy

theorem Covered.dedup [DecidableEq α] (h : Covered needs l) : Covered needs l.dedup := by
  induction l with
  | nil => exact h
  | cons x l ih =>
    by_cases hx : x ∈ l
    · rw [List.dedup_cons_of_mem hx]
      exact ih h.2
    · rw [List.dedup_cons_of_notMem hx]
      exact ⟨fun d hd => List.mem_dedup.mpr (h.1 d hd), ih h.2⟩

/-! ## Expanded lists -/

section Expands

variable [DecidableEq α]

/-- One node's needs and the lists of these, without duplicates. -/
def expansion (needs : List α) (lists : α → List α) : List α := (needs.flatMap fun d => d :: lists d).dedup

variable (needs) in
inductive Expands : α → List α → Prop
  | mk (x : α) (lists : α → List α) (h : ∀ d ∈ needs x, Expands d (lists d)) :
      Expands x (expansion (needs x) lists)

theorem expansion_congr {ds : List α} {lists lists' : α → List α} (h : ∀ d ∈ ds, lists d = lists' d) :
    expansion ds lists = expansion ds lists' := by
  unfold expansion
  congr 1
  rw [List.flatMap_def, List.flatMap_def]
  congr 1
  exact List.map_congr_left fun d hd => by rw [h d hd]

theorem Expands.unique (h : Expands needs x l) (h' : Expands needs x l') : l = l' := by
  induction h generalizing l' with
  | mk x lists _ ih =>
    cases h' with
    | mk _ lists' h' => exact expansion_congr fun d hd => ih d hd (h' d hd)

theorem Expands.nodup (h : Expands needs x l) : l.Nodup := by
  obtain ⟨-, lists, -⟩ := h
  exact List.nodup_dedup _

theorem Expands.mem_iff (h : Expands needs x l) : y ∈ l ↔ DependsOn needs x y := by
  induction h with
  | mk x lists _ ih =>
    rw [expansion, List.mem_dedup, List.mem_flatMap, dependsOn_cases]
    refine exists_congr fun d => and_congr_right fun hd => ?_
    rw [List.mem_cons, ih d hd, eq_comm]

theorem Expands.covered (h : Expands needs x l) : Covered needs l := by
  induction h with
  | mk x lists h ih =>
    refine Covered.dedup ?_
    have hall : ∀ ds : List α, (∀ d ∈ ds, Expands needs d (lists d) ∧ Covered needs (lists d)) →
        Covered needs (ds.flatMap fun d => d :: lists d) := by
      intro ds hds
      induction ds with
      | nil => trivial
      | cons d ds ihds =>
        obtain ⟨hd, hcovered⟩ := hds d List.mem_cons_self
        rw [List.flatMap_cons]
        refine Covered.append ⟨fun e he => ?_, hcovered⟩ (ihds fun e he => hds e (List.mem_cons_of_mem _ he))
        exact hd.mem_iff.mpr (.single he)
    exact hall _ fun d hd => ⟨h d hd, ih d hd⟩

/-! ## Circles -/

/-- Everything that is reached by way of needs is founded. -/
abbrev Founded (needs : α → List α) (x : α) : Prop := Acc (fun d x => d ∈ needs x) x

theorem exists_expands_iff : (∃ l, Expands needs x l) ↔ Founded needs x := by
  constructor
  · rintro ⟨l, h⟩
    induction h with
    | mk x lists _ ih => exact Acc.intro x fun d hd => ih d hd
  · intro h
    induction h with
    | intro x _ ih =>
      -- a list for each of the needs, and any for the rest
      have hlists : ∀ d, ∃ l, d ∈ needs x → Expands needs d l := by
        intro d
        by_cases hd : d ∈ needs x
        · obtain ⟨l, hl⟩ := ih d hd
          exact ⟨l, fun _ => hl⟩
        · exact ⟨[], fun hd' => absurd hd' hd⟩
      choose lists hlists using hlists
      exact ⟨_, Expands.mk x lists hlists⟩

end Expands

theorem Founded.irrefl (h : Founded needs x) : ¬ DependsOn needs x x := by
  induction h with
  | intro x _ ih =>
    intro hx
    obtain ⟨d, hd, rfl | hcircle⟩ := dependsOn_cases.mp hx
    · exact ih d hd hx
    · exact ih d hd (hcircle.tail hd)

/-- In a finite graph a node is founded where no circle is reached. -/
theorem founded_of_acyclic {nodes : Finset α} (hclosed : ∀ x ∈ nodes, ∀ d ∈ needs x, d ∈ nodes)
    (hacyclic : ∀ x ∈ nodes, ¬ DependsOn needs x x) : ∀ x ∈ nodes, Founded needs x := by
  have hwf : WellFounded fun a b : nodes => DependsOn needs b a :=
    have : IsTrans nodes fun a b => DependsOn needs b a := ⟨fun a b c hab hbc => hbc.trans hab⟩
    have : Std.Irrefl fun a b : nodes => DependsOn needs b a := ⟨fun a => hacyclic a a.2⟩
    Finite.wellFounded_of_trans_of_irrefl _
  have hall : ∀ x : nodes, Founded needs x := by
    intro x
    induction x using hwf.induction with
    | _ x ih => exact Acc.intro _ fun d hd => ih ⟨d, hclosed x x.2 d hd⟩ (.single hd)
  exact fun x hx => hall ⟨x, hx⟩

/-- Among nodes that are founded there is one that needs none of them. -/
theorem exists_ready {rest : Set α} (hx : x ∈ rest) (h : Founded needs x) : ∃ y ∈ rest, ∀ d ∈ needs y, d ∉ rest := by
  induction h with
  | intro x _ ih =>
    by_cases hd : ∃ d ∈ needs x, d ∈ rest
    · obtain ⟨d, hd, hrest⟩ := hd
      exact ih d hd hrest
    · exact ⟨x, hx, fun d hd' hrest => hd ⟨d, hd', hrest⟩⟩

end PredictorService.Lib.Dag
