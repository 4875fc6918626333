/-
  PredictorService.Lib.Loops — loops over a list that stop at the first failure.

  `mapM` into `Option` or `Except` collects the results of the rounds. It ends exactly with
  the lists that are, element by element, what the rounds give (`mapM_eq_some_iff`,
  `mapM_eq_ok_iff`). A loop with a state whose rounds succeed under a condition ends with the
  state of the loop without failures (`foldlM_eq_ok_iff`).
-/

import Mathlib.Data.List.Forall2

namespace PredictorService.Lib

variable {α β ε : Type}

theorem mapM_eq_some_iff {f : α → Option β} {xs : List α} {ys : List β} :
    xs.mapM f = some ys ↔ List.Forall₂ (fun x y => f x = some y) xs ys := by
  induction xs generalizing ys with
  | nil => simp [List.forall₂_nil_left_iff, eq_comm]
  | cons x xs ih =>
    simp only [List.mapM_cons, Option.bind_eq_bind, Option.bind_eq_some_iff, Option.pure_def, Option.some_inj,
      List.forall₂_cons_left_iff, ih]
    constructor
    · intro h
      obtain ⟨y, hy, ys, hys, rfl⟩ := h
      exact ⟨y, ys, hy, hys, rfl⟩
    · intro h
      obtain ⟨y, ys, hy, hys, rfl⟩ := h
      exact ⟨y, hy, ys, hys, rfl⟩

theorem mapM_eq_none_iff {f : α → Option β} {xs : List α} : xs.mapM f = none ↔ ∃ x ∈ xs, f x = none := by
  induction xs with
  | nil => simp
  | cons x xs ih =>
    rw [List.mapM_cons]
    cases hx : f x with
    | none => simp [hx]
    | some y =>
      cases hxs : xs.mapM f with
      | none => simpa [hx, hxs] using ih.mp hxs
      | some ys =>
        have hnone : ¬∃ x ∈ xs, f x = none := mt ih.mpr (by rw [hxs]; simp)
        simpa [hx] using hnone

theorem isSome_mapM_iff {f : α → Option β} {xs : List α} : (xs.mapM f).isSome ↔ ∀ x ∈ xs, (f x).isSome := by
  rw [← Option.ne_none_iff_isSome, ne_eq, mapM_eq_none_iff]
  simp only [not_exists, not_and, ← ne_eq, Option.ne_none_iff_isSome]

theorem mapM_congr {f g : α → Option β} {xs : List α} (h : ∀ x ∈ xs, f x = g x) : xs.mapM f = xs.mapM g := by
  induction xs with
  | nil => rfl
  | cons x xs ih =>
    rw [List.mapM_cons, List.mapM_cons, h x List.mem_cons_self, ih fun y hy => h y (List.mem_cons_of_mem _ hy)]

theorem bind_eq_ok_iff {x : Except ε α} {f : α → Except ε β} {b : β} :
    (x >>= f) = .ok b ↔ ∃ a, x = .ok a ∧ f a = .ok b := by
  cases x with
  | error e =>
    refine ⟨nofun, fun h => ?_⟩
    obtain ⟨a, ha, -⟩ := h
    cases ha
  | ok a =>
    refine ⟨fun h => ⟨a, rfl, h⟩, fun h => ?_⟩
    obtain ⟨_, ha, h⟩ := h
    cases ha
    exact h

theorem map_eq_ok_iff {x : Except ε α} {f : α → β} {b : β} : x.map f = .ok b ↔ ∃ a, x = .ok a ∧ f a = b := by
  cases x with
  | error e => exact ⟨nofun, fun ⟨_, h, _⟩ => nomatch h⟩
  | ok a =>
    refine ⟨fun h => ⟨a, rfl, Except.ok.inj h⟩, fun h => ?_⟩
    obtain ⟨_, ha, rfl⟩ := h
    cases ha
    rfl

theorem exists_map_eq_ok {x : Except ε α} {f : α → β} (h : ∃ a, x = .ok a) : ∃ b, x.map f = .ok b := by
  obtain ⟨a, rfl⟩ := h
  exact ⟨f a, rfl⟩

theorem mapM_eq_ok_iff {f : α → Except ε β} {xs : List α} {ys : List β} :
    xs.mapM f = .ok ys ↔ List.Forall₂ (fun x y => f x = .ok y) xs ys := by
  induction xs generalizing ys with
  | nil =>
    simp only [List.mapM_nil, List.forall₂_nil_left_iff]
    exact ⟨fun h => (Except.ok.inj h).symm, fun h => congrArg Except.ok h.symm⟩
  | cons x xs ih =>
    simp only [List.mapM_cons, bind_eq_ok_iff, List.forall₂_cons_left_iff, ih]
    constructor
    · intro h
      obtain ⟨y, hy, ys, hys, h⟩ := h
      exact ⟨y, ys, hy, hys, (Except.ok.inj h).symm⟩
    · intro h
      obtain ⟨y, ys, hy, hys, rfl⟩ := h
      exact ⟨y, hy, ys, hys, rfl⟩

/-- Where every round succeeds, the loop does. -/
theorem exists_mapM_eq_ok {f : α → Except ε β} {xs : List α} (h : ∀ x ∈ xs, ∃ y, f x = .ok y) :
    ∃ ys, xs.mapM f = .ok ys := by
  induction xs with
  | nil => exact ⟨[], rfl⟩
  | cons x xs ih =>
    obtain ⟨y, hy⟩ := h x List.mem_cons_self
    obtain ⟨ys, hys⟩ := ih fun x' hx' => h x' (List.mem_cons_of_mem _ hx')
    exact ⟨y :: ys, mapM_eq_ok_iff.mpr (.cons hy (mapM_eq_ok_iff.mp hys))⟩

/-- A loop over steps that succeed under a condition on what they get, while the state keeps `Inv`. -/
theorem foldlM_eq_ok_iff {σ : Type} {Inv : σ → Prop} {Ok : α → Prop} {next : σ → α → σ} {step : σ → α → Except ε σ}
    (hstep : ∀ s a s', Inv s → (step s a = .ok s' ↔ Ok a ∧ s' = next s a))
    (hinv : ∀ s a, Inv s → Ok a → Inv (next s a)) {l : List α} {s s' : σ} (hs : Inv s) :
    l.foldlM step s = .ok s' ↔ (∀ a ∈ l, Ok a) ∧ s' = l.foldl next s := by
  induction l generalizing s with
  | nil =>
    rw [List.foldlM_nil, List.foldl_nil]
    exact ⟨fun h => ⟨nofun, (Except.ok.inj h).symm⟩, fun h => congrArg Except.ok h.2.symm⟩
  | cons a l ih =>
    rw [List.foldlM_cons, bind_eq_ok_iff, List.foldl_cons, List.forall_mem_cons]
    constructor
    · rintro ⟨s₁, hone, h⟩
      obtain ⟨ha, rfl⟩ := (hstep s a s₁ hs).mp hone
      obtain ⟨hl, hs'⟩ := (ih (hinv s a hs ha)).mp h
      exact ⟨⟨ha, hl⟩, hs'⟩
    · rintro ⟨⟨ha, hl⟩, hs'⟩
      exact ⟨next s a, (hstep s a _ hs).mpr ⟨ha, rfl⟩, (ih (hinv s a hs ha)).mpr ⟨hl, hs'⟩⟩

/-- Where every round gives something, the loop ends. -/
theorem exists_mapM_eq_some {f : α → Option β} {R : α → β → Prop} {xs : List α}
    (h : ∀ x ∈ xs, ∃ y, f x = some y ∧ R x y) : ∃ ys, xs.mapM f = some ys ∧ List.Forall₂ R xs ys := by
  induction xs with
  | nil => exact ⟨[], rfl, .nil⟩
  | cons x xs ih =>
    obtain ⟨y, hy, hr⟩ := h x List.mem_cons_self
    obtain ⟨ys, hys, hrs⟩ := ih fun x' hx' => h x' (List.mem_cons_of_mem _ hx')
    exact ⟨y :: ys, by simp [hy, hys], .cons hr hrs⟩

/-! ## Lists that are related element by element -/

variable {R : α → β → Prop} {xs : List α} {ys : List β}

theorem exists_right_of_mem (h : List.Forall₂ R xs ys) {x : α} (hx : x ∈ xs) : ∃ y ∈ ys, R x y := by
  induction h with
  | nil => cases hx
  | cons hr _ ih =>
    rcases List.mem_cons.mp hx with rfl | hx
    · exact ⟨_, List.mem_cons_self, hr⟩
    · obtain ⟨y, hy, hr⟩ := ih hx
      exact ⟨y, List.mem_cons_of_mem _ hy, hr⟩

theorem exists_left_of_mem (h : List.Forall₂ R xs ys) {y : β} (hy : y ∈ ys) : ∃ x ∈ xs, R x y := by
  induction h with
  | nil => cases hy
  | cons hr _ ih =>
    rcases List.mem_cons.mp hy with rfl | hy
    · exact ⟨_, List.mem_cons_self, hr⟩
    · obtain ⟨x, hx, hr⟩ := ih hy
      exact ⟨x, List.mem_cons_of_mem _ hx, hr⟩

theorem exists_getElem?_of_forall₂ (h : List.Forall₂ R xs ys) {i : Nat} {x : α} (hx : xs[i]? = some x) :
    ∃ y, ys[i]? = some y ∧ R x y := by
  obtain ⟨hi, rfl⟩ := List.getElem?_eq_some_iff.mp hx
  have hi' : i < ys.length := by rwa [← h.length_eq]
  exact ⟨ys[i], List.getElem?_eq_getElem hi', (List.forall₂_iff_get.mp h).2 i hi hi'⟩

/-- Two lists that go with one list, and agree in what is looked at. -/
theorem map_eq_map_of_forall₂ {γ δ : Type} {Q : α → γ → Prop} {zs : List γ} {f : β → δ} {g : γ → δ}
    (h : List.Forall₂ R xs ys) (h' : List.Forall₂ Q xs zs) (heq : ∀ x ∈ xs, ∀ y z, R x y → Q x z → f y = g z) :
    ys.map f = zs.map g := by
  induction h generalizing zs with
  | nil =>
    cases h'
    rfl
  | cons hr _ ih =>
    cases h' with
    | cons hq h' =>
      rw [List.map_cons, List.map_cons, heq _ List.mem_cons_self _ _ hr hq,
        ih h' fun x hx => heq x (List.mem_cons_of_mem _ hx)]

/-- Lists of one width in a row: the element `j` of the list `i`. -/
theorem getElem?_flatMap_uniform {f : α → List β} {width : Nat} (hwidth : ∀ a, (f a).length = width) (l : List α)
    (i : Nat) {j : Nat} (hj : j < width) : (l.flatMap f)[i * width + j]? = (l[i]?).bind fun a => (f a)[j]? := by
  induction l generalizing i with
  | nil => simp
  | cons a l ih =>
    rw [List.flatMap_cons]
    cases i with
    | zero =>
      rw [Nat.zero_mul, Nat.zero_add, List.getElem?_append_left (by rw [hwidth]; exact hj)]
      rfl
    | succ i =>
      rw [Nat.succ_mul, List.getElem?_append_right (by rw [hwidth]; omega), hwidth, List.getElem?_cons_succ, ← ih]
      congr 1
      omega

theorem forall₂_comp {γ : Type} {Q : β → γ → Prop} {T : α → γ → Prop} {zs : List γ} (h : List.Forall₂ R xs ys)
    (h' : List.Forall₂ Q ys zs) (hcomp : ∀ x y z, R x y → Q y z → T x z) : List.Forall₂ T xs zs := by
  induction h generalizing zs with
  | nil =>
    cases h'
    exact .nil
  | cons hr _ ih =>
    cases h' with
    | cons hq h' => exact .cons (hcomp _ _ _ hr hq) (ih h')

theorem forall₂_iff_forall {A : α → β → Prop} {B : α → Prop} (h : List.Forall₂ (fun x y => A x y ↔ B x) xs ys) :
    List.Forall₂ A xs ys ↔ ∀ x ∈ xs, B x := by
  induction h with
  | nil => simp
  | cons hr _ ih => rw [List.forall₂_cons, hr, ih, List.forall_mem_cons]

/-- The element under a name, where names differ. -/
theorem rel_lookup {γ : Type} [BEq γ] [LawfulBEq γ] (h : List.Forall₂ R xs ys) {name : α → γ}
    (hnd : (xs.map name).Nodup) {x : α} (hx : x ∈ xs) (default : β) :
    R x ((((xs.map name).zip ys).lookup (name x)).getD default) := by
  induction h with
  | nil => cases hx
  | @cons a b as bs hr _ ih =>
    rw [List.map_cons, List.nodup_cons] at hnd
    rw [List.map_cons, List.zip_cons_cons, List.lookup_cons]
    rcases List.mem_cons.mp hx with rfl | hx
    · simpa using hr
    · have hne : name x ≠ name a := fun heq => hnd.1 (heq ▸ List.mem_map.mpr ⟨x, hx, rfl⟩)
      rw [beq_false_of_ne hne]
      exact ih hnd.2 hx

/-- A search that finds the related elements in both lists. -/
theorem exists_find?_right (h : List.Forall₂ R xs ys) {p : α → Bool} {q : β → Bool} (hpq : ∀ x y, R x y → p x = q y)
    {x : α} (hx : xs.find? p = some x) : ∃ y, ys.find? q = some y ∧ R x y := by
  induction h with
  | nil => cases hx
  | @cons a b _ _ hr _ ih =>
    rw [List.find?_cons] at hx ⊢
    rw [← hpq a b hr]
    cases hp : p a with
    | true =>
      rw [hp] at hx
      cases hx
      exact ⟨b, rfl, hr⟩
    | false =>
      rw [hp] at hx
      exact ih hx

end PredictorService.Lib
