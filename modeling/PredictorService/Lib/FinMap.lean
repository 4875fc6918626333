/-
  PredictorService.Lib.FinMap — finite maps and the few operations programs do on them.

  A hash map or an ordered map whose iteration order nobody relies on is a Mathlib
  `Finmap` with a constant value type. `eraseAll` drops a set of keys, `insertAll` is a loop
  of assignments (`lookup_insertAll`; `lookup_insertAll_iff` for different keys), `emplaceAll`
  one of calls of `emplace` (`emplaceAll_eq_insertAll_iff` compares the two), `pushBack`
  appends to the list under a key, and `groupUp` is a loop of `pushBack`s: under each key,
  the values pushed for it, in push order (`lookup_groupUp`).
-/

import Mathlib.Data.Finmap

namespace PredictorService.Lib

abbrev FinMap (K V : Type*) := Finmap fun _ : K => V

namespace FinMap

variable {K V : Type*} [DecidableEq K]

theorem lookup_insert_ite (m : FinMap K V) (k a : K) (v : V) :
    (m.insert k v).lookup a = if a = k then some v else m.lookup a := by
  split
  · subst a
    exact Finmap.lookup_insert m
  · exact Finmap.lookup_insert_of_ne m ‹_›

theorem lookup_erase_ite (m : FinMap K V) (k a : K) :
    (m.erase k).lookup a = if a = k then none else m.lookup a := by
  split
  · subst a
    exact Finmap.lookup_erase k m
  · exact Finmap.lookup_erase_ne ‹_›

/-- Entries of `m` win. -/
theorem lookup_union (m n : FinMap K V) (a : K) : (m ∪ n).lookup a = (m.lookup a).or (n.lookup a) := by
  by_cases h : a ∈ m
  · obtain ⟨v, hv⟩ := Finmap.mem_iff.mp h
    rw [Finmap.lookup_union_left h, hv, Option.some_or]
  · rw [Finmap.lookup_union_right h, Finmap.lookup_eq_none.mpr h, Option.none_or]

instance : RightCommutative (fun (m : FinMap K V) (k : K) => m.erase k) := ⟨fun _ _ _ => Finmap.erase_erase⟩

/-- `m` without the keys `ks`. -/
def eraseAll (m : FinMap K V) (ks : Finset K) : FinMap K V := ks.val.foldl (fun m k => m.erase k) m

theorem lookup_eraseAll (m : FinMap K V) (ks : Finset K) (a : K) :
    (eraseAll m ks).lookup a = if a ∈ ks then none else m.lookup a := by
  obtain ⟨ks, hnd⟩ := ks
  show (ks.foldl (fun m k => m.erase k) m).lookup a = if a ∈ ks then none else m.lookup a
  clear hnd
  induction ks using Multiset.induction generalizing m with
  | empty => simp
  | cons k ks ih =>
    rw [Multiset.foldl_cons, ih, lookup_erase_ite]
    by_cases h1 : a ∈ ks <;> by_cases h2 : a = k <;> simp [h1, h2]

/-- A loop of assignments `m[k] = v`. -/
def insertAll (m : FinMap K V) (l : List (K × V)) : FinMap K V := l.foldl (fun m p => m.insert p.1 p.2) m

/-- Assignments to different keys all stay. -/
theorem lookup_insertAll_iff {m : FinMap K V} {l : List (K × V)} (hnd : (l.map (·.1)).Nodup) {k : K} {v : V} :
    (insertAll m l).lookup k = some v ↔ (k, v) ∈ l ∨ (k ∉ l.map (·.1) ∧ m.lookup k = some v) := by
  induction l generalizing m with
  | nil => simp [insertAll]
  | cons p l ih =>
    rw [List.map_cons, List.nodup_cons] at hnd
    show (insertAll (m.insert p.1 p.2) l).lookup k = some v ↔ _
    rw [ih hnd.2, lookup_insert_ite, List.mem_cons, List.map_cons, List.mem_cons]
    by_cases hk : k = p.1
    · subst hk
      have hnot : (p.1, v) ∉ l := fun h => hnd.1 (List.mem_map.mpr ⟨_, h, rfl⟩)
      simp [hnd.1, hnot, Prod.ext_iff, eq_comm]
    · simp [hk, Prod.ext_iff]

/-- `m[k].push_back(v)`, with `m[k]` created empty when it is missing. -/
def pushBack (m : FinMap K (List V)) (k : K) (v : V) : FinMap K (List V) :=
  match m.lookup k with
  | some l => m.insert k (l ++ [v])
  | none => m.insert k [v]

theorem lookup_pushBack (m : FinMap K (List V)) (k a : K) (v : V) :
    (pushBack m k v).lookup a = if a = k then some ((m.lookup k).getD [] ++ [v]) else m.lookup a := by
  unfold pushBack
  split <;> rename_i h <;> simp [lookup_insert_ite, h]

def groupUp (m : FinMap K (List V)) (l : List (K × V)) : FinMap K (List V) :=
  l.foldl (fun m p => pushBack m p.1 p.2) m

@[simp] theorem groupUp_nil (m : FinMap K (List V)) : groupUp m [] = m := rfl

theorem groupUp_append (m : FinMap K (List V)) (l l' : List (K × V)) :
    groupUp m (l ++ l') = groupUp (groupUp m l) l' := List.foldl_append

/-- A loop whose rounds push several values is one loop of pushes. -/
theorem foldl_groupUp {A : Type*} (m : FinMap K (List V)) (f : A → List (K × V)) (l : List A) :
    l.foldl (fun m a => groupUp m (f a)) m = groupUp m (l.flatMap f) := by
  induction l generalizing m with
  | nil => rfl
  | cons a l ih => rw [List.foldl_cons, ih, List.flatMap_cons, groupUp_append]

/-- The values pushed under `k`. -/
def pushedAt (l : List (K × V)) (k : K) : List V := (l.filter (·.1 = k)).map (·.2)

theorem pushedAt_flatMap {A : Type*} (l : List A) (f : A → List (K × V)) (k : K) :
    pushedAt (l.flatMap f) k = l.flatMap fun a => pushedAt (f a) k := by
  induction l with
  | nil => rfl
  | cons a l ih =>
    rw [List.flatMap_cons, List.flatMap_cons, ← ih]
    simp only [pushedAt, List.filter_append, List.map_append]

/-- Under each key, the value that was assigned last. -/
theorem lookup_insertAll (m : FinMap K V) (l : List (K × V)) (k : K) :
    (insertAll m l).lookup k = (pushedAt l k).getLast?.or (m.lookup k) := by
  induction l generalizing m with
  | nil => rfl
  | cons p l ih =>
    show (insertAll (m.insert p.1 p.2) l).lookup k = _
    rw [ih, lookup_insert_ite]
    by_cases hk : p.1 = k
    · subst hk
      have hcons : pushedAt (p :: l) p.1 = p.2 :: pushedAt l p.1 := by simp [pushedAt]
      rw [hcons, List.getLast?_cons, if_pos rfl]
      cases (pushedAt l p.1).getLast? <;> rfl
    · have hcons : pushedAt (p :: l) k = pushedAt l k := by simp [pushedAt, hk]
      rw [hcons, if_neg (Ne.symm hk)]

/-- A loop of `emplace`, which keeps an entry that is there. -/
def emplaceAll (m : FinMap K V) (l : List (K × V)) : FinMap K V :=
  l.foldl (fun m p => if p.1 ∈ m then m else m.insert p.1 p.2) m

/-- Under each key, what was there, or else the value that came first. -/
theorem lookup_emplaceAll (m : FinMap K V) (l : List (K × V)) (k : K) :
    (emplaceAll m l).lookup k = (m.lookup k).or (pushedAt l k).head? := by
  induction l generalizing m with
  | nil => simp [emplaceAll, pushedAt]
  | cons p l ih =>
    have hround : (if p.1 ∈ m then m else m.insert p.1 p.2).lookup k =
        (m.lookup k).or (if k = p.1 then some p.2 else none) := by
      split
      · rename_i hmem
        obtain ⟨v, hv⟩ := Finmap.mem_iff.mp hmem
        split
        · subst k
          rw [hv, Option.some_or]
        · rw [Option.or_none]
      · rename_i hmem
        rw [lookup_insert_ite]
        split
        · subst k
          rw [Finmap.lookup_eq_none.mpr hmem, Option.none_or]
        · rw [Option.or_none]
    show (emplaceAll (if p.1 ∈ m then m else m.insert p.1 p.2) l).lookup k = _
    rw [ih, hround, Option.or_assoc]
    by_cases hk : p.1 = k
    · subst hk
      simp [pushedAt]
    · simp [pushedAt, hk, Ne.symm hk]

/-- Assigning and emplacing come to one map where the first value of each key is its last. -/
theorem emplaceAll_eq_insertAll_iff {l : List (K × V)} :
    emplaceAll ∅ l = insertAll ∅ l ↔ ∀ k, (pushedAt l k).head? = (pushedAt l k).getLast? := by
  have hempty (k : K) : (∅ : FinMap K V).lookup k = none := Finmap.lookup_empty k
  constructor
  · intro h k
    have hk := congrArg (Finmap.lookup k) h
    rwa [lookup_emplaceAll, lookup_insertAll, hempty, Option.none_or, Option.or_none] at hk
  · intro h
    refine Finmap.ext_lookup fun k => ?_
    rw [lookup_emplaceAll, lookup_insertAll, hempty, Option.none_or, Option.or_none]
    exact h k

/-- Under each key, what was there followed by what was pushed. -/
theorem lookup_groupUp (m : FinMap K (List V)) (l : List (K × V)) (a : K) :
    (groupUp m l).lookup a =
      if pushedAt l a = [] then m.lookup a else some ((m.lookup a).getD [] ++ pushedAt l a) := by
  induction l generalizing m with
  | nil => rfl
  | cons p l ih =>
    show (groupUp (pushBack m p.1 p.2) l).lookup a = _
    rw [ih, lookup_pushBack]
    by_cases hp : p.1 = a
    · subst hp
      have hcons : pushedAt (p :: l) p.1 = p.2 :: pushedAt l p.1 := by simp [pushedAt]
      rw [hcons]
      by_cases hl : pushedAt l p.1 = [] <;> simp [hl]
    · have hcons : pushedAt (p :: l) a = pushedAt l a := by simp [pushedAt, hp]
      rw [hcons, if_neg (Ne.symm hp)]

end FinMap

end PredictorService.Lib
