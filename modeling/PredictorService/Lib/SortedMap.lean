/-
  PredictorService.Lib.SortedMap — finite maps as sorted lists of entries.

  A map that sits inside an inductive type cannot be a quotient. Here it is the list of its
  entries in strict key order (`Sorted`), so equal maps are equal lists (`eq_of_mem_iff`), and
  `insert` puts an entry at its place. `insertAll` is a loop of inserts into the empty map:
  the last entry of a key stays (`get?_insertAll_snoc`). `emplaceAll` is the loop that
  keeps the first one. On entries with one value for each key both make the map of these
  entries (`mem_insertAll`, `mem_emplaceAll`). `ofFinMap` lists a finite map in this way.
-/

import Mathlib.Data.List.Induction
import Mathlib.Data.List.Sort
import Mathlib.Data.Finset.Sort
import PredictorService.Lib.FinMap

namespace PredictorService.Lib.SortedMap

variable {K V : Type*} [LinearOrder K]

/-- Strictly in key order. -/
def Sorted (l : List (K × V)) : Prop := l.Pairwise fun p q => p.1 < q.1

def get? (l : List (K × V)) (k : K) : Option V := (l.find? fun p => p.1 = k).map (·.2)

/-- Replaces the entry that is there. -/
def insert (k : K) (v : V) : List (K × V) → List (K × V)
  | [] => [(k, v)]
  | p :: l => if k < p.1 then (k, v) :: p :: l else if k = p.1 then (k, v) :: l else p :: insert k v l

/-- Keeps the entry that is there. -/
def emplace (l : List (K × V)) (k : K) (v : V) : List (K × V) := if (get? l k).isSome then l else insert k v l

def insertAll (es : List (K × V)) : List (K × V) := es.foldl (fun l e => insert e.1 e.2 l) []

def emplaceAll (es : List (K × V)) : List (K × V) := es.foldl (fun l e => emplace l e.1 e.2) []

@[simp] theorem get?_nil (k : K) : get? ([] : List (K × V)) k = none := rfl

theorem get?_cons (p : K × V) (l : List (K × V)) (k : K) : get? (p :: l) k = if p.1 = k then some p.2 else get? l k := by
  by_cases h : p.1 = k <;> simp [get?, h]

theorem get?_insert (l : List (K × V)) (k a : K) (v : V) :
    get? (insert k v l) a = if k = a then some v else get? l a := by
  induction l with
  | nil => rw [insert, get?_cons]
  | cons p l ih =>
    rw [insert]
    split
    · rw [get?_cons]
    · split
      · rename_i hk
        rw [get?_cons, get?_cons, ← hk]
        by_cases ha : k = a <;> simp [ha]
      · rename_i hk
        rw [get?_cons, get?_cons, ih]
        by_cases ha : p.1 = a
        · subst ha
          simp [hk]
        · simp [ha]

theorem mem_of_mem_insert {l : List (K × V)} {k : K} {v : V} {p : K × V} (h : p ∈ insert k v l) :
    p = (k, v) ∨ p ∈ l := by
  induction l with
  | nil => simpa [insert] using h
  | cons q l ih =>
    rw [insert] at h
    split at h
    · simpa using h
    · split at h
      · simp only [List.mem_cons] at h ⊢
        exact h.imp_right .inr
      · rcases List.mem_cons.mp h with rfl | h
        · exact .inr List.mem_cons_self
        · exact (ih h).imp_right (List.mem_cons_of_mem _)

theorem sorted_insert {l : List (K × V)} (hl : Sorted l) (k : K) (v : V) : Sorted (insert k v l) := by
  induction l with
  | nil => simp [insert, Sorted]
  | cons p l ih =>
    obtain ⟨hp, hl⟩ := List.pairwise_cons.mp hl
    rw [insert]
    split
    · rename_i hlt
      refine List.pairwise_cons.mpr ⟨?_, List.pairwise_cons.mpr ⟨hp, hl⟩⟩
      intro q hq
      rcases List.mem_cons.mp hq with rfl | hq
      · exact hlt
      · exact hlt.trans (hp q hq)
    · rename_i hge
      split
      · rename_i hk
        subst hk
        exact List.pairwise_cons.mpr ⟨hp, hl⟩
      · rename_i hne
        refine List.pairwise_cons.mpr ⟨?_, ih hl⟩
        intro q hq
        rcases mem_of_mem_insert hq with rfl | hq
        · exact lt_of_le_of_ne (not_lt.mp hge) (Ne.symm hne)
        · exact hp q hq

theorem sorted_emplace {l : List (K × V)} (hl : Sorted l) (k : K) (v : V) : Sorted (emplace l k v) := by
  rw [emplace]
  split
  · exact hl
  · exact sorted_insert hl k v

theorem sorted_insertAll (es : List (K × V)) : Sorted (insertAll es) := by
  have h : ∀ l : List (K × V), Sorted l → Sorted (es.foldl (fun l e => insert e.1 e.2 l) l) := by
    induction es with
    | nil => exact fun _ hl => hl
    | cons e es ih => exact fun l hl => ih _ (sorted_insert hl e.1 e.2)
  exact h [] List.Pairwise.nil

theorem sorted_emplaceAll (es : List (K × V)) : Sorted (emplaceAll es) := by
  have h : ∀ l : List (K × V), Sorted l → Sorted (es.foldl (fun l e => emplace l e.1 e.2) l) := by
    induction es with
    | nil => exact fun _ hl => hl
    | cons e es ih => exact fun l hl => ih _ (sorted_emplace hl e.1 e.2)
  exact h [] List.Pairwise.nil

theorem get?_eq_some_iff {l : List (K × V)} (hl : Sorted l) {k : K} {v : V} : get? l k = some v ↔ (k, v) ∈ l := by
  induction l with
  | nil => simp
  | cons p l ih =>
    obtain ⟨hp, hl⟩ := List.pairwise_cons.mp hl
    rw [get?_cons, List.mem_cons]
    split
    · rename_i hk
      subst hk
      constructor
      · intro h
        exact .inl (Prod.ext rfl (Option.some.inj h).symm)
      · intro h
        rcases h with h | h
        · rw [← h]
        · exact absurd (hp _ h) (lt_irrefl _)
    · rename_i hk
      rw [ih hl]
      exact ⟨.inr, fun h => h.resolve_left fun he => hk (by rw [← he])⟩

theorem eq_of_mem_iff {l l' : List (K × V)} (hl : Sorted l) (hl' : Sorted l') (h : ∀ p, p ∈ l ↔ p ∈ l') : l = l' := by
  have : Std.Asymm fun p q : K × V => p.1 < q.1 := ⟨fun _ _ h => h.asymm⟩
  have : Std.Irrefl fun p q : K × V => p.1 < q.1 := ⟨fun _ => lt_irrefl _⟩
  exact List.Pairwise.eq_of_mem_iff hl hl' fun p => h p

/-! ## Loops -/

theorem get?_insertAll_snoc (es : List (K × V)) (e : K × V) (k : K) :
    get? (insertAll (es ++ [e])) k = if e.1 = k then some e.2 else get? (insertAll es) k := by
  rw [insertAll, List.foldl_append]
  exact get?_insert _ _ _ _

theorem get?_emplaceAll_snoc (es : List (K × V)) (e : K × V) (k : K) :
    get? (emplaceAll (es ++ [e])) k = (get? (emplaceAll es) k).or (if e.1 = k then some e.2 else none) := by
  rw [emplaceAll, List.foldl_append]
  show get? (emplace (emplaceAll es) e.1 e.2) k = _
  rw [emplace]
  split
  · rename_i hsome
    by_cases hk : e.1 = k
    · subst hk
      obtain ⟨v, hv⟩ := Option.isSome_iff_exists.mp hsome
      simp [hv]
    · simp [hk]
  · rename_i hnone
    rw [get?_insert]
    by_cases hk : e.1 = k
    · subst hk
      rw [Option.not_isSome_iff_eq_none.mp hnone]
      simp
    · simp [hk]

/-- The later entries win. -/
theorem get?_insertAll_append (es fs : List (K × V)) (k : K) :
    get? (insertAll (es ++ fs)) k = (get? (insertAll fs) k).or (get? (insertAll es) k) := by
  induction fs using List.reverseRecOn with
  | nil => simp [insertAll]
  | append_singleton fs f ih =>
    rw [← List.append_assoc, get?_insertAll_snoc, get?_insertAll_snoc, ih]
    by_cases hk : f.1 = k <;> simp [hk]

theorem get?_insertAll_isSome {es : List (K × V)} {k : K} : (get? (insertAll es) k).isSome ↔ k ∈ es.map (·.1) := by
  induction es using List.reverseRecOn with
  | nil => simp [insertAll]
  | append_singleton es e ih =>
    rw [get?_insertAll_snoc, List.map_append, List.mem_append]
    by_cases hk : e.1 = k
    · simp [hk]
    · simp only [if_neg hk, ih, List.map_cons, List.map_nil, List.mem_singleton, Ne.symm hk, or_false]

/-- An entry whose key comes again leaves no trace. -/
theorem insertAll_overwritten {es fs : List (K × V)} {k : K} (h : k ∈ fs.map (·.1)) (v w : V) :
    insertAll (es ++ (k, v) :: fs) = insertAll (es ++ (k, w) :: fs) := by
  have hget : ∀ a, get? (insertAll (es ++ (k, v) :: fs)) a = get? (insertAll (es ++ (k, w) :: fs)) a := by
    intro a
    have hsplit : ∀ u, get? (insertAll (es ++ (k, u) :: fs)) a =
        (get? (insertAll fs) a).or (if k = a then some u else get? (insertAll es) a) := by
      intro u
      rw [List.append_cons, get?_insertAll_append, get?_insertAll_snoc]
    rw [hsplit, hsplit]
    by_cases hk : k = a
    · subst hk
      obtain ⟨u, hu⟩ := Option.isSome_iff_exists.mp (get?_insertAll_isSome.mpr h)
      simp [hu]
    · simp [hk]
  refine eq_of_mem_iff (sorted_insertAll _) (sorted_insertAll _) fun p => ?_
  rw [← get?_eq_some_iff (sorted_insertAll _), ← get?_eq_some_iff (sorted_insertAll _), hget]

theorem mem_of_mem_insertAll {es : List (K × V)} {p : K × V} (h : p ∈ insertAll es) : p ∈ es := by
  induction es using List.reverseRecOn with
  | nil => exact h
  | append_singleton es e ih =>
    rw [insertAll, List.foldl_append] at h
    rcases mem_of_mem_insert h with rfl | h
    · exact List.mem_append_right _ List.mem_cons_self
    · exact List.mem_append_left _ (ih h)

theorem mem_of_mem_emplaceAll {es : List (K × V)} {p : K × V} (h : p ∈ emplaceAll es) : p ∈ es := by
  induction es using List.reverseRecOn with
  | nil => exact h
  | append_singleton es e ih =>
    rw [emplaceAll, List.foldl_append, List.foldl_cons, List.foldl_nil, emplace] at h
    split at h
    · exact List.mem_append_left _ (ih h)
    · rcases mem_of_mem_insert h with rfl | h
      · exact List.mem_append_right _ List.mem_cons_self
      · exact List.mem_append_left _ (ih h)

/-- One value for each key. -/
def Functional (es : List (K × V)) : Prop := ∀ p ∈ es, ∀ q ∈ es, p.1 = q.1 → p = q

theorem Sorted.functional {l : List (K × V)} (hl : Sorted l) : Functional l := by
  intro p hp q hq hkey
  have hgp := (get?_eq_some_iff hl).mpr hp
  have hgq := (get?_eq_some_iff hl).mpr hq
  rw [hkey, hgq] at hgp
  exact Prod.ext hkey (Option.some.inj hgp).symm

omit [LinearOrder K] in
theorem Functional.init {es : List (K × V)} {e : K × V} (h : Functional (es ++ [e])) : Functional es :=
  fun p hp q hq => h p (List.mem_append_left _ hp) q (List.mem_append_left _ hq)

theorem get?_insertAll {es : List (K × V)} (h : Functional es) {k : K} {v : V} :
    get? (insertAll es) k = some v ↔ (k, v) ∈ es := by
  induction es using List.reverseRecOn with
  | nil => simp [insertAll]
  | append_singleton es e ih =>
    rw [get?_insertAll_snoc, List.mem_append, List.mem_singleton, ← ih h.init]
    by_cases hk : e.1 = k
    · rw [if_pos hk]
      constructor
      · intro hv
        exact .inr (Prod.ext hk.symm (Option.some.inj hv).symm)
      · intro hv
        rcases hv with hv | hv
        · have hsame := h (k, v) (List.mem_append_left _ ((ih h.init).mp hv)) e (by simp) hk.symm
          rw [← hsame]
        · rw [← hv]
    · rw [if_neg hk]
      exact ⟨.inl, fun hv => hv.resolve_right fun he => hk (by rw [← he])⟩

theorem get?_emplaceAll {es : List (K × V)} (h : Functional es) {k : K} {v : V} :
    get? (emplaceAll es) k = some v ↔ (k, v) ∈ es := by
  induction es using List.reverseRecOn generalizing v with
  | nil => simp [emplaceAll]
  | append_singleton es e ih =>
    rw [get?_emplaceAll_snoc, List.mem_append, List.mem_singleton, ← ih h.init]
    cases hold : get? (emplaceAll es) k with
    | none =>
      simp only [Option.none_or, reduceCtorEq, false_or]
      by_cases hk : e.1 = k
      · rw [if_pos hk, Option.some_inj]
        exact ⟨fun hv => Prod.ext hk.symm hv.symm, fun he => by rw [← he]⟩
      · rw [if_neg hk]
        exact ⟨nofun, fun he => absurd (by rw [← he]) hk⟩
    | some u =>
      rw [Option.some_or]
      refine ⟨.inl, fun hv => hv.elim id fun he => ?_⟩
      have hmem := (ih h.init).mp hold
      have hsame := h (k, u) (List.mem_append_left _ hmem) e (by simp) (by rw [← he])
      rw [← hsame] at he
      rw [Option.some_inj]
      exact (Prod.mk.inj he).2.symm

theorem mem_insertAll {es : List (K × V)} (h : Functional es) {p : K × V} : p ∈ insertAll es ↔ p ∈ es := by
  rw [← get?_insertAll h, get?_eq_some_iff (sorted_insertAll es)]

theorem mem_emplaceAll {es : List (K × V)} (h : Functional es) {p : K × V} : p ∈ emplaceAll es ↔ p ∈ es := by
  rw [← get?_emplaceAll h, get?_eq_some_iff (sorted_emplaceAll es)]

/-! ## Finite maps -/

/-- The entries of a finite map. -/
def ofFinMap (m : FinMap K V) : List (K × V) := (m.keys.sort).filterMap fun k => (m.lookup k).map fun v => (k, v)

def toFinMap (l : List (K × V)) : FinMap K V := l.foldr (fun e m => m.insert e.1 e.2) ∅

theorem mem_ofFinMap {m : FinMap K V} {p : K × V} : p ∈ ofFinMap m ↔ m.lookup p.1 = some p.2 := by
  simp only [ofFinMap, List.mem_filterMap, Finset.mem_sort, Finmap.mem_keys, Option.map_eq_some_iff]
  constructor
  · intro h
    obtain ⟨k, -, v, hv, rfl⟩ := h
    exact hv
  · intro h
    exact ⟨p.1, Finmap.mem_iff.mpr ⟨p.2, h⟩, p.2, h, rfl⟩

theorem sorted_ofFinMap (m : FinMap K V) : Sorted (ofFinMap m) := by
  refine List.Pairwise.filterMap _ (fun k k' hlt p hp q hq => ?_) (Finset.sortedLT_sort m.keys).pairwise
  obtain ⟨_, -, rfl⟩ := Option.map_eq_some_iff.mp hp
  obtain ⟨_, -, rfl⟩ := Option.map_eq_some_iff.mp hq
  exact hlt

theorem lookup_toFinMap (l : List (K × V)) (k : K) : (toFinMap l).lookup k = get? l k := by
  induction l with
  | nil => rfl
  | cons p l ih =>
    show ((toFinMap l).insert p.1 p.2).lookup k = _
    rw [FinMap.lookup_insert_ite, get?_cons, ih]
    simp only [eq_comm]

theorem toFinMap_ofFinMap (m : FinMap K V) : toFinMap (ofFinMap m) = m := by
  refine Finmap.ext_lookup fun k => Option.ext fun v => ?_
  rw [lookup_toFinMap, get?_eq_some_iff (sorted_ofFinMap m), mem_ofFinMap]

theorem ofFinMap_toFinMap {l : List (K × V)} (hl : Sorted l) : ofFinMap (toFinMap l) = l := by
  refine eq_of_mem_iff (sorted_ofFinMap _) hl fun p => ?_
  rw [mem_ofFinMap, lookup_toFinMap, get?_eq_some_iff hl]

end PredictorService.Lib.SortedMap
