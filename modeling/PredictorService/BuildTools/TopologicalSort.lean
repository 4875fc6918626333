/-
  PredictorService.BuildTools.TopologicalSort — the order in which targets are built
  (`_topological_sort` of build_tools/typhoon-blade/src/blade/dependency_analyzer.py).

  One loop counts, for each target, how many dependencies it has, and lists for each
  dependency who has it (`countPreds`). A queue then takes the targets without any, and each
  target that leaves the queue takes one off the counts of its successors; whose count gets
  to zero is queued (`popNext`). `order` and `ready` are the orders of Python's two
  dictionaries.

  - `knockDown_all`: what one round does to the counts and the queue.
  - `Sorting`: the invariant of the loop.
  - `topologicalSort_ok`: the loop ends without a `KeyError`. Its answer has each target that
    does not reach a circle once, after all that it depends on, and no other; the successors
    are the dependencies turned round.
-/

import PredictorService.BuildTools.DependencyAnalyzer

namespace PredictorService.BuildTools.DependencyAnalyzer

open PredictorService.Lib
open PredictorService.Lib.Dag

structure Counts where
  numpreds : FinMap Key Int
  successors : FinMap Key (List Key)

/-- A dependency `first` of `second`, whose own count is there. -/
def addPred (second : Key) (c : Counts) (first : Key) : Counts :=
  let numpreds := if first ∈ c.numpreds then c.numpreds else c.numpreds.insert first 0
  { numpreds := numpreds.insert second ((numpreds.lookup second).getD 0 + 1)
    successors := FinMap.pushBack c.successors first second }

def addTarget (targets : Targets) (c : Counts) (second : Key) : Counts :=
  let c : Counts :=
    { numpreds := if second ∈ c.numpreds then c.numpreds else c.numpreds.insert second 0
      successors := if second ∈ c.successors then c.successors else c.successors.insert second [] }
  (needs targets second).foldl (addPred second) c

def countPreds (targets : Targets) (order : List Key) : Counts := order.foldl (addTarget targets) ⟨∅, ∅⟩

/-- `numpreds[y] -= 1`, and `y` is queued when nothing is left. -/
def knockDown (s : FinMap Key Int × List Key) (y : Key) : Except Stop (FinMap Key Int × List Key) :=
  match s.1.lookup y with
  | none => .error .keyError
  | some n => .ok (s.1.insert y (n - 1), if n - 1 = 0 then s.2 ++ [y] else s.2)

structure SortState where
  numpreds : FinMap Key Int
  q : List Key
  answer : List Key := []

/-- The round for `x`, which has left the queue. -/
def popNext (successors : FinMap Key (List Key)) (s : SortState) (x : Key) (q : List Key) : Except Stop SortState :=
  if x ∈ s.numpreds then do
    let (numpreds, q) ← ((successors.lookup x).getD []).foldlM knockDown (s.numpreds.erase x, q)
    return { numpreds, q, answer := s.answer ++ [x] }
  else .error .keyError

def sortLoop (successors : FinMap Key (List Key)) : Nat → SortState → Except Stop (List Key)
  | rounds, s =>
    match s.q with
    | [] => .ok s.answer
    | x :: q =>
      match rounds with
      | 0 => .error .running
      | rounds + 1 => (popNext successors s x q).bind (sortLoop successors rounds)

/-- Each round takes a key out of `numpreds`. -/
def topologicalSort (targets : Targets) (order ready : List Key) : Except Stop (List Key × FinMap Key (List Key)) :=
  let c := countPreds targets order
  let q := ready.filter fun k => c.numpreds.lookup k = some 0
  (sortLoop c.successors c.numpreds.keys.card { numpreds := c.numpreds, q }).map fun answer => (answer, c.successors)

/-! ## Counting -/

variable {targets : Targets} {order ready done : List Key}

theorem lookup_setdefault (m : FinMap Key Int) (k a : Key) :
    (if k ∈ m then m else m.insert k 0).lookup a = (m.lookup a).or (if a = k then some 0 else none) := by
  by_cases hk : k ∈ m
  · rw [if_pos hk]
    split
    · subst a
      obtain ⟨n, hn⟩ := Finmap.mem_iff.mp hk
      rw [hn, Option.some_or]
    · rw [Option.or_none]
  · rw [if_neg hk, FinMap.lookup_insert_ite]
    split
    · subst a
      rw [Finmap.lookup_eq_none.mpr hk, Option.none_or]
    · rw [Option.or_none]

/-- Who has `x` as a dependency. -/
def successorsOf (successors : FinMap Key (List Key)) (x : Key) : List Key := (successors.lookup x).getD []

theorem foldl_addPred_numpreds (second : Key) (ds : List Key) {c : Counts} {n : Int}
    (h : c.numpreds.lookup second = some n) (k : Key) :
    (ds.foldl (addPred second) c).numpreds.lookup k =
      if k = second then some (n + ds.length) else (c.numpreds.lookup k).or (if k ∈ ds then some 0 else none) := by
  induction ds generalizing c n with
  | nil =>
    by_cases hk : k = second
    · subst k
      simp [h]
    · simp [hk]
  | cons d ds ih =>
    have hone : (addPred second c d).numpreds.lookup second = some (n + 1) := by
      show Finmap.lookup second (Finmap.insert second _ _) = _
      rw [Finmap.lookup_insert, lookup_setdefault, h, Option.some_or, Option.getD_some]
    rw [List.foldl_cons, ih hone]
    by_cases hk : k = second
    · rw [if_pos hk, if_pos hk, List.length_cons, Option.some_inj]
      omega
    · have hlookup : (addPred second c d).numpreds.lookup k =
          (c.numpreds.lookup k).or (if k = d then some 0 else none) := by
        show Finmap.lookup k (Finmap.insert second _ _) = _
        rw [FinMap.lookup_insert_ite, if_neg hk, lookup_setdefault]
      rw [if_neg hk, if_neg hk, hlookup, Option.or_assoc]
      by_cases hd : k = d <;> by_cases hds : k ∈ ds <;> simp [hd, hds]

theorem successorsOf_pushBack (m : FinMap Key (List Key)) (k x v : Key) :
    successorsOf (FinMap.pushBack m k v) x = successorsOf m x ++ if x = k then [v] else [] := by
  rw [successorsOf, FinMap.lookup_pushBack]
  by_cases hx : x = k
  · subst x
    simp [successorsOf]
  · simp [hx, successorsOf]

theorem foldl_addPred_successors (second : Key) (ds : List Key) (c : Counts) (x : Key) :
    successorsOf (ds.foldl (addPred second) c).successors x =
      successorsOf c.successors x ++ List.replicate (ds.count x) second := by
  induction ds generalizing c with
  | nil => simp
  | cons d ds ih =>
    rw [List.foldl_cons, ih]
    show successorsOf (FinMap.pushBack c.successors d second) x ++ _ = _
    rw [successorsOf_pushBack, List.append_assoc, List.count_cons]
    by_cases hx : x = d
    · subst x
      simp [List.replicate_succ]
    · simp [hx, Ne.symm hx]

/-- The counts once `done` has been looked at. -/
structure Counted (targets : Targets) (done : List Key) (c : Counts) : Prop where
  numpreds : ∀ k, c.numpreds.lookup k = if k ∈ done then some ((needs targets k).length : Int)
    else if ∃ second ∈ done, k ∈ needs targets second then some 0 else none
  successors : ∀ x y, (successorsOf c.successors x).count y = if y ∈ done then (needs targets y).count x else 0
  mem_successors : ∀ x ∈ done, x ∈ c.successors

theorem mem_pushBack {m : FinMap Key (List Key)} {k a v : Key} (h : a ∈ m) : a ∈ FinMap.pushBack m k v := by
  unfold FinMap.pushBack
  split <;> exact Finmap.mem_insert.mpr (.inr h)

theorem mem_foldl_addPred {second x : Key} {ds : List Key} {c : Counts} (h : x ∈ c.successors) :
    x ∈ (ds.foldl (addPred second) c).successors := by
  induction ds generalizing c with
  | nil => exact h
  | cons d ds ih => exact ih (mem_pushBack h)

theorem Counted.snoc {c : Counts} (h : Counted targets done c) {second : Key} (hnew : second ∉ done) :
    Counted targets (done ++ [second]) (addTarget targets c second) := by
  obtain ⟨start, hstart⟩ : ∃ start : Counts, start =
      { numpreds := if second ∈ c.numpreds then c.numpreds else c.numpreds.insert second 0
        successors := if second ∈ c.successors then c.successors else c.successors.insert second [] } := ⟨_, rfl⟩
  have hadd : addTarget targets c second = (needs targets second).foldl (addPred second) start := by rw [hstart]; rfl
  have hlookup (k : Key) : start.numpreds.lookup k =
      (c.numpreds.lookup k).or (if k = second then some 0 else none) := by
    rw [hstart, lookup_setdefault]
  have hzero : start.numpreds.lookup second = some 0 := by
    rw [hlookup, h.numpreds, if_neg hnew, if_pos rfl]
    split <;> rfl
  have hsucc (x : Key) : successorsOf start.successors x = successorsOf c.successors x := by
    rw [hstart]
    simp only [successorsOf]
    split
    · rfl
    · rename_i hmem
      rw [FinMap.lookup_insert_ite]
      split
      · subst x
        rw [Finmap.lookup_eq_none.mpr hmem]
        rfl
      · rfl
  have hstays {x : Key} (hx : x ∈ c.successors) : x ∈ start.successors := by
    rw [hstart]
    dsimp only
    split
    · exact hx
    · exact Finmap.mem_insert.mpr (.inr hx)
  rw [hadd]
  refine ⟨fun k => ?_, fun x y => ?_, fun x hx => ?_⟩
  · rw [foldl_addPred_numpreds second _ hzero, hlookup, h.numpreds]
    by_cases hk : k = second
    · subst k
      simp
    · by_cases hd : k ∈ done
      · simp [hk, hd]
      · have hnot : k ∉ done ++ [second] := by simp [hk, hd]
        have hneeded : (∃ s ∈ done ++ [second], k ∈ needs targets s) ↔
            (∃ s ∈ done, k ∈ needs targets s) ∨ k ∈ needs targets second := by
          simp [or_and_right, exists_or]
        rw [if_neg hk, if_neg hd, if_neg hk, if_neg hnot, if_congr hneeded rfl rfl]
        by_cases h1 : ∃ s ∈ done, k ∈ needs targets s <;> by_cases h2 : k ∈ needs targets second <;> simp [h1, h2]
  · rw [foldl_addPred_successors, hsucc, List.count_append, h.successors, List.count_replicate]
    by_cases hy : y = second
    · subst y
      simp [hnew]
    · simp [hy, Ne.symm hy]
  · rcases List.mem_append.mp hx with hx | hx
    · exact mem_foldl_addPred (hstays (h.mem_successors x hx))
    · rw [List.mem_singleton.mp hx]
      refine mem_foldl_addPred ?_
      rw [hstart]
      dsimp only
      split
      · assumption
      · exact Finmap.mem_insert.mpr (.inl rfl)

theorem counted_countPreds (hnd : order.Nodup) : Counted targets order (countPreds targets order) := by
  have hall : ∀ l done c, (done ++ l).Nodup → Counted targets done c →
      Counted targets (done ++ l) (l.foldl (addTarget targets) c) := by
    intro l
    induction l with
    | nil =>
      intro done c _ h
      rwa [List.append_nil]
    | cons k l ih =>
      intro done c hnd h
      have hnew : k ∉ done := fun hk => (List.nodup_append.mp hnd).2.2 k hk k List.mem_cons_self rfl
      have hrest := ih (done ++ [k]) (addTarget targets c k) (by simpa using hnd) (h.snoc hnew)
      rwa [List.append_assoc, List.singleton_append] at hrest
  refine hall order [] ⟨∅, ∅⟩ hnd ⟨fun k => ?_, fun x y => ?_, nofun⟩
  · simp
  · simp [successorsOf]

/-! ## Taking targets from the queue -/

/-- One is taken off the count of each target of the list, as often as it stands there; who
    gets to zero is queued once. -/
theorem knockDown_all {ys : List Key} {m : FinMap Key Int} {q : List Key}
    (h : ∀ y ∈ ys, ∃ n, m.lookup y = some n ∧ (ys.count y : Int) ≤ n) :
    ∃ m' added, ys.foldlM knockDown (m, q) = .ok (m', q ++ added) ∧
      (∀ k, m'.lookup k = (m.lookup k).map (· - (ys.count k : Int))) ∧ added.Nodup ∧
      ∀ k, k ∈ added ↔ k ∈ ys ∧ m.lookup k = some (ys.count k : Int) := by
  induction ys generalizing m q with
  | nil => exact ⟨m, [], by rw [List.append_nil]; rfl, by simp, List.nodup_nil, by simp⟩
  | cons y ys ih =>
    obtain ⟨n, hn, hle⟩ := h y List.mem_cons_self
    rw [List.count_cons_self] at hle
    have hone : knockDown (m, q) y = .ok (m.insert y (n - 1), if n - 1 = 0 then q ++ [y] else q) := by
      rw [knockDown, hn]
    have htail : ∀ z ∈ ys, ∃ n', (m.insert y (n - 1)).lookup z = some n' ∧ (ys.count z : Int) ≤ n' := by
      intro z hz
      rw [FinMap.lookup_insert_ite]
      by_cases hzy : z = y
      · subst z
        exact ⟨n - 1, if_pos rfl, by omega⟩
      · obtain ⟨n', hn', hle'⟩ := h z (List.mem_cons_of_mem _ hz)
        rw [List.count_cons_of_ne (Ne.symm hzy)] at hle'
        exact ⟨n', by rw [if_neg hzy, hn'], hle'⟩
    obtain ⟨m', added, hrun, hlookup, hnd, hadded⟩ := ih (q := if n - 1 = 0 then q ++ [y] else q) htail
    refine ⟨m', (if n - 1 = 0 then [y] else []) ++ added, ?_, fun k => ?_, ?_, fun k => ?_⟩
    · rw [List.foldlM_cons, hone]
      refine hrun.trans ?_
      split <;> simp
    · rw [hlookup, FinMap.lookup_insert_ite]
      by_cases hk : k = y
      · subst k
        rw [if_pos rfl, hn, List.count_cons_self, Option.map_some, Option.map_some, Option.some_inj]
        omega
      · rw [if_neg hk, List.count_cons_of_ne (Ne.symm hk)]
    · split
      · -- its count is zero, so it does not come again
        refine List.nodup_cons.mpr ⟨fun hy => ?_, hnd⟩
        have hcount := List.count_pos_iff.mpr ((hadded y).mp hy).1
        omega
      · exact hnd
    · rw [List.mem_append, hadded, FinMap.lookup_insert_ite]
      by_cases hk : k = y
      · subst k
        rw [if_pos rfl, hn, List.count_cons_self, Option.some_inj, Option.some_inj]
        by_cases hys : y ∈ ys
        · have hcount := List.count_pos_iff.mpr hys
          have hne : ¬ n - 1 = 0 := by omega
          simp [hne, hys]
          omega
        · have hcount := List.count_eq_zero.mpr hys
          by_cases hz : n - 1 = 0
          · simp [hz, hcount]
            omega
          · simp [hz, hys, hcount]
            omega
      · have hnot : k ∉ (if n - 1 = 0 then [y] else []) := by split <;> simp [hk]
        rw [if_neg hk, List.count_cons_of_ne (Ne.symm hk), List.mem_cons]
        simp [hnot, hk]

/-- How many of the dependencies are not in the answer. -/
def outside (answer l : List Key) : Nat := l.countP (· ∉ answer)

theorem outside_eq_zero_iff {answer l : List Key} : outside answer l = 0 ↔ ∀ d ∈ l, d ∈ answer := by
  simp [outside, List.countP_eq_zero]

theorem outside_snoc {answer : List Key} {x : Key} (hx : x ∉ answer) (l : List Key) :
    outside answer l = outside (answer ++ [x]) l + l.count x := by
  induction l with
  | nil => rfl
  | cons d l ih =>
    simp only [outside, List.countP_cons, List.count_cons] at ih ⊢
    rw [ih]
    by_cases hd : d = x
    · subst d
      simp [hx]
      omega
    · by_cases hmem : d ∈ answer <;> simp [hd, hmem]
      omega

/-- What the loop keeps. -/
structure Sorting (targets : Targets) (nodes : Finset Key) (s : SortState) : Prop where
  numpreds : ∀ k, s.numpreds.lookup k =
    if k ∈ nodes ∧ k ∉ s.answer then some (outside s.answer (needs targets k) : Int) else none
  mem_queue : ∀ k, k ∈ s.q ↔ s.numpreds.lookup k = some 0
  nodup_queue : s.q.Nodup
  nodup : s.answer.Nodup
  mem_nodes : ∀ k ∈ s.answer, k ∈ nodes
  covered : Covered (needs targets) s.answer.reverse

variable {nodes : Finset Key} {s : SortState} {x : Key} {q : List Key} {successors : FinMap Key (List Key)}

/-- A queued target has all its dependencies in the answer. -/
theorem Sorting.queued (h : Sorting targets nodes s) (hx : x ∈ s.q) :
    x ∈ nodes ∧ x ∉ s.answer ∧ ∀ d ∈ needs targets x, d ∈ s.answer := by
  have hzero := (h.mem_queue x).mp hx
  rw [h.numpreds] at hzero
  split at hzero
  · rename_i hmem
    refine ⟨hmem.1, hmem.2, outside_eq_zero_iff.mp ?_⟩
    have := Option.some.inj hzero
    omega
  · cases hzero

theorem Sorting.lookup_erase (h : Sorting targets nodes s) (k : Key) : (s.numpreds.erase x).lookup k =
    if k ∈ nodes ∧ k ∉ s.answer ++ [x] then some (outside s.answer (needs targets k) : Int) else none := by
  rw [FinMap.lookup_erase_ite, h.numpreds]
  by_cases hk : k = x <;> simp [hk]

/-- What needs a queued target has not been answered, and is not the target itself. -/
theorem Sorting.successor_open (hnodes : ∀ k, needs targets k ≠ [] → k ∈ nodes) (h : Sorting targets nodes s)
    (hx : x ∈ s.q) {y : Key} (hy : x ∈ needs targets y) : y ∈ nodes ∧ y ∉ s.answer ++ [x] := by
  obtain ⟨-, hxa, hdeps⟩ := h.queued hx
  have hya : y ∉ s.answer := fun hya =>
    hxa (List.mem_reverse.mp (h.covered.mem_of_needs (List.mem_reverse.mpr hya) hy))
  have hyx : y ≠ x := fun heq => hxa (hdeps x (heq ▸ hy))
  exact ⟨hnodes y (List.ne_nil_of_mem hy), by simp [hya, hyx]⟩

section

variable (hsucc : ∀ x y, (successorsOf successors x).count y = (needs targets y).count x)

include hsucc

theorem mem_successorsOf_iff {y : Key} : y ∈ successorsOf successors x ↔ x ∈ needs targets y := by
  rw [← List.count_pos_iff, hsucc, List.count_pos_iff]

theorem Sorting.outside_popped (h : Sorting targets nodes s) (hx : x ∈ s.q) (y : Key) :
    outside s.answer (needs targets y) =
      outside (s.answer ++ [x]) (needs targets y) + (successorsOf successors x).count y := by
  rw [hsucc, outside_snoc (h.queued hx).2.1]

/-- The counts of the successors suffice for the round. -/
theorem Sorting.counts_suffice (hnodes : ∀ k, needs targets k ≠ [] → k ∈ nodes) (h : Sorting targets nodes s)
    (hx : x ∈ s.q) : ∀ y ∈ successorsOf successors x, ∃ n, (s.numpreds.erase x).lookup y = some n ∧
      ((successorsOf successors x).count y : Int) ≤ n := by
  intro y hy
  have hopen := h.successor_open hnodes hx ((mem_successorsOf_iff hsucc).mp hy)
  refine ⟨_, (h.lookup_erase y).trans (if_pos hopen), ?_⟩
  have := h.outside_popped hsucc hx y
  omega

/-- Who is queued is not a successor of a queued target. -/
theorem Sorting.not_successor_of_queued (h : Sorting targets nodes s) (hx : x ∈ s.q) {k : Key} (hk : k ∈ s.q) :
    k ∉ successorsOf successors x := by
  intro hks
  obtain ⟨-, hxa, -⟩ := h.queued hx
  exact hxa ((h.queued hk).2.2 x ((mem_successorsOf_iff hsucc).mp hks))

/-- Who was queued stays, and the others get to zero in this round. -/
theorem Sorting.queued_next (h : Sorting targets nodes s) (hq : s.q = x :: q) (k : Key) :
    (k ∈ q ∨ (k ∈ successorsOf successors x ∧
        (s.numpreds.erase x).lookup k = some ((successorsOf successors x).count k : Int))) ↔
      (s.numpreds.erase x).lookup k = some ((successorsOf successors x).count k : Int) := by
  have hxq : x ∈ s.q := by rw [hq]; exact List.mem_cons_self
  obtain ⟨hxnot, -⟩ := List.nodup_cons.mp (hq ▸ h.nodup_queue)
  by_cases hk : k ∈ successorsOf successors x
  · have hkq : k ∉ q := fun hkq => h.not_successor_of_queued hsucc hxq (hq ▸ List.mem_cons_of_mem _ hkq) hk
    simp [hkq, hk]
  · have hzero := List.count_eq_zero.mpr hk
    rw [hzero, FinMap.lookup_erase_ite]
    have hkq : k ∈ x :: q ↔ s.numpreds.lookup k = some 0 := by rw [← hq, h.mem_queue]
    by_cases hkx : k = x
    · subst k
      simp [hxnot, hk]
    · rw [if_neg hkx]
      simp only [List.mem_cons, hkx, false_or] at hkq
      simp [hk, hkq]

theorem popNext_ok (hnodes : ∀ k, needs targets k ≠ [] → k ∈ nodes) (h : Sorting targets nodes s)
    (hq : s.q = x :: q) :
    ∃ s', popNext successors s x q = .ok s' ∧ s'.answer = s.answer ++ [x] ∧ Sorting targets nodes s' := by
  have hxq : x ∈ s.q := by rw [hq]; exact List.mem_cons_self
  obtain ⟨hx, hxa, hdeps⟩ := h.queued hxq
  have hxmem : x ∈ s.numpreds := Finmap.mem_iff.mpr ⟨0, (h.mem_queue x).mp hxq⟩
  obtain ⟨m', added, hrun, hlookup, hand, hadded⟩ := knockDown_all (q := q) (h.counts_suffice hsucc hnodes hxq)
  refine ⟨{ numpreds := m', q := q ++ added, answer := s.answer ++ [x] }, ?_, rfl, ?_⟩
  · rw [popNext, if_pos hxmem]
    show (((successors.lookup x).getD []).foldlM knockDown (s.numpreds.erase x, q)).bind _ = _
    rw [show (successors.lookup x).getD [] = successorsOf successors x from rfl, hrun]
    rfl
  refine ⟨fun k => ?_, fun k => ?_, ?_, ?_, ?_, ?_⟩
  · rw [hlookup, h.lookup_erase]
    split
    · rw [h.outside_popped hsucc hxq k, Option.map_some, Option.some_inj]
      push_cast
      omega
    · rfl
  · have hcases : (s.numpreds.erase x).lookup k = some ((successorsOf successors x).count k : Int) ↔
        m'.lookup k = some 0 := by
      rw [hlookup]
      cases (s.numpreds.erase x).lookup k with
      | none => simp
      | some n =>
        simp only [Option.map_some, Option.some_inj]
        omega
    rw [List.mem_append, hadded, ← hcases]
    exact h.queued_next hsucc hq k
  · refine List.nodup_append.mpr ⟨(List.nodup_cons.mp (hq ▸ h.nodup_queue)).2, hand, fun a haq b hb heq => ?_⟩
    subst heq
    exact h.not_successor_of_queued hsucc hxq (hq ▸ List.mem_cons_of_mem _ haq) ((hadded a).mp hb).1
  · exact List.nodup_append.mpr ⟨h.nodup, List.nodup_singleton x, by
      intro a ha b hb
      rw [List.mem_singleton.mp hb]
      exact fun heq => hxa (heq ▸ ha)⟩
  · intro k hk
    rcases List.mem_append.mp hk with hk | hk
    · exact h.mem_nodes k hk
    · rw [List.mem_singleton.mp hk]
      exact hx
  · rw [List.reverse_append, List.reverse_singleton, List.singleton_append]
    exact ⟨fun d hd => List.mem_reverse.mpr (hdeps d hd), h.covered⟩

end

/-- The answer of the loop. -/
structure Sorted (targets : Targets) (nodes : Finset Key) (answer : List Key) : Prop where
  nodup : answer.Nodup
  mem_iff : ∀ k, k ∈ answer ↔ k ∈ nodes ∧ Founded (needs targets) k
  covered : Covered (needs targets) answer.reverse

/-- With an empty queue the answer has every node that does not reach a circle: of the
    nodes that are left each needs one that is left. -/
theorem Sorting.sorted (hclosed : ∀ k ∈ nodes, ∀ d ∈ needs targets k, d ∈ nodes) (h : Sorting targets nodes s)
    (hq : s.q = []) : Sorted targets nodes s.answer where
  nodup := h.nodup
  covered := h.covered
  mem_iff k := by
    constructor
    · intro hk
      refine ⟨h.mem_nodes k hk, ?_⟩
      have hall : ∀ l : List Key, Covered (needs targets) l → ∀ k ∈ l, Founded (needs targets) k := by
        intro l hl
        induction l with
        | nil => nofun
        | cons x l ih =>
          intro k hk
          rcases List.mem_cons.mp hk with rfl | hk
          · exact Acc.intro _ fun d hd => ih hl.2 d (hl.1 d hd)
          · exact ih hl.2 k hk
      exact hall _ h.covered k (List.mem_reverse.mpr hk)
    · rintro ⟨hk, hfounded⟩
      by_contra hnot
      have hrest : k ∈ {k | k ∈ nodes ∧ k ∉ s.answer} := ⟨hk, hnot⟩
      obtain ⟨y, ⟨hy, hya⟩, hready⟩ := exists_ready hrest hfounded
      have hzero : outside s.answer (needs targets y) = 0 := by
        rw [outside_eq_zero_iff]
        intro d hd
        by_contra hda
        exact hready d hd ⟨hclosed y hy d hd, hda⟩
      have hqueued : y ∈ s.q := by
        rw [h.mem_queue, h.numpreds, if_pos ⟨hy, hya⟩, hzero]
        rfl
      rw [hq] at hqueued
      cases hqueued

theorem sortLoop_ok (hnodes : ∀ k, needs targets k ≠ [] → k ∈ nodes)
    (hclosed : ∀ k ∈ nodes, ∀ d ∈ needs targets k, d ∈ nodes)
    (hsucc : ∀ x y, (successorsOf successors x).count y = (needs targets y).count x) {rounds : Nat}
    (h : Sorting targets nodes s) (hrounds : nodes.card ≤ rounds + s.answer.length) :
    ∃ answer, sortLoop successors rounds s = .ok answer ∧ Sorted targets nodes answer := by
  induction rounds generalizing s with
  | zero =>
    cases hq : s.q with
    | nil => exact ⟨s.answer, by rw [sortLoop, hq], h.sorted hclosed hq⟩
    | cons x q =>
      -- all nodes are in the answer, so none is queued
      obtain ⟨hx, hxa, -⟩ := h.queued (x := x) (by rw [hq]; exact List.mem_cons_self)
      have hsub : s.answer.toFinset ⊂ nodes := by
        rw [Finset.ssubset_iff_of_subset fun k hk => h.mem_nodes k (List.mem_toFinset.mp hk)]
        exact ⟨x, hx, fun hxa' => hxa (List.mem_toFinset.mp hxa')⟩
      have hlt := Finset.card_lt_card hsub
      rw [List.toFinset_card_of_nodup h.nodup] at hlt
      omega
  | succ rounds ih =>
    cases hq : s.q with
    | nil => exact ⟨s.answer, by rw [sortLoop, hq], h.sorted hclosed hq⟩
    | cons x q =>
      obtain ⟨s', hpop, hanswer, hs'⟩ := popNext_ok hsucc hnodes h hq
      obtain ⟨answer, hrun, hsorted⟩ := ih hs' (by rw [hanswer, List.length_append, List.length_singleton]; omega)
      refine ⟨answer, ?_, hsorted⟩
      rw [sortLoop, hq]
      show (popNext successors s x q).bind _ = _
      rw [hpop]
      exact hrun

/-- What the successors are: the dependencies turned round. -/
structure Transposed (targets : Targets) (order : List Key) (successors : FinMap Key (List Key)) : Prop where
  mem : ∀ k ∈ order, k ∈ successors
  count : ∀ x y, (successorsOf successors x).count y = (needs targets y).count x

theorem topologicalSort_ok (horder : KeyOrder order targets)
    (hready : KeyOrder ready (countPreds targets order).numpreds) :
    ∃ answer successors, topologicalSort targets order ready = .ok (answer, successors) ∧
      Transposed targets order successors ∧
      answer.Nodup ∧ Covered (needs targets) answer.reverse ∧
      ∀ k, k ∈ answer ↔ (k ∈ targets ∨ ∃ second, k ∈ needs targets second) ∧ Founded (needs targets) k := by
  have hcounted : Counted targets order (countPreds targets order) := counted_countPreds horder.1
  have hneeds (k : Key) (hk : k ∉ order) : needs targets k = [] := by
    rw [List.eq_nil_iff_forall_not_mem]
    exact fun d hd => hk ((horder.2 k).mpr (mem_of_needs hd))
  have hsome {k : Key} : (∃ second ∈ order, k ∈ needs targets second) ↔ ∃ second, k ∈ needs targets second := by
    refine exists_congr fun second => and_iff_right_of_imp fun hks => ?_
    exact (horder.2 second).mpr (mem_of_needs hks)
  have hmem (k : Key) : k ∈ (countPreds targets order).numpreds.keys ↔
      k ∈ targets ∨ ∃ second, k ∈ needs targets second := by
    rw [Finmap.mem_keys, Finmap.mem_iff, hcounted.numpreds, ← horder.2]
    by_cases hk : k ∈ order
    · simp [hk]
    · by_cases hn : ∃ second, k ∈ needs targets second
      · simp [hk, hsome, hn]
      · simp [hk, hsome, hn]
  have hsucc (x y : Key) :
      (successorsOf (countPreds targets order).successors x).count y = (needs targets y).count x := by
    rw [hcounted.successors]
    split
    · rfl
    · rename_i hy
      rw [hneeds y hy, List.count_nil]
  have hstart : Sorting targets (countPreds targets order).numpreds.keys
      { numpreds := (countPreds targets order).numpreds
        q := ready.filter fun k => (countPreds targets order).numpreds.lookup k = some 0 } := by
    refine ⟨fun k => ?_, fun k => ?_, hready.1.filter _, List.nodup_nil, nofun, trivial⟩
    · rw [hcounted.numpreds]
      by_cases hk : k ∈ order
      · rw [if_pos hk, if_pos ⟨(hmem k).mpr (.inl ((horder.2 k).mp hk)), List.not_mem_nil⟩]
        simp [outside]
      · rw [if_neg hk, hneeds k hk]
        refine if_congr ?_ rfl rfl
        rw [hmem, ← hsome, or_iff_right fun hkt => hk ((horder.2 k).mpr hkt)]
        exact (and_iff_left List.not_mem_nil).symm
    · simp only [List.mem_filter, decide_eq_true_eq, and_iff_right_iff_imp]
      exact fun hk => (hready.2 k).mpr (Finmap.mem_iff.mpr ⟨0, hk⟩)
  have hnodes : ∀ k, needs targets k ≠ [] → k ∈ (countPreds targets order).numpreds.keys := by
    intro k hk
    obtain ⟨d, hd⟩ := List.exists_mem_of_ne_nil _ hk
    exact (hmem k).mpr (.inl (mem_of_needs hd))
  have hrounds : (countPreds targets order).numpreds.keys.card ≤
      (countPreds targets order).numpreds.keys.card + ([] : List Key).length := Nat.le_add_right _ _
  obtain ⟨answer, hrun, hsorted⟩ :=
    sortLoop_ok hnodes (fun k _ d hd => (hmem d).mpr (.inr ⟨k, hd⟩)) hsucc hstart hrounds
  refine ⟨answer, (countPreds targets order).successors, ?_, ⟨hcounted.mem_successors, hsucc⟩, hsorted.nodup,
    hsorted.covered, fun k => by rw [hsorted.mem_iff, hmem]⟩
  rw [topologicalSort, hrun]
  rfl

/-! ## Analysing the targets -/

/-- The targets as they are left, the sorted keys, and who depends on each target. -/
def analyzeDeps (limit : Nat) (order ready : List Key) (targets : Targets) :
    Except Stop (Targets × List Key × FinMap Key (List Key)) := do
  let expanded ← expandDeps limit order targets
  let (answer, successors) ← topologicalSort expanded order ready
  return (expanded, answer, successors)

variable {expanded : Targets}

theorem ExpansionOf.mem_iff (h : ExpansionOf targets expanded) {k : Key} : k ∈ expanded ↔ k ∈ targets := by
  rw [← not_iff_not, ← Finmap.lookup_eq_none, ← Finmap.lookup_eq_none]
  exact (h k).1

theorem ExpansionOf.expands (h : ExpansionOf targets expanded) {k : Key} (hk : k ∈ targets) :
    Expands (needs targets) k (needs expanded k) := by
  obtain ⟨target, htarget⟩ := Finmap.mem_iff.mp hk
  obtain ⟨l, hl, hlookup⟩ := (h k).2 target htarget
  rwa [needs_eq hlookup]

theorem ExpansionOf.needs_iff (h : ExpansionOf targets expanded) {k d : Key} :
    d ∈ needs expanded k ↔ DependsOn (needs targets) k d := by
  by_cases hk : k ∈ targets
  · exact (h.expands hk).mem_iff
  · constructor
    · intro hd
      exact absurd (h.mem_iff.mp (mem_of_needs hd)) hk
    · intro hd
      obtain ⟨e, he, -⟩ := dependsOn_cases.mp hd
      exact absurd (mem_of_needs he) hk

theorem WellFormed.mem_of_dependsOn (hw : WellFormed targets) {k d : Key} (h : DependsOn (needs targets) k d) :
    d ∈ targets := by
  induction h with
  | single hd => exact (hw.allowed k (mem_of_needs hd) _ hd).mem
  | tail _ hd ih => exact (hw.allowed _ ih _ hd).mem

theorem ExpansionOf.founded (h : ExpansionOf targets expanded) (hw : WellFormed targets) {k : Key} (hk : k ∈ targets) :
    Founded (needs expanded) k := by
  have hacc : Acc (Relation.TransGen fun d x => d ∈ needs targets x) k := (hw.founded k hk).transGen
  refine Subrelation.accessible (fun {d x} hd => ?_) hacc
  have hswap : Relation.TransGen (Function.swap fun d x => d ∈ needs targets x) x d := h.needs_iff.mp hd
  exact Relation.transGen_swap.mp hswap

/-- What an analysis leaves: each target with all that it depends on, each key once and
    after those of its dependencies, and under each key those that depend on it. -/
structure Analysed (targets : Targets) (order : List Key) (expanded : Targets) (answer : List Key)
    (successors : FinMap Key (List Key)) : Prop where
  expansion : ExpansionOf targets expanded
  perm : answer.Perm order
  sorted : ∀ before x after, answer = before ++ x :: after → ∀ y, DependsOn (needs targets) x y → y ∈ before
  successors : ∀ x ∈ targets, ∃ l, successors.lookup x = some l ∧ l.Nodup ∧ ∀ y, y ∈ l ↔ DependsOn (needs targets) y x

theorem topologicalSort_expanded (hw : WellFormed targets) (he : ExpansionOf targets expanded)
    (horder : KeyOrder order targets) (hready : KeyOrder ready targets) :
    ∃ answer successors, topologicalSort expanded order ready = .ok (answer, successors) ∧
      Analysed targets order expanded answer successors := by
  have horder' : KeyOrder order expanded := ⟨horder.1, fun k => by rw [he.mem_iff]; exact horder.2 k⟩
  have hnode (k : Key) : (k ∈ expanded ∨ ∃ second, k ∈ needs expanded second) ↔ k ∈ targets := by
    rw [he.mem_iff, or_iff_left_iff_imp]
    rintro ⟨second, hk⟩
    exact hw.mem_of_dependsOn (he.needs_iff.mp hk)
  have hcounted : Counted expanded order (countPreds expanded order) := counted_countPreds horder.1
  have hready' : KeyOrder ready (countPreds expanded order).numpreds := by
    refine ⟨hready.1, fun k => ?_⟩
    rw [hready.2, ← horder.2, Finmap.mem_iff, hcounted.numpreds]
    by_cases hk : k ∈ order
    · simp [hk]
    · have hnot : ¬ ∃ second ∈ order, k ∈ needs expanded second := by
        rintro ⟨second, -, hks⟩
        exact hk ((horder.2 k).mpr ((hnode k).mp (.inr ⟨second, hks⟩)))
      simp [hk, hnot]
  obtain ⟨answer, successors, hrun, htransposed, hnd, hcovered, hmem⟩ := topologicalSort_ok horder' hready'
  refine ⟨answer, successors, hrun, he, ?_, ?_, ?_⟩
  · refine (List.perm_ext_iff_of_nodup hnd horder.1).mpr fun k => ?_
    rw [hmem, hnode, horder.2]
    exact ⟨fun h => h.1, fun hk => ⟨hk, he.founded hw hk⟩⟩
  · intro before x after heq y hy
    rw [heq, List.reverse_append, List.reverse_cons, List.append_assoc, List.singleton_append] at hcovered
    exact List.mem_reverse.mp (hcovered.of_append.1 y (he.needs_iff.mpr hy))
  · intro x hx
    obtain ⟨l, hl⟩ := Finmap.mem_iff.mp (htransposed.mem x ((horder.2 x).mpr hx))
    have hcount (y : Key) : l.count y = (needs expanded y).count x := by
      rw [← htransposed.count x y, successorsOf, hl, Option.getD_some]
    refine ⟨l, hl, ?_, fun y => ?_⟩
    · rw [List.nodup_iff_count_le_one]
      intro y
      rw [hcount]
      by_cases hy : y ∈ targets
      · exact List.nodup_iff_count_le_one.mp (he.expands hy).nodup x
      · rw [List.count_eq_zero.mpr fun hxy => hy (he.mem_iff.mp (mem_of_needs hxy))]
        exact Nat.zero_le 1
    · rw [← List.count_pos_iff, hcount, List.count_pos_iff]
      exact he.needs_iff

theorem analyzeDeps_of_expandDeps (horder : KeyOrder order targets) (hready : KeyOrder ready targets) {limit : Nat}
    (h : expandDeps limit order targets = .ok expanded) :
    ∃ answer successors, analyzeDeps limit order ready targets = .ok (expanded, answer, successors) ∧
      Analysed targets order expanded answer successors := by
  obtain ⟨he, hw⟩ := expandDeps_ok horder h
  obtain ⟨answer, successors, hsort, hanalysed⟩ := topologicalSort_expanded hw he horder hready
  refine ⟨answer, successors, ?_, hanalysed⟩
  rw [analyzeDeps, h]
  show (topologicalSort expanded order ready).bind _ = _
  rw [hsort]
  rfl

theorem analyzeDeps_error {limit : Nat} {e : Stop} (horder : KeyOrder order targets) (hready : KeyOrder ready targets)
    (h : analyzeDeps limit order ready targets = .error e) : expandDeps limit order targets = .error e := by
  cases hexpand : expandDeps limit order targets with
  | error e' =>
    rw [analyzeDeps, hexpand] at h
    cases h
    rfl
  | ok expanded =>
    obtain ⟨answer, successors, hok, -⟩ := analyzeDeps_of_expandDeps horder hready hexpand
    rw [hok] at h
    cases h

/-- Where no chain of targets is deeper than the limit, the analysis succeeds exactly for
    well-formed targets. When it succeeds it is right, for any orders of the dictionaries.
    What it reports otherwise is there. -/
theorem analyze_deps_iff {limit : Nat} (horder : KeyOrder order targets) (hready : KeyOrder ready targets) :
    (Shallow targets limit → ((∃ r, analyzeDeps limit order ready targets = .ok r) ↔ WellFormed targets)) ∧
    (∀ expanded answer successors, analyzeDeps limit order ready targets = .ok (expanded, answer, successors) →
      WellFormed targets ∧ Analysed targets order expanded answer successors) ∧
    ∀ e, analyzeDeps limit order ready targets = .error e → Real targets limit e := by
  have hexpand : ∀ r, analyzeDeps limit order ready targets = .ok r →
      ∃ expanded, expandDeps limit order targets = .ok expanded := by
    intro r hr
    cases h : expandDeps limit order targets with
    | error e =>
      rw [analyzeDeps, h] at hr
      cases hr
    | ok expanded => exact ⟨expanded, rfl⟩
  refine ⟨fun hlimit => ?_, fun expanded answer successors h => ?_, fun e h => ?_⟩
  · rw [← expandDeps_ok_iff hlimit horder]
    constructor
    · rintro ⟨r, hr⟩
      exact hexpand r hr
    · rintro ⟨expanded, he⟩
      obtain ⟨answer, successors, h, -⟩ := analyzeDeps_of_expandDeps horder hready he
      exact ⟨_, h⟩
  · obtain ⟨expanded', he⟩ := hexpand _ h
    obtain ⟨answer', successors', h', hanalysed⟩ := analyzeDeps_of_expandDeps horder hready he
    rw [h'] at h
    cases h
    exact ⟨(expandDeps_ok horder he).2, hanalysed⟩
  · exact expandDeps_error horder (analyzeDeps_error horder hready h)

/-! ## An example -/

/-- A binary on two libraries that share a third. -/
def diamond : Targets :=
  FinMap.insertAll ∅
    [(("app", "main"), { expandedDeps := [("lib", "a"), ("lib", "b")] }),
      (("lib", "a"), { expandedDeps := [("base", "c")] }),
      (("lib", "b"), { expandedDeps := [("base", "c")] }),
      (("base", "c"), { visibility := some [("lib", "a"), ("lib", "b")] })]

def diamondKeys : List Key := [("lib", "a"), ("app", "main"), ("base", "c"), ("lib", "b")]

theorem keyOrder_diamond : KeyOrder diamondKeys diamond := by
  refine ⟨by decide, fun k => ?_⟩
  rw [← Finmap.mem_keys, ← List.mem_toFinset]
  have hkeys : diamondKeys.toFinset = diamond.keys := by decide
  rw [hkeys]

example : (analyzeDeps 5 diamondKeys diamondKeys diamond).map (fun r => (needs r.1 ("app", "main"), r.2.1)) =
    .ok ([("lib", "a"), ("lib", "b"), ("base", "c")],
      [("base", "c"), ("lib", "a"), ("lib", "b"), ("app", "main")]) := by
  decide

theorem analyze_deps_diamond : WellFormed diamond ∧ ∃ expanded answer successors,
    Analysed diamond diamondKeys expanded answer successors := by
  have hok : (analyzeDeps 5 diamondKeys diamondKeys diamond).toOption.isSome = true := by decide
  have hlimit : Shallow diamond 5 := shallow_of_card (by decide)
  obtain ⟨hiff, hright, -⟩ := analyze_deps_iff keyOrder_diamond keyOrder_diamond
  cases h : analyzeDeps 5 diamondKeys diamondKeys diamond with
  | error e =>
    rw [h] at hok
    cases hok
  | ok r => exact ⟨(hiff hlimit).mp ⟨r, h⟩, r.1, r.2.1, r.2.2, (hright _ _ _ h).2⟩

end PredictorService.BuildTools.DependencyAnalyzer
