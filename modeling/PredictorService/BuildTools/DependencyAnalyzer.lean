/-
  PredictorService.BuildTools.DependencyAnalyzer — what the targets of a build depend on
  (build_tools/typhoon-blade/src/blade/dependency_analyzer.py).

  `analyze_deps` gets a dictionary of targets, each with its direct dependencies. It replaces
  them by all that the target depends on (`expandDeps`, a depth-first search with a cache and
  a check for loops and for visibility), and then sorts the targets so that each comes after
  its dependencies (`topologicalSort`).

  The orders in which Python iterates over its dictionaries are parameters. A search deeper
  than `limit` calls is the interpreter's recursion limit.

  - `findAllDeps_ok`, `findAllDeps_of_wellFormed`, `findAllDeps_error`: one search.
  - `expandDeps_ok_iff`: all targets are expanded iff no target reaches itself and each
    dependency is there and visible, where no chain of targets is longer than the limit
    (`Shallow`); then each has the one list that the graph gives it, whatever the order of
    the dictionary. What is reported otherwise is there (`Real`).

  `_expand_deps_generation`, which marks what is generated for a target's dependencies, is
  left out.
-/

import PredictorService.Lib.Dag
import PredictorService.Lib.FinMap

namespace PredictorService.BuildTools

open PredictorService.Lib
open PredictorService.Lib.Dag

/-- The path of a target's BUILD file and its name. -/
abbrev Key := String × String

instance : LawfulBEq Key := inferInstance

structure Target where
  type : String := ""
  deps : List Key := []
  expandedDeps : List Key := []
  /-- `none` is `'PUBLIC'`. -/
  visibility : Option (List Key) := none
  deriving DecidableEq

abbrev Targets := FinMap Key Target

abbrev Cache := FinMap Key (List Key)

/-- What ends the program. -/
inductive Stop where
  | loopDependency (dep : Key)
  /-- The message of the exit names a variable that is not bound. -/
  | missing (dep : Key)
  | notVisible (target dep : Key)
  | keyError
  | recursionLimit
  /-- A loop has not ended after so many rounds. -/
  | running
  deriving DecidableEq

namespace DependencyAnalyzer

def checkDepVisibility (target dep : Key) (targets : Targets) : Except Stop Unit :=
  match targets.lookup dep with
  | none => .error (.missing dep)
  | some d =>
    -- targets of one BUILD file see each other
    if target.1 = dep.1 then .ok ()
    else
      match d.visibility with
      | none => .ok ()
      | some visibility => if target ∈ visibility then .ok () else .error (.notVisible target dep)

/-- From the end of the list to its front, what has not been seen. -/
def uniqueDeps (newDepsList : List Key) : List Key :=
  (newDepsList.reverse.foldl (fun result dep => if dep ∈ result then result else result ++ [dep]) []).reverse

/-- The loop over a target's dependencies; `find` is the call for one of them. -/
def depsLoop (targets : Targets) (targetId : Key) (rootTargets : Finset Key)
    (find : Key → Cache → Except Stop (List Key × Cache)) :
    List Key → List Key × Cache → Except Stop (List Key × Cache)
  | [], acc => .ok acc
  | d :: ds, (newDepsList, cache) =>
    if d ∈ rootTargets then .error (.loopDependency d)
    else do
      checkDepVisibility targetId d targets
      let (l, cache) ← find d cache
      depsLoop targets targetId rootTargets find ds (newDepsList ++ d :: l, cache)

def findAllDeps (targets : Targets) : Nat → Key → Cache → Finset Key → Except Stop (List Key × Cache)
  | 0, _, _, _ => .error .recursionLimit
  | limit + 1, targetId, cache, rootTargets =>
    match cache.lookup targetId with
    | some newDepsList => .ok (newDepsList, cache)
    | none =>
      match targets.lookup targetId with
      | none => .error .keyError
      | some target => do
        let roots := insert targetId rootTargets
        let (newDepsList, cache) ← depsLoop targets targetId roots
          (fun d cache => findAllDeps targets limit d cache roots) target.expandedDeps ([], cache)
        let newDepsList := uniqueDeps newDepsList
        return (newDepsList, cache.insert targetId newDepsList)

/-- One round of `_expand_deps`. -/
def expandOne (limit : Nat) (s : Targets × Cache) (targetId : Key) : Except Stop (Targets × Cache) :=
  match s.1.lookup targetId with
  | none => .error .keyError
  | some target => do
    let (expanded, cache) ← findAllDeps s.1 limit targetId s.2 ∅
    return (s.1.insert targetId { target with expandedDeps := expanded }, cache)

/-- `order` is that of the dictionary. -/
def expandDeps (limit : Nat) (order : List Key) (targets : Targets) : Except Stop Targets :=
  (order.foldlM (expandOne limit) (targets, ∅)).map Prod.fst

/-! ## What is asked of the targets -/

/-- What a target needs itself. -/
def needs (targets : Targets) (k : Key) : List Key := (targets.lookup k).elim [] (·.expandedDeps)

/-- `dep` is there, and `target` may depend on it. -/
def Allowed (targets : Targets) (target dep : Key) : Prop :=
  ∃ d, targets.lookup dep = some d ∧
    (target.1 = dep.1 ∨ ∀ visibility, d.visibility = some visibility → target ∈ visibility)

theorem checkDepVisibility_ok_iff {targets : Targets} {target dep : Key} :
    checkDepVisibility target dep targets = .ok () ↔ Allowed targets target dep := by
  unfold checkDepVisibility Allowed
  cases h : targets.lookup dep with
  | none => simp
  | some d =>
    simp only [Option.some.injEq, exists_eq_left']
    by_cases hpath : target.1 = dep.1
    · simp [hpath]
    · cases hv : d.visibility with
      | none => simp [hpath]
      | some visibility => by_cases hmem : target ∈ visibility <;> simp [hpath, hmem]

/-- Every dependency is there and visible, and no target depends on itself. -/
structure WellFormed (targets : Targets) : Prop where
  allowed : ∀ k ∈ targets, ∀ d ∈ needs targets k, Allowed targets k d
  acyclic : ∀ k ∈ targets, ¬ DependsOn (needs targets) k k

theorem uniqueDeps_eq (l : List Key) : uniqueDeps l = l.dedup := by
  have hfold : l.foldr (fun dep result => if dep ∈ result then result else result ++ [dep]) [] = l.dedup.reverse := by
    induction l with
    | nil => rfl
    | cons d l ih =>
      rw [List.foldr_cons, ih]
      by_cases hd : d ∈ l
      · rw [List.dedup_cons_of_mem hd, if_pos (by simpa using hd)]
      · rw [List.dedup_cons_of_notMem hd, if_neg (by simpa using hd), List.reverse_cons]
  rw [uniqueDeps, List.foldl_reverse, hfold, List.reverse_reverse]

theorem needs_eq {targets : Targets} {k : Key} {target : Target} (h : targets.lookup k = some target) :
    needs targets k = target.expandedDeps := by
  rw [needs, h, Option.elim_some]

theorem mem_of_needs {targets : Targets} {k d : Key} (h : d ∈ needs targets k) : k ∈ targets := by
  rw [Finmap.mem_iff]
  cases hk : targets.lookup k with
  | none => simp [needs, hk] at h
  | some target => exact ⟨target, rfl⟩

theorem Allowed.mem {targets : Targets} {target dep : Key} (h : Allowed targets target dep) : dep ∈ targets := by
  obtain ⟨d, hd, -⟩ := h
  exact Finmap.mem_iff.mpr ⟨d, hd⟩

theorem WellFormed.founded {targets : Targets} (h : WellFormed targets) : ∀ k ∈ targets, Founded (needs targets) k := by
  have hclosed : ∀ k ∈ targets.keys, ∀ d ∈ needs targets k, d ∈ targets.keys := by
    intro k hk d hd
    exact Finmap.mem_keys.mpr (h.allowed k (Finmap.mem_keys.mp hk) d hd).mem
  have hacyclic : ∀ k ∈ targets.keys, ¬ DependsOn (needs targets) k k := fun k hk => h.acyclic k (Finmap.mem_keys.mp hk)
  exact fun k hk => founded_of_acyclic hclosed hacyclic k (Finmap.mem_keys.mpr hk)

/-- Different targets, each needed by the next. -/
structure Chain (targets : Targets) (path : List Key) : Prop where
  nodup : path.Nodup
  mem : ∀ k ∈ path, k ∈ targets
  needed : path.IsChain fun d k => d ∈ needs targets k

/-- No search has to go deeper than `limit`. -/
def Shallow (targets : Targets) (limit : Nat) : Prop := ∀ path, Chain targets path → path.length ≤ limit

theorem Chain.length_le {targets : Targets} {path : List Key} (h : Chain targets path) :
    path.length ≤ targets.keys.card := by
  rw [← List.toFinset_card_of_nodup h.nodup]
  exact Finset.card_le_card fun k hk => Finmap.mem_keys.mpr (h.mem k (List.mem_toFinset.mp hk))

theorem shallow_of_card {targets : Targets} {limit : Nat} (h : targets.keys.card ≤ limit) : Shallow targets limit :=
  fun _ hpath => hpath.length_le.trans h

theorem chain_single {targets : Targets} {k : Key} (hk : k ∈ targets) : Chain targets [k] where
  nodup := List.nodup_singleton k
  mem _ ha := List.mem_singleton.mp ha ▸ hk
  needed := .singleton k

theorem Chain.cons {targets : Targets} {path : List Key} {k d : Key} (h : Chain targets (k :: path))
    (hd : d ∈ needs targets k) (hmem : d ∈ targets) (hnew : d ∉ k :: path) : Chain targets (d :: k :: path) where
  nodup := List.nodup_cons.mpr ⟨hnew, h.nodup⟩
  mem := List.forall_mem_cons.mpr ⟨hmem, h.mem⟩
  needed := .cons_cons hd h.needed

/-- Those above depend on the deepest. -/
theorem Chain.dependsOn {targets : Targets} {path : List Key} {k r : Key} (h : Chain targets (k :: path))
    (hr : r ∈ path) : DependsOn (needs targets) r k := by
  induction path generalizing k with
  | nil => cases hr
  | cons a path ih =>
    have hneed : k ∈ needs targets a := h.needed.rel
    rcases List.mem_cons.mp hr with rfl | hr
    · exact .single hneed
    · have htail : Chain targets (a :: path) :=
        ⟨(List.nodup_cons.mp h.nodup).2, fun b hb => h.mem b (List.mem_cons_of_mem _ hb), h.needed.tail⟩
      exact (ih htail hr).tail hneed

/-! ## One search -/

/-- The cache holds the lists of targets whose own dependencies are allowed, and only targets
    that are in it have been expanded. -/
structure Consistent (targets current : Targets) (cache : Cache) : Prop where
  expands : ∀ k l, cache.lookup k = some l → Expands (needs targets) k l
  allowed : ∀ k ∈ cache, ∀ d ∈ needs targets k, Allowed targets k d
  untouched : ∀ k ∉ cache, current.lookup k = targets.lookup k
  visibility : ∀ k, (current.lookup k).map (·.visibility) = (targets.lookup k).map (·.visibility)

/-- Entries stay. -/
def Extends (cache cache' : Cache) : Prop := ∀ k l, cache.lookup k = some l → cache'.lookup k = some l

theorem Extends.mem {cache cache' : Cache} (h : Extends cache cache') {k : Key} (hk : k ∈ cache) : k ∈ cache' := by
  obtain ⟨l, hl⟩ := Finmap.mem_iff.mp hk
  exact Finmap.mem_iff.mpr ⟨l, h k l hl⟩

theorem Extends.trans {cache cache' cache'' : Cache} (h : Extends cache cache') (h' : Extends cache' cache'') :
    Extends cache cache'' := fun k l hl => h' k l (h k l hl)

/-- What the cache says that `k` depends on. -/
def cachedDeps (cache : Cache) (k : Key) : List Key := (cache.lookup k).getD []

variable {targets current : Targets} {cache cache' : Cache}

theorem Consistent.allowed_iff (h : Consistent targets current cache) {target dep : Key} :
    Allowed current target dep ↔ Allowed targets target dep := by
  have hv := h.visibility dep
  unfold Allowed
  cases hc : current.lookup dep with
  | none =>
    rw [hc, Option.map_none, eq_comm, Option.map_eq_none_iff] at hv
    simp [hv]
  | some d =>
    rw [hc, Option.map_some, eq_comm, Option.map_eq_some_iff] at hv
    obtain ⟨d', hd', hvis⟩ := hv
    simp [hd', hvis]

/-- A list that is put into the cache, for a target that needs what is in it. -/
theorem Consistent.insert (h : Consistent targets current cache) {k : Key} {l : List Key}
    (hl : Expands (needs targets) k l) (hk : ∀ d ∈ needs targets k, Allowed targets k d) :
    Consistent targets current (cache.insert k l) ∧ Extends cache (cache.insert k l) := by
  refine ⟨⟨fun a l' ha => ?_, fun a ha => ?_, fun a ha => ?_, h.visibility⟩, fun a l' ha => ?_⟩
  · rw [FinMap.lookup_insert_ite] at ha
    split at ha
    · subst a
      cases ha
      exact hl
    · exact h.expands a l' ha
  · rw [Finmap.mem_insert] at ha
    rcases ha with rfl | ha
    · exact hk
    · exact h.allowed a ha
  · rw [Finmap.mem_insert, not_or] at ha
    exact h.untouched a ha.2
  · rw [FinMap.lookup_insert_ite]
    split
    · subst a
      rw [(h.expands k l' ha).unique hl]
    · exact ha

/-- What a call of the search for a dependency does to the cache. -/
def FindSpec (targets current : Targets) (find : Key → Cache → Except Stop (List Key × Cache)) : Prop :=
  ∀ d cache l cache', Consistent targets current cache → find d cache = .ok (l, cache') →
    Consistent targets current cache' ∧ Extends cache cache' ∧ cache'.lookup d = some l

theorem depsLoop_ok {find : Key → Cache → Except Stop (List Key × Cache)} (hfind : FindSpec targets current find)
    {targetId : Key} {roots : Finset Key} {ds acc l : List Key} (hc : Consistent targets current cache)
    (h : depsLoop current targetId roots find ds (acc, cache) = .ok (l, cache')) :
    Consistent targets current cache' ∧ Extends cache cache' ∧ (∀ d ∈ ds, d ∈ cache' ∧ Allowed targets targetId d) ∧
      l = acc ++ ds.flatMap fun d => d :: cachedDeps cache' d := by
  induction ds generalizing acc cache with
  | nil =>
    cases h
    exact ⟨hc, fun _ _ hl => hl, nofun, by simp⟩
  | cons d ds ih =>
    rw [depsLoop] at h
    split at h
    · cases h
    · cases hcheck : checkDepVisibility targetId d current with
      | error e =>
        rw [hcheck] at h
        cases h
      | ok u =>
        cases hd : find d cache with
        | error e =>
          rw [hcheck, hd] at h
          cases h
        | ok r =>
          obtain ⟨ld, cached⟩ := r
          rw [hcheck, hd] at h
          obtain ⟨hcd, hext, hld⟩ := hfind d cache ld cached hc hd
          obtain ⟨hc', hext', hall, rfl⟩ := ih hcd h
          have hallowed := hc.allowed_iff.mp (checkDepVisibility_ok_iff.mp hcheck)
          have hlater : cache'.lookup d = some ld := hext' d ld hld
          refine ⟨hc', hext.trans hext', ?_, ?_⟩
          · intro e he
            rcases List.mem_cons.mp he with rfl | he
            · exact ⟨Finmap.mem_iff.mpr ⟨ld, hlater⟩, hallowed⟩
            · exact hall e he
          · rw [List.flatMap_cons, cachedDeps, hlater, Option.getD_some, List.append_assoc, List.cons_append]

/-- A search that ends has found the list that the graph gives the target. -/
theorem findAllDeps_ok {limit : Nat} {targetId : Key} {roots : Finset Key} {l : List Key}
    (hc : Consistent targets current cache) (h : findAllDeps current limit targetId cache roots = .ok (l, cache')) :
    Consistent targets current cache' ∧ Extends cache cache' ∧ cache'.lookup targetId = some l := by
  induction limit generalizing targetId cache cache' roots l with
  | zero => cases h
  | succ limit ih =>
    rw [findAllDeps] at h
    cases hcached : cache.lookup targetId with
    | some known =>
      rw [hcached] at h
      cases h
      exact ⟨hc, fun _ _ hl => hl, hcached⟩
    | none =>
      rw [hcached] at h
      cases htarget : current.lookup targetId with
      | none =>
        rw [htarget] at h
        cases h
      | some target =>
        rw [htarget] at h
        cases hloop : depsLoop current targetId (Insert.insert targetId roots)
            (fun d cache => findAllDeps current limit d cache (Insert.insert targetId roots))
            target.expandedDeps ([], cache) with
        | error e =>
          simp only [hloop] at h
          cases h
        | ok r =>
          obtain ⟨newDeps, cached⟩ := r
          simp only [hloop] at h
          cases h
          obtain ⟨hcd, hext, hall, hnew⟩ := depsLoop_ok (fun d c l c' hc hd => ih hc hd) hc hloop
          have hneeds : needs targets targetId = target.expandedDeps := by
            rw [needs, ← hc.untouched targetId (Finmap.lookup_eq_none.mp hcached), htarget, Option.elim_some]
          have hexpands : Expands (needs targets) targetId (uniqueDeps newDeps) := by
            rw [uniqueDeps_eq, hnew, List.nil_append, ← hneeds]
            refine Expands.mk targetId (cachedDeps cached) fun d hd => ?_
            obtain ⟨ld, hld⟩ := Finmap.mem_iff.mp (hall d (hneeds ▸ hd)).1
            rw [cachedDeps, hld, Option.getD_some]
            exact hcd.expands d ld hld
          obtain ⟨hci, hexti⟩ := hcd.insert hexpands fun d hd => (hall d (hneeds ▸ hd)).2
          exact ⟨hci, hext.trans hexti, Finmap.lookup_insert _⟩

theorem depsLoop_of_allowed {find : Key → Cache → Except Stop (List Key × Cache)}
    (hfind : FindSpec targets current find)
    {targetId : Key} {roots : Finset Key} {ds acc : List Key} (hc : Consistent targets current cache)
    (hds : ∀ d ∈ ds, d ∉ roots ∧ Allowed targets targetId d)
    (hends : ∀ d ∈ ds, ∀ cache, Consistent targets current cache → ∃ r, find d cache = .ok r) :
    ∃ r, depsLoop current targetId roots find ds (acc, cache) = .ok r := by
  induction ds generalizing acc cache with
  | nil => exact ⟨_, rfl⟩
  | cons d ds ih =>
    obtain ⟨hroot, hallowed⟩ := hds d List.mem_cons_self
    obtain ⟨⟨ld, cached⟩, hd⟩ := hends d List.mem_cons_self cache hc
    obtain ⟨hcd, -, -⟩ := hfind d cache ld cached hc hd
    have hrest : ∃ r, depsLoop current targetId roots find ds (acc ++ d :: ld, cached) = .ok r :=
      ih hcd (fun e he => hds e (List.mem_cons_of_mem _ he)) fun e he => hends e (List.mem_cons_of_mem _ he)
    obtain ⟨r, hr⟩ := hrest
    refine ⟨r, ?_⟩
    rw [depsLoop, if_neg hroot, checkDepVisibility_ok_iff.mpr (hc.allowed_iff.mpr hallowed), hd]
    exact hr

/-- In a well-formed graph a search ends: the targets above it depend on it, so none of them
    comes again, and with it they are a chain. -/
theorem findAllDeps_of_wellFormed (hw : WellFormed targets) {limit : Nat} {targetId : Key} {roots : Finset Key}
    {path : List Key} (hc : Consistent targets current cache) (hchain : Chain targets (targetId :: path))
    (hroots : ∀ r, r ∈ roots ↔ r ∈ path) (hlimit : Shallow targets (limit + path.length)) :
    ∃ r, findAllDeps current limit targetId cache roots = .ok r := by
  induction limit generalizing targetId cache roots path with
  | zero =>
    have hle := hlimit _ hchain
    rw [List.length_cons] at hle
    omega
  | succ limit ih =>
    rw [findAllDeps]
    cases hcached : cache.lookup targetId with
    | some known => exact ⟨_, rfl⟩
    | none =>
      have htarget := hchain.mem targetId List.mem_cons_self
      obtain ⟨target, hlookup⟩ := Finmap.mem_iff.mp htarget
      have hneeds := needs_eq hlookup
      rw [← hc.untouched targetId (Finmap.lookup_eq_none.mp hcached)] at hlookup
      have hinsert : ∀ r, r ∈ insert targetId roots ↔ r ∈ targetId :: path := by
        intro r
        rw [Finset.mem_insert, hroots, List.mem_cons]
      -- none of the targets above is needed again
      have hds : ∀ d ∈ target.expandedDeps, d ∉ insert targetId roots ∧ Allowed targets targetId d := by
        intro d hd
        rw [← hneeds] at hd
        have hallowed := hw.allowed targetId htarget d hd
        refine ⟨fun hr => ?_, hallowed⟩
        rcases List.mem_cons.mp ((hinsert d).mp hr) with rfl | hr
        · exact hw.acyclic d htarget (.single hd)
        · exact hw.acyclic d hallowed.mem ((hchain.dependsOn hr).tail hd)
      have hends : ∀ d ∈ target.expandedDeps, ∀ cache, Consistent targets current cache →
          ∃ r, findAllDeps current limit d cache (insert targetId roots) = .ok r := by
        intro d hd cache hc
        obtain ⟨hnew, hallowed⟩ := hds d hd
        rw [hinsert] at hnew
        refine ih hc (hchain.cons (hneeds ▸ hd) hallowed.mem hnew) hinsert ?_
        rw [List.length_cons, Nat.add_comm path.length, ← Nat.add_assoc]
        exact hlimit
      have hloop : ∃ r, depsLoop current targetId (insert targetId roots)
          (fun d cache => findAllDeps current limit d cache (insert targetId roots)) target.expandedDeps ([], cache) =
            .ok r :=
        depsLoop_of_allowed (fun d c l c' hc hd => findAllDeps_ok hc hd) hc hds hends
      obtain ⟨r, hr⟩ := hloop
      simp only [hlookup, hr]
      exact ⟨_, rfl⟩

/-! ## What is reported -/

/-- There is such a fault in the targets. -/
inductive Real (targets : Targets) (limit : Nat) : Stop → Prop
  | loopDependency (d : Key) : DependsOn (needs targets) d d → Real targets limit (.loopDependency d)
  | missing (k d : Key) : d ∈ needs targets k → d ∉ targets → Real targets limit (.missing d)
  | notVisible (k d : Key) : d ∈ needs targets k → d ∈ targets → ¬ Allowed targets k d →
      Real targets limit (.notVisible k d)
  | recursionLimit (path : List Key) : Chain targets path → limit < path.length → Real targets limit .recursionLimit

theorem checkDepVisibility_error {limit : Nat} {targetId d : Key} {e : Stop} (hc : Consistent targets current cache)
    (hd : d ∈ needs targets targetId) (h : checkDepVisibility targetId d current = .error e) :
    Real targets limit e := by
  have hnot : ¬ Allowed targets targetId d := by
    rw [← hc.allowed_iff, ← checkDepVisibility_ok_iff, h]
    nofun
  have hv := hc.visibility d
  unfold checkDepVisibility at h
  cases hlookup : current.lookup d with
  | none =>
    rw [hlookup, Option.map_none, eq_comm, Option.map_eq_none_iff] at hv
    rw [hlookup] at h
    cases h
    exact .missing targetId d hd (Finmap.lookup_eq_none.mp hv)
  | some target =>
    have hmem : d ∈ targets := by
      rw [hlookup, Option.map_some, eq_comm, Option.map_eq_some_iff] at hv
      obtain ⟨target', htarget', -⟩ := hv
      exact Finmap.mem_iff.mpr ⟨target', htarget'⟩
    simp only [hlookup] at h
    split at h
    · cases h
    · cases hvis : target.visibility with
      | none =>
        simp only [hvis] at h
        cases h
      | some visibility =>
        simp only [hvis] at h
        split at h
        · cases h
        · cases h
          exact .notVisible targetId d hd hmem hnot

theorem depsLoop_error {limit : Nat} {find : Key → Cache → Except Stop (List Key × Cache)}
    (hfind : FindSpec targets current find) {targetId : Key} {roots : Finset Key} {ds acc : List Key} {e : Stop}
    (hc : Consistent targets current cache) (hds : ∀ d ∈ ds, d ∈ needs targets targetId)
    (hroots : ∀ r ∈ roots, r = targetId ∨ DependsOn (needs targets) r targetId)
    (herror : ∀ d ∈ ds, d ∉ roots → d ∈ targets → ∀ cache, Consistent targets current cache →
      find d cache = .error e → Real targets limit e)
    (h : depsLoop current targetId roots find ds (acc, cache) = .error e) : Real targets limit e := by
  induction ds generalizing acc cache with
  | nil => cases h
  | cons d ds ih =>
    have hd := hds d List.mem_cons_self
    rw [depsLoop] at h
    split at h
    · rename_i hroot
      cases h
      refine .loopDependency d ?_
      rcases hroots d hroot with rfl | hr
      · exact .single hd
      · exact hr.tail hd
    · rename_i hroot
      cases hcheck : checkDepVisibility targetId d current with
      | error e' =>
        rw [hcheck] at h
        cases h
        exact checkDepVisibility_error hc hd hcheck
      | ok u =>
        have hallowed := hc.allowed_iff.mp (checkDepVisibility_ok_iff.mp hcheck)
        cases hrun : find d cache with
        | error e' =>
          rw [hcheck, hrun] at h
          cases h
          exact herror d List.mem_cons_self hroot hallowed.mem cache hc hrun
        | ok r =>
          obtain ⟨ld, cached⟩ := r
          rw [hcheck, hrun] at h
          obtain ⟨hcd, -, -⟩ := hfind d cache ld cached hc hrun
          exact ih hcd (fun a ha => hds a (List.mem_cons_of_mem _ ha))
            (fun a ha => herror a (List.mem_cons_of_mem _ ha)) h

/-- A search of `depth` calls below the targets of `path`. -/
theorem findAllDeps_error {depth limit : Nat} {targetId : Key} {roots : Finset Key} {path : List Key} {e : Stop}
    (hc : Consistent targets current cache) (hchain : Chain targets (targetId :: path))
    (hroots : ∀ r, r ∈ roots ↔ r ∈ path) (hdepth : limit = depth + path.length)
    (h : findAllDeps current depth targetId cache roots = .error e) : Real targets limit e := by
  induction depth generalizing targetId cache roots path with
  | zero =>
    cases h
    refine .recursionLimit _ hchain ?_
    rw [List.length_cons]
    omega
  | succ depth ih =>
    rw [findAllDeps] at h
    cases hcached : cache.lookup targetId with
    | some known =>
      rw [hcached] at h
      cases h
    | none =>
      obtain ⟨target, hlookup⟩ := Finmap.mem_iff.mp (hchain.mem targetId List.mem_cons_self)
      have hneeds := needs_eq hlookup
      rw [← hc.untouched targetId (Finmap.lookup_eq_none.mp hcached)] at hlookup
      have hinsert : ∀ r, r ∈ insert targetId roots ↔ r ∈ targetId :: path := by
        intro r
        rw [Finset.mem_insert, hroots, List.mem_cons]
      cases hloop : depsLoop current targetId (insert targetId roots)
          (fun d cache => findAllDeps current depth d cache (insert targetId roots)) target.expandedDeps
          ([], cache) with
      | ok r =>
        simp only [hcached, hlookup, hloop] at h
        cases h
      | error e' =>
        simp only [hcached, hlookup, hloop] at h
        cases h
        refine depsLoop_error (fun d c l c' hc hd => findAllDeps_ok hc hd) hc (fun d hd => hneeds ▸ hd) ?_ ?_ hloop
        · intro r hr
          exact (List.mem_cons.mp ((hinsert r).mp hr)).imp_right hchain.dependsOn
        · intro d hd hroot hdt cache hc hrun
          rw [hinsert] at hroot
          refine ih hc (hchain.cons (hneeds ▸ hd) hdt hroot) hinsert ?_ hrun
          rw [List.length_cons]
          omega

/-! ## All targets -/

theorem consistent_empty (targets : Targets) : Consistent targets targets ∅ where
  expands k l h := by
    rw [Finmap.lookup_empty] at h
    cases h
  allowed k hk := absurd hk (Finmap.notMem_empty)
  untouched k _ := rfl
  visibility k := rfl

/-- The targets of the cache have been expanded or will be. -/
theorem expandOne_ok {limit : Nat} {targetId : Key} {current' : Targets} (hc : Consistent targets current cache)
    (h : expandOne limit (current, cache) targetId = .ok (current', cache')) :
    Consistent targets current' cache' ∧ targetId ∈ cache' ∧ Extends cache cache' ∧
      ∃ target l, current.lookup targetId = some target ∧ cache'.lookup targetId = some l ∧
        current' = current.insert targetId { target with expandedDeps := l } := by
  rw [expandOne] at h
  cases htarget : current.lookup targetId with
  | none =>
    rw [htarget] at h
    cases h
  | some target =>
    cases hfind : findAllDeps current limit targetId cache ∅ with
    | error e =>
      simp only [htarget, hfind] at h
      cases h
    | ok r =>
      obtain ⟨l, cached⟩ := r
      simp only [htarget, hfind] at h
      cases h
      obtain ⟨hcf, hext, hl⟩ := findAllDeps_ok hc hfind
      have hmem : targetId ∈ cached := Finmap.mem_iff.mpr ⟨l, hl⟩
      refine ⟨⟨hcf.expands, hcf.allowed, fun k hk => ?_, fun k => ?_⟩, hmem, hext, target, l, rfl, hl, rfl⟩
      · have hne : k ≠ targetId := fun heq => hk (heq ▸ hmem)
        rw [FinMap.lookup_insert_ite, if_neg hne]
        exact hcf.untouched k hk
      · rw [← hcf.visibility k, FinMap.lookup_insert_ite]
        split
        · subst k
          rw [htarget]
          rfl
        · rfl

/-- After the rounds `done` these are expanded, and nothing else has changed. -/
def Expanded (targets current : Targets) (done : List Key) : Prop :=
  ∀ k, (k ∈ done → ∃ target l, targets.lookup k = some target ∧ Expands (needs targets) k l ∧
      current.lookup k = some { target with expandedDeps := l }) ∧
    (k ∉ done → current.lookup k = targets.lookup k)

theorem expanded_nil (targets : Targets) : Expanded targets targets [] :=
  fun _ => ⟨fun hk => absurd hk List.not_mem_nil, fun _ => rfl⟩

theorem Expanded.lookup {done : List Key} (he : Expanded targets current done) {k : Key} (hk : k ∈ targets) :
    ∃ target, current.lookup k = some target := by
  obtain ⟨origin, horigin⟩ := Finmap.mem_iff.mp hk
  by_cases hd : k ∈ done
  · obtain ⟨_, _, -, -, hcurrent⟩ := (he k).1 hd
    exact ⟨_, hcurrent⟩
  · exact ⟨origin, ((he k).2 hd).trans horigin⟩

theorem Expanded.snoc {limit : Nat} {targetId : Key} {current' : Targets} {done : List Key}
    (hc : Consistent targets current cache) (he : Expanded targets current done)
    (h : expandOne limit (current, cache) targetId = .ok (current', cache')) :
    Expanded targets current' (done ++ [targetId]) := by
  obtain ⟨hc', -, -, target, l, htarget, hl, rfl⟩ := expandOne_ok hc h
  -- a target that comes twice is expanded to the same list
  obtain ⟨origin, horigin, hsame⟩ : ∃ origin, targets.lookup targetId = some origin ∧
      { target with expandedDeps := l } = { origin with expandedDeps := l } := by
    by_cases hd : targetId ∈ done
    · obtain ⟨origin, l', horigin, -, hcurrent⟩ := (he targetId).1 hd
      rw [htarget, Option.some_inj] at hcurrent
      exact ⟨origin, horigin, by rw [hcurrent]⟩
    · exact ⟨target, ((he targetId).2 hd).symm.trans htarget, rfl⟩
  intro k
  rw [FinMap.lookup_insert_ite]
  by_cases hk : k = targetId
  · subst hk
    refine ⟨fun _ => ⟨origin, l, horigin, hc'.expands k l hl, ?_⟩, fun hk => absurd (by simp) hk⟩
    rw [if_pos rfl, hsame]
  · rw [if_neg hk]
    have hmem : k ∈ done ++ [targetId] ↔ k ∈ done := by simp [hk]
    rw [hmem]
    exact he k

theorem foldlM_expandOne_ok {limit : Nat} {order done : List Key} {current' : Targets}
    (hc : Consistent targets current cache) (he : Expanded targets current done)
    (hdone : ∀ k ∈ done, k ∈ cache)
    (h : order.foldlM (expandOne limit) (current, cache) = .ok (current', cache')) :
    Consistent targets current' cache' ∧ Expanded targets current' (done ++ order) ∧
      ∀ k ∈ done ++ order, k ∈ cache' := by
  induction order generalizing current cache done with
  | nil =>
    cases h
    rw [List.append_nil]
    exact ⟨hc, he, hdone⟩
  | cons k order ih =>
    rw [List.foldlM_cons] at h
    cases hone : expandOne limit (current, cache) k with
    | error e =>
      rw [hone] at h
      cases h
    | ok r =>
      obtain ⟨current₁, cache₁⟩ := r
      rw [hone] at h
      obtain ⟨hc₁, hmem, hext, -⟩ := expandOne_ok hc hone
      have hall := ih hc₁ (he.snoc hc hone) (fun a ha => ?_) h
      · rwa [List.append_assoc, List.singleton_append] at hall
      · rcases List.mem_append.mp ha with ha | ha
        · exact hext.mem (hdone a ha)
        · rw [List.mem_singleton.mp ha]
          exact hmem

theorem foldlM_expandOne_of_wellFormed (hw : WellFormed targets) {limit : Nat} (hlimit : Shallow targets limit)
    {order done : List Key} (horder : ∀ k ∈ order, k ∈ targets) (hc : Consistent targets current cache)
    (he : Expanded targets current done) : ∃ r, order.foldlM (expandOne limit) (current, cache) = .ok r := by
  induction order generalizing current cache done with
  | nil => exact ⟨_, rfl⟩
  | cons k order ih =>
    have hk := horder k List.mem_cons_self
    have hends : ∃ r, findAllDeps current limit k cache ∅ = .ok r :=
      findAllDeps_of_wellFormed hw hc (chain_single hk) (by simp) hlimit
    obtain ⟨⟨l, cached⟩, hfind⟩ := hends
    obtain ⟨target, htarget⟩ := he.lookup hk
    have hone : expandOne limit (current, cache) k =
        .ok (current.insert k { target with expandedDeps := l }, cached) := by
      simp only [expandOne, htarget, hfind]
      rfl
    obtain ⟨hc₁, -⟩ := expandOne_ok hc hone
    obtain ⟨r, hr⟩ := ih (fun a ha => horder a (List.mem_cons_of_mem _ ha)) hc₁ (he.snoc hc hone)
    refine ⟨r, ?_⟩
    rw [List.foldlM_cons, hone]
    exact hr

/-- `order` is an order of the dictionary's keys. -/
def KeyOrder {A : Type} (order : List Key) (dict : FinMap Key A) : Prop := order.Nodup ∧ ∀ k, k ∈ order ↔ k ∈ dict

/-- Each target with the list that the graph gives it. -/
def ExpansionOf (targets expanded : Targets) : Prop :=
  ∀ k, (expanded.lookup k = none ↔ targets.lookup k = none) ∧
    ∀ target, targets.lookup k = some target →
      ∃ l, Expands (needs targets) k l ∧ expanded.lookup k = some { target with expandedDeps := l }

theorem ExpansionOf.unique {expanded expanded' : Targets} (h : ExpansionOf targets expanded)
    (h' : ExpansionOf targets expanded') : expanded = expanded' := by
  refine Finmap.ext_lookup fun k => ?_
  cases hk : targets.lookup k with
  | none => rw [(h k).1.mpr hk, (h' k).1.mpr hk]
  | some target =>
    obtain ⟨l, hl, hlookup⟩ := (h k).2 target hk
    obtain ⟨l', hl', hlookup'⟩ := (h' k).2 target hk
    rw [hlookup, hlookup', hl.unique hl']

theorem expandDeps_ok {limit : Nat} {order : List Key} (horder : KeyOrder order targets) {expanded : Targets}
    (h : expandDeps limit order targets = .ok expanded) : ExpansionOf targets expanded ∧ WellFormed targets := by
  rw [expandDeps] at h
  cases hfold : order.foldlM (expandOne limit) (targets, (∅ : Cache)) with
  | error e =>
    rw [hfold] at h
    cases h
  | ok r =>
    obtain ⟨current, cached⟩ := r
    rw [hfold] at h
    cases h
    obtain ⟨hc, he, hcached⟩ :=
      foldlM_expandOne_ok (consistent_empty targets) (expanded_nil targets) (by simp) hfold
    rw [List.nil_append] at he hcached
    refine ⟨fun k => ⟨?_, fun target hk => ?_⟩, ⟨fun k hk => ?_, fun k hk => ?_⟩⟩
    · by_cases hk : k ∈ order
      · obtain ⟨target, l, htarget, -, hcurrent⟩ := (he k).1 hk
        simp [htarget, hcurrent]
      · rw [(he k).2 hk]
    · obtain ⟨_, l, htarget, hl, hcurrent⟩ := (he k).1 ((horder.2 k).mpr (Finmap.mem_iff.mpr ⟨target, hk⟩))
      rw [hk, Option.some_inj] at htarget
      exact ⟨l, hl, htarget ▸ hcurrent⟩
    · exact hc.allowed k (hcached k ((horder.2 k).mpr hk))
    · obtain ⟨l, hl⟩ := Finmap.mem_iff.mp (hcached k ((horder.2 k).mpr hk))
      exact (exists_expands_iff.mp ⟨l, hc.expands k l hl⟩).irrefl

theorem foldlM_expandOne_error {limit : Nat} {order done : List Key} {e : Stop} (horder : ∀ k ∈ order, k ∈ targets)
    (hc : Consistent targets current cache) (he : Expanded targets current done)
    (h : order.foldlM (expandOne limit) (current, cache) = .error e) : Real targets limit e := by
  induction order generalizing current cache done with
  | nil => cases h
  | cons k order ih =>
    have hk := horder k List.mem_cons_self
    obtain ⟨target, htarget⟩ := he.lookup hk
    rw [List.foldlM_cons] at h
    cases hfind : findAllDeps current limit k cache ∅ with
    | error e' =>
      have hone : expandOne limit (current, cache) k = .error e' := by
        simp only [expandOne, htarget, hfind]
        rfl
      rw [hone] at h
      cases h
      exact findAllDeps_error hc (chain_single hk) (by simp) rfl hfind
    | ok r =>
      obtain ⟨l, cached⟩ := r
      have hone : expandOne limit (current, cache) k =
          .ok (current.insert k { target with expandedDeps := l }, cached) := by
        simp only [expandOne, htarget, hfind]
        rfl
      rw [hone] at h
      obtain ⟨hc₁, -⟩ := expandOne_ok hc hone
      exact ih (fun a ha => horder a (List.mem_cons_of_mem _ ha)) hc₁ (he.snoc hc hone) h

theorem expandDeps_error {limit : Nat} {order : List Key} (horder : KeyOrder order targets) {e : Stop}
    (h : expandDeps limit order targets = .error e) : Real targets limit e := by
  rw [expandDeps] at h
  cases hfold : order.foldlM (expandOne limit) (targets, (∅ : Cache)) with
  | error e' =>
    rw [hfold] at h
    cases h
    exact foldlM_expandOne_error (fun k hk => (horder.2 k).mp hk) (consistent_empty targets) (expanded_nil targets)
      hfold
  | ok r =>
    rw [hfold] at h
    cases h

/-- All targets are expanded exactly when no target reaches itself and each dependency is
    there and visible. -/
theorem expandDeps_ok_iff {limit : Nat} (hlimit : Shallow targets limit) {order : List Key}
    (horder : KeyOrder order targets) :
    (∃ expanded, expandDeps limit order targets = .ok expanded) ↔ WellFormed targets := by
  constructor
  · rintro ⟨expanded, h⟩
    exact (expandDeps_ok horder h).2
  · intro hw
    obtain ⟨r, hr⟩ := foldlM_expandOne_of_wellFormed hw hlimit (fun k hk => (horder.2 k).mp hk)
      (consistent_empty targets) (expanded_nil targets)
    exact ⟨r.1, by rw [expandDeps, hr]; rfl⟩

end DependencyAnalyzer

end PredictorService.BuildTools
