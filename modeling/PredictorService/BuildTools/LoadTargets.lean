/-
  PredictorService.BuildTools.LoadTargets — which targets a build is about
  (build_tools/typhoon-blade/src/blade/load_build_files.py).

  Starting from the targets that the command line names, and from all those of the
  directories that it names, `load_targets` takes one key after the other from a set, reads
  the BUILD file of its directory unless that has been done, and puts its dependencies into
  the set. Which key comes next is Python's choice: `pop` gives it for each round.

  - `load_targets_iff`: whether the targets are loaded does not depend on the order, and in
    any order the loop ends.
  - `load_then_analyze`: what is loaded are the targets that are wanted, each as its BUILD
    file declares it. No dependency is missing, so the analysis that follows fails only by a
    loop or by visibility.

  The directories that `os.walk` finds for `...` are given.
-/

import PredictorService.BuildTools.BuildFile
import PredictorService.BuildTools.TopologicalSort
import PredictorService.Lib.Worklist

namespace PredictorService.BuildTools.LoadTargets

open PredictorService.Lib
open PredictorService.Lib.Dag
open PredictorService.BuildTools.DependencyAnalyzer

/-! ## The command line's targets and what they need -/

structure Loading extends Loaded where
  cited : List Key
  related : Targets := ∅

/-- One round of the loop, for the key that is popped. -/
def popRound (files : Files) (s : Loading) (key : Key) : Except Fatal Loading :=
  let cited := s.cited.erase key
  if key ∈ s.related then .ok { s with cited }
  else
    match loadBuildFile files s.toLoaded key.1 with
    | .error e => .error e
    | .ok loaded =>
      match loaded.database.lookup key with
      | none => .error (.notExist key)
      | some target =>
        let related := s.related.insert key target
        .ok { toLoaded := loaded, cited := (target.expandedDeps.filter (· ∉ related)).foldl addNew cited, related }

/-- `pop` numbers the keys of the set that is popped from. -/
def loadLoop (files : Files) : Nat → (Nat → Nat) → Loading → Except Fatal Loading
  | rounds, pop, s =>
    match s.cited[pop 0 % s.cited.length]? with
    | none => .ok s
    | some key =>
      match rounds with
      | 0 => .error .running
      | rounds + 1 => (popRound files s key).bind (loadLoop files rounds fun i => pop (i + 1))

/-- The targets that are named, and the directories all of whose targets are meant. -/
structure Command where
  targets : List Key
  sourceDirs : List String

/-- `keys` is the order of the database when the directories have been read. -/
def start (files : Files) (command : Command) (keys : Targets → List Key) : Except Fatal Loading := do
  let loaded ← command.sourceDirs.foldlM (loadBuildFile files) {}
  return { toLoaded := loaded, cited := (command.targets ++ keys loaded.database).foldl addNew [] }

def loadTargets (files : Files) (command : Command) (keys : Targets → List Key) (pop : Nat → Nat) (rounds : Nat) :
    Except Fatal Targets := do
  let s ← start files command keys
  let s ← loadLoop files rounds pop s
  return s.related

/-! ## What is wanted -/

/-- What the target that is declared under a key needs. -/
def declaredDeps (files : Files) (k : Key) : List Key := (declared files k).elim [] (·.expandedDeps)

/-- The targets that a command is about. -/
inductive Wanted (files : Files) (command : Command) : Key → Prop
  | target (k : Key) : k ∈ command.targets → Wanted files command k
  | declared (dir : String) (k : Key) (t : Target) : dir ∈ command.sourceDirs → k.1 = normpath dir → k.1 ≠ "#" →
      declared files k = some t → Wanted files command k
  /-- It may be named in a visibility only. -/
  | library (dir : String) (k : Key) : dir ∈ command.sourceDirs → normpath dir ≠ "#" →
      k ∈ mentioned files (normpath dir) → Wanted files command k
  | dependency (k d : Key) : Wanted files command k → d ∈ declaredDeps files k → Wanted files command d

/-- The BUILD file of the key's directory can be read and declares it. -/
def Present (files : Files) (k : Key) : Prop :=
  k.1 ≠ "#" → normpath k.1 = k.1 ∧ Readable files k.1 ∧ (declared files k).isSome

/-- System libraries are named with `#` only, and by BUILD files and the configuration only. -/
structure SystemByHash (files : Files) (command : Command) : Prop where
  deps : ∀ p rules rule a k, files.lookup p = some rules → rule ∈ rules → a ∈ additionsOf rule →
    additionKey p a = some k → k.1 = "#" → a.text.bind libraryOf = some k
  targets : ∀ k ∈ command.targets, k.1 ≠ "#"

variable {files : Files} {command : Command}

/-! ## One round -/

theorem mem_declaredDeps {k d : Key} (h : d ∈ declaredDeps files k) :
    k.1 ≠ "#" ∧ ∃ rules rule, files.lookup k.1 = some rules ∧ rule ∈ rules ∧ d ∈ additionKeys k.1 [] (additionsOf rule) := by
  unfold declaredDeps declared targetAmong at h
  split at h
  · cases h
  · rename_i hsystem
    cases hrules : files.lookup k.1 with
    | none => simp [hrules] at h
    | some rules =>
      rw [hrules, Option.bind_some] at h
      cases hrule : rules.find? fun rule => rule.registers ∧ rule.name = k.2 with
      | none =>
        rw [hrule] at h
        cases h
      | some rule =>
        rw [hrule] at h
        exact ⟨hsystem, rules, rule, rfl, List.mem_of_find?_eq_some hrule, h⟩

/-- The keys that can be reached at all. -/
def allKeys (files : Files) (seeds : List Key) : Finset Key :=
  seeds.toFinset ∪ files.keys.biUnion fun p => ((files.lookup p).getD []).toFinset.biUnion fun rule =>
    (additionKeys p [] (additionsOf rule)).toFinset

theorem mem_allKeys {seeds : List Key} {k : Key} (h : Reached (declaredDeps files) seeds k) :
    k ∈ allKeys files seeds := by
  obtain ⟨s, hs, hpath⟩ := h
  rcases Relation.ReflTransGen.cases_tail hpath with rfl | ⟨x, -, hx⟩
  · exact Finset.mem_union_left _ (List.mem_toFinset.mpr hs)
  · obtain ⟨-, rules, rule, hrules, hrule, hk⟩ := mem_declaredDeps hx
    refine Finset.mem_union_right _ (Finset.mem_biUnion.mpr ⟨x.1, ?_, ?_⟩)
    · exact Finmap.mem_keys.mpr (Finmap.mem_iff.mpr ⟨rules, hrules⟩)
    · rw [hrules, Option.getD_some]
      exact Finset.mem_biUnion.mpr ⟨rule, List.mem_toFinset.mpr hrule, List.mem_toFinset.mpr hk⟩

/-- The state when a target has been loaded. -/
def taken (s : Loading) (loaded : Loaded) (key : Key) (target : Target) : Loading where
  toLoaded := loaded
  cited := (target.expandedDeps.filter (· ∉ s.related.insert key target)).foldl addNew (s.cited.erase key)
  related := s.related.insert key target

/-- What a round can do. -/
theorem popRound_cases {s s' : Loading} {key : Key} (h : popRound files s key = .ok s') :
    (key ∈ s.related ∧ s' = { s with cited := s.cited.erase key }) ∨
      (key ∉ s.related ∧ ∃ loaded target, loadBuildFile files s.toLoaded key.1 = .ok loaded ∧
        loaded.database.lookup key = some target ∧ s' = taken s loaded key target) := by
  simp only [popRound] at h
  split at h
  · rename_i hmem
    cases h
    exact .inl ⟨hmem, rfl⟩
  · rename_i hnew
    cases hload : loadBuildFile files s.toLoaded key.1 with
    | error e =>
      rw [hload] at h
      cases h
    | ok loaded =>
      simp only [hload] at h
      cases htarget : loaded.database.lookup key with
      | none =>
        rw [htarget] at h
        cases h
      | some target =>
        rw [htarget] at h
        cases h
        exact .inr ⟨hnew, loaded, target, rfl, htarget, rfl⟩

theorem popRound_ends {s : Loading} {key : Key} : popRound files s key ≠ .error .running := by
  simp only [popRound]
  split
  · nofun
  · cases hload : loadBuildFile files s.toLoaded key.1 with
    | error e =>
      intro h
      cases h
      exact loadBuildFile_ends hload
    | ok loaded =>
      simp only
      cases loaded.database.lookup key <;> nofun

theorem mem_taken {s : Loading} {loaded : Loaded} {key : Key} {target : Target} {y : Key} :
    y ∈ (taken s loaded key target).cited ↔
      y ∈ s.cited.erase key ∨ (y ∈ target.expandedDeps ∧ y ∉ s.related.insert key target) := by
  unfold taken
  rw [mem_foldl_addNew, List.mem_filter, decide_eq_true_iff]

/-- What holds between two rounds. -/
structure LoadInv (files : Files) (seeds : List Key) (s : Loading) : Prop where
  sound : Sound files s.toLoaded
  related : ∀ k t, s.related.lookup k = some t → declared files k = some t ∧ Present files k
  worklist : Worklist (declaredDeps files) seeds {k | k ∈ s.related} s.cited
  nodup : s.cited.Nodup

/-- How much is left. -/
def left (files : Files) (seeds : List Key) (s : Loading) : Nat :=
  bound (allKeys files seeds) s.related.keys s.cited

theorem popRound_ok {seeds : List Key} {s s' : Loading} {key : Key} (hs : LoadInv files seeds s) (hkey : key ∈ s.cited)
    (h : popRound files s key = .ok s') : LoadInv files seeds s' ∧ left files seeds s' < left files seeds s := by
  have hrest : ∀ y ∈ s.cited, y = key ∨ y ∈ s.cited.erase key := fun y hy => by
    by_cases heq : y = key
    · exact .inl heq
    · exact .inr ((List.mem_erase_of_ne heq).mpr hy)
  obtain ⟨hmem, rfl⟩ | ⟨hnew, loaded, target, hload, htarget, rfl⟩ := popRound_cases h
  · refine ⟨⟨hs.sound, hs.related, hs.worklist.drop hmem (fun y hy => List.mem_of_mem_erase hy) hrest,
      hs.nodup.erase key⟩, bound_drop ?_⟩
    have hlength := List.length_pos_of_mem hkey
    rw [List.length_erase_of_mem hkey]
    omega
  · obtain ⟨hsound, -⟩ := loadBuildFile_ok hs.sound hload
    have hdeclared := hsound.declared htarget
    have hdeps : declaredDeps files key = target.expandedDeps := by rw [declaredDeps, hdeclared, Option.elim_some]
    have hset : {k | k ∈ s.related.insert key target} = insert key {k | k ∈ s.related} := by
      ext k
      simp [Finmap.mem_insert]
    have hworklist : Worklist (declaredDeps files) seeds {k | k ∈ s.related.insert key target}
        (taken s loaded key target).cited := by
      rw [hset]
      refine hs.worklist.take hkey (fun y hy => ?_) (fun y hy => ?_) fun d hd => ?_
      · rcases mem_taken.mp hy with hy | ⟨hy, -⟩
        · exact .inl (List.mem_of_mem_erase hy)
        · exact .inr (hdeps ▸ hy)
      · exact (hrest y hy).imp_right fun hy => mem_taken.mpr (.inl hy)
      · rw [hdeps] at hd
        rw [← hset]
        by_cases hin : d ∈ s.related.insert key target
        · exact .inl hin
        · exact .inr (mem_taken.mpr (.inr ⟨hd, hin⟩))
    have hnodup : (taken s loaded key target).cited.Nodup := nodup_foldl_addNew (hs.nodup.erase key)
    refine ⟨⟨hsound, fun k t hk => ?_, hworklist, hnodup⟩, ?_⟩
    · rw [taken, FinMap.lookup_insert_ite] at hk
      split at hk
      · subst k
        cases hk
        refine ⟨hdeclared, fun hsystem => ?_⟩
        obtain ⟨-, hnormal, hread⟩ := hsound.read _ (hsound.processed_of_lookup htarget hsystem)
        exact ⟨hnormal, hread, by rw [hdeclared]; rfl⟩
      · exact hs.related k t hk
    · have hkeys : (taken s loaded key target).related.keys = insert key s.related.keys := by
        ext k
        simp [taken, Finmap.mem_keys, Finmap.mem_insert]
      have hall : key ∈ allKeys files seeds := mem_allKeys (hs.worklist.todo_reached key hkey)
      unfold left
      rw [hkeys]
      exact bound_take hkey hall (fun hk => hnew (Finmap.mem_keys.mp hk)) hnodup
        fun y hy => mem_allKeys (hworklist.todo_reached y hy)

/-- The system libraries of the set are in the database. -/
def Registered (s : Loading) : Prop := ∀ k ∈ s.cited, k.1 = "#" → k ∈ s.database

theorem popRound_registered {seeds : List Key} {s s' : Loading} {key : Key} (hhash : SystemByHash files command)
    (hs : LoadInv files seeds s) (hr : Registered s) (h : popRound files s key = .ok s') : Registered s' := by
  obtain ⟨hmem, rfl⟩ | ⟨hnew, loaded, target, hload, htarget, rfl⟩ := popRound_cases h
  · exact fun k hk => hr k (List.mem_of_mem_erase hk)
  · obtain ⟨hsound, hprocessed⟩ := loadBuildFile_ok hs.sound hload
    intro k hk hsystem
    refine hsound.mem_database_iff.mpr (.inr ⟨hsystem, ?_⟩)
    rcases mem_taken.mp hk with hk | ⟨hk, -⟩
    · rcases hs.sound.mem_database_iff.mp (hr k (List.mem_of_mem_erase hk) hsystem) with ⟨hp, -⟩ | ⟨-, p, hp, hm⟩
      · exact absurd hsystem (hs.sound.read _ hp).1
      · exact ⟨p, (hprocessed p).mpr (.inl hp), hm⟩
    · -- the file that declares the target names the library
      have hdep : k ∈ declaredDeps files key := by
        rw [declaredDeps, hsound.declared htarget]
        exact hk
      obtain ⟨hne, rules, rule, hrules, hrule, hkeys⟩ := mem_declaredDeps hdep
      obtain ⟨a, ha, hkey⟩ := (mem_additionKeys.mp hkeys).resolve_left List.not_mem_nil
      obtain ⟨text, htext, hlib⟩ := Option.bind_eq_some_iff.mp (hhash.deps _ _ _ _ _ hrules hrule ha hkey hsystem)
      refine ⟨key.1, hsound.processed_of_lookup htarget hne, ?_⟩
      exact mem_mentioned.mpr ⟨rules, rule, text, hrules, hrule, mem_textsOf ha htext, hlib⟩

theorem popRound_of_present {seeds : List Key} {s : Loading} {key : Key} (hs : LoadInv files seeds s)
    (hr : Registered s) (hkey : key ∈ s.cited) (hpresent : Present files key) :
    ∃ s', popRound files s key = .ok s' := by
  simp only [popRound]
  split
  · exact ⟨_, rfl⟩
  · have hload : ∃ loaded, loadBuildFile files s.toLoaded key.1 = .ok loaded := by
      refine (loadBuildFile_iff hs.sound).mpr fun hnormal => ?_
      by_cases hsystem : key.1 = "#"
      · exact absurd (by rw [hsystem]; decide) hnormal
      · obtain ⟨heq, hread, -⟩ := hpresent hsystem
        rwa [heq]
    obtain ⟨loaded, hload⟩ := hload
    obtain ⟨hsound, hprocessed⟩ := loadBuildFile_ok hs.sound hload
    have hmem : key ∈ loaded.database := by
      refine hsound.mem_database_iff.mpr ?_
      by_cases hsystem : key.1 = "#"
      · rcases hs.sound.mem_database_iff.mp (hr key hkey hsystem) with ⟨hp, -⟩ | ⟨-, p, hp, hm⟩
        · exact absurd hsystem (hs.sound.read _ hp).1
        · exact .inr ⟨hsystem, p, (hprocessed p).mpr (.inl hp), hm⟩
      · obtain ⟨heq, -, hdeclared⟩ := hpresent hsystem
        exact .inl ⟨(hprocessed _).mpr (.inr ⟨heq.symm, hsystem⟩), hdeclared⟩
    obtain ⟨target, htarget⟩ := Finmap.mem_iff.mp hmem
    simp only [hload, htarget]
    exact ⟨_, rfl⟩

/-! ## The loop -/

theorem popped_none {cited : List Key} {n : Nat} (h : cited[n % cited.length]? = none) : cited = [] := by
  by_contra hne
  have hlength := List.length_pos_iff.mpr hne
  rw [List.getElem?_eq_getElem (Nat.mod_lt _ hlength)] at h
  cases h

/-- When the loop has ended, everything that is reached has been loaded and nothing else. -/
theorem loadLoop_ok {seeds : List Key} {rounds : Nat} {pop : Nat → Nat} {s s' : Loading} (hs : LoadInv files seeds s)
    (h : loadLoop files rounds pop s = .ok s') : LoadInv files seeds s' ∧ s'.cited = [] := by
  induction rounds generalizing pop s with
  | zero =>
    unfold loadLoop at h
    split at h
    · rename_i hnone
      cases h
      exact ⟨hs, popped_none hnone⟩
    · cases h
  | succ rounds ih =>
    unfold loadLoop at h
    split at h
    · rename_i hnone
      cases h
      exact ⟨hs, popped_none hnone⟩
    · rename_i key hkey
      obtain ⟨s₁, hone, h⟩ := bind_eq_ok_iff.mp h
      exact ih (popRound_ok hs (List.mem_of_getElem? hkey) hone).1 h

/-- In any order the loop ends. -/
theorem loadLoop_ends {seeds : List Key} {rounds : Nat} {pop : Nat → Nat} {s : Loading} (hs : LoadInv files seeds s)
    (hrounds : left files seeds s ≤ rounds) : loadLoop files rounds pop s ≠ .error .running := by
  induction rounds generalizing pop s with
  | zero =>
    unfold loadLoop
    split
    · nofun
    · rename_i key hkey
      have hpos : 0 < left files seeds s := bound_pos (List.mem_of_getElem? hkey)
      omega
  | succ rounds ih =>
    unfold loadLoop
    split
    · nofun
    · rename_i key hkey
      cases hone : popRound files s key with
      | error e =>
        intro h
        cases h
        exact popRound_ends hone
      | ok s₁ =>
        obtain ⟨hs₁, hless⟩ := popRound_ok hs (List.mem_of_getElem? hkey) hone
        exact ih hs₁ (by omega)

theorem loadLoop_of_present {seeds : List Key} {rounds : Nat} {pop : Nat → Nat} {s : Loading}
    (hhash : SystemByHash files command) (hs : LoadInv files seeds s) (hr : Registered s)
    (hrounds : left files seeds s ≤ rounds) (hpresent : ∀ k, Reached (declaredDeps files) seeds k → Present files k) :
    ∃ s', loadLoop files rounds pop s = .ok s' := by
  induction rounds generalizing pop s with
  | zero =>
    unfold loadLoop
    split
    · exact ⟨s, rfl⟩
    · rename_i key hkey
      have hpos : 0 < left files seeds s := bound_pos (List.mem_of_getElem? hkey)
      omega
  | succ rounds ih =>
    unfold loadLoop
    split
    · exact ⟨s, rfl⟩
    · rename_i key hkey
      have hmem := List.mem_of_getElem? hkey
      obtain ⟨s₁, hone⟩ := popRound_of_present hs hr hmem (hpresent key (hs.worklist.todo_reached key hmem))
      obtain ⟨hs₁, hless⟩ := popRound_ok hs hmem hone
      obtain ⟨s', hs'⟩ := ih hs₁ (popRound_registered hhash hs hr hone) (by omega)
      exact ⟨s', bind_eq_ok_iff.mpr ⟨s₁, hone, hs'⟩⟩

/-! ## The start -/

theorem foldlM_loadBuildFile_ok {dirs : List String} {s s' : Loaded} (hs : Sound files s)
    (h : dirs.foldlM (loadBuildFile files) s = .ok s') :
    Sound files s' ∧ ∀ p, p ∈ s'.processed ↔ p ∈ s.processed ∨ ∃ dir ∈ dirs, p = normpath dir ∧ p ≠ "#" := by
  induction dirs generalizing s with
  | nil =>
    cases h
    exact ⟨hs, by simp⟩
  | cons dir dirs ih =>
    rw [List.foldlM_cons] at h
    obtain ⟨s₁, hone, h⟩ := bind_eq_ok_iff.mp h
    obtain ⟨hs₁, hprocessed₁⟩ := loadBuildFile_ok hs hone
    obtain ⟨hs', hprocessed⟩ := ih hs₁ h
    refine ⟨hs', fun p => ?_⟩
    rw [hprocessed, hprocessed₁, or_assoc, List.exists_mem_cons_iff]

theorem foldlM_loadBuildFile_iff {dirs : List String} {s : Loaded} (hs : Sound files s) :
    (∃ s', dirs.foldlM (loadBuildFile files) s = .ok s') ↔
      ∀ dir ∈ dirs, normpath dir ≠ "#" → Readable files (normpath dir) := by
  induction dirs generalizing s with
  | nil => exact ⟨fun _ => nofun, fun _ => ⟨s, rfl⟩⟩
  | cons dir dirs ih =>
    simp only [List.foldlM_cons, bind_eq_ok_iff, List.forall_mem_cons]
    rw [← loadBuildFile_iff hs]
    constructor
    · rintro ⟨s', s₁, hone, h⟩
      exact ⟨⟨s₁, hone⟩, (ih (loadBuildFile_ok hs hone).1).mp ⟨s', h⟩⟩
    · rintro ⟨⟨s₁, hone⟩, hall⟩
      obtain ⟨s', h⟩ := (ih (loadBuildFile_ok hs hone).1).mpr hall
      exact ⟨s', s₁, hone, h⟩

/-- What holds at the start. -/
structure Started (files : Files) (command : Command) (s : Loading) : Prop where
  inv : LoadInv files s.cited s
  registered : (∀ k ∈ command.targets, k.1 ≠ "#") → Registered s
  wanted : ∀ k, Reached (declaredDeps files) s.cited k ↔ Wanted files command k

theorem start_ok {keys : Targets → List Key} (hkeys : ∀ database, KeyOrder (keys database) database) {s : Loading}
    (h : start files command keys = .ok s) : Started files command s := by
  obtain ⟨loaded, hload, h⟩ := bind_eq_ok_iff.mp h
  cases h
  obtain ⟨hsound, hprocessed⟩ := foldlM_loadBuildFile_ok (sound_init files) hload
  have hcited : ∀ k, k ∈ (command.targets ++ keys loaded.database).foldl addNew [] ↔
      k ∈ command.targets ∨ k ∈ loaded.database := by
    intro k
    rw [mem_foldl_addNew, List.mem_append, (hkeys loaded.database).2]
    exact or_iff_right List.not_mem_nil
  have hdirs : ∀ p, p ∈ loaded.processed ↔ ∃ dir ∈ command.sourceDirs, p = normpath dir ∧ p ≠ "#" := by
    intro p
    rw [hprocessed]
    exact or_iff_right List.not_mem_nil
  have hempty : {k | k ∈ (∅ : Targets)} = (∅ : Set Key) := by
    ext k
    simp [Finmap.notMem_empty]
  refine ⟨⟨hsound, fun k t hk => ?_, ?_, nodup_foldl_addNew List.nodup_nil⟩,
    fun htargets k hk hsystem => ?_, fun k => ?_⟩
  · rw [Finmap.lookup_empty] at hk
    cases hk
  · change Worklist _ _ {k | k ∈ (∅ : Targets)} _
    rw [hempty]
    exact .start
  · exact ((hcited k).mp hk).resolve_left fun hk => htargets k hk hsystem
  · constructor
    · rintro ⟨s, hs, hpath⟩
      induction hpath with
      | refl =>
        rcases (hcited s).mp hs with hs | hs
        · exact .target s hs
        · rcases hsound.mem_database_iff.mp hs with ⟨hp, hdeclared⟩ | ⟨hsystem, p, hp, hm⟩
          · obtain ⟨dir, hdir, heq, hne⟩ := (hdirs _).mp hp
            obtain ⟨t, ht⟩ := Option.isSome_iff_exists.mp hdeclared
            exact .declared dir s t hdir heq hne ht
          · obtain ⟨dir, hdir, rfl, hne⟩ := (hdirs _).mp hp
            exact .library dir s hdir hne hm
      | tail _ hd ih => exact .dependency _ _ ih hd
    · intro hk
      induction hk with
      | target k hk => exact .seed ((hcited k).mpr (.inl hk))
      | declared dir k t hdir heq hne ht =>
        refine .seed ((hcited k).mpr (.inr (hsound.mem_database_iff.mpr (.inl ⟨?_, ?_⟩))))
        · exact (hdirs _).mpr ⟨dir, hdir, heq, hne⟩
        · rw [ht]
          rfl
      | library dir k hdir hne hm =>
        refine .seed ((hcited k).mpr (.inr (hsound.mem_database_iff.mpr (.inr ⟨system_of_mentioned hm, _, ?_, hm⟩))))
        exact (hdirs _).mpr ⟨dir, hdir, rfl, hne⟩
      | dependency k d _ hd ih => exact ih.next hd

theorem start_iff {keys : Targets → List Key} : (∃ s, start files command keys = .ok s) ↔
    ∀ dir ∈ command.sourceDirs, normpath dir ≠ "#" → Readable files (normpath dir) := by
  rw [← foldlM_loadBuildFile_iff (sound_init files)]
  constructor
  · rintro ⟨s, h⟩
    obtain ⟨loaded, hload, -⟩ := bind_eq_ok_iff.mp h
    exact ⟨loaded, hload⟩
  · rintro ⟨loaded, hload⟩
    exact ⟨_, bind_eq_ok_iff.mpr ⟨loaded, hload, rfl⟩⟩

theorem foldlM_loadBuildFile_ends {dirs : List String} {s : Loaded} :
    dirs.foldlM (loadBuildFile files) s ≠ .error .running := by
  induction dirs generalizing s with
  | nil => nofun
  | cons dir dirs ih =>
    rw [List.foldlM_cons]
    cases hone : loadBuildFile files s dir with
    | error e =>
      intro h
      cases h
      exact loadBuildFile_ends hone
    | ok s₁ => exact ih

theorem start_ends {keys : Targets → List Key} : start files command keys ≠ .error .running := by
  unfold start
  cases hload : command.sourceDirs.foldlM (loadBuildFile files) {} with
  | error e =>
    intro h
    cases h
    exact foldlM_loadBuildFile_ends hload
  | ok loaded => nofun

/-! ## When the loop has ended -/

theorem loadTargets_ok {keys : Targets → List Key} (hkeys : ∀ database, KeyOrder (keys database) database)
    {pop : Nat → Nat} {rounds : Nat} {related : Targets}
    (h : loadTargets files command keys pop rounds = .ok related) :
    (∀ k, k ∈ related ↔ Wanted files command k) ∧
      ∀ k t, related.lookup k = some t → declared files k = some t ∧ Present files k := by
  obtain ⟨s, hstart, h⟩ := bind_eq_ok_iff.mp h
  obtain ⟨s', hloop, h⟩ := bind_eq_ok_iff.mp h
  cases h
  have hstarted := start_ok hkeys hstart
  obtain ⟨hinv, hempty⟩ := loadLoop_ok hstarted.inv hloop
  have hworklist := hinv.worklist
  rw [hempty] at hworklist
  exact ⟨fun k => hworklist.done_iff.trans (hstarted.wanted k), hinv.related⟩

theorem loadTargets_of_present (hhash : SystemByHash files command) {keys : Targets → List Key}
    (hkeys : ∀ database, KeyOrder (keys database) database) {s : Loading} (hstart : start files command keys = .ok s)
    (hpresent : ∀ k, Wanted files command k → Present files k) {pop : Nat → Nat} {rounds : Nat}
    (hrounds : left files s.cited s ≤ rounds) : ∃ related, loadTargets files command keys pop rounds = .ok related := by
  have hstarted := start_ok hkeys hstart
  have hloop : ∃ s', loadLoop files rounds pop s = .ok s' :=
    loadLoop_of_present hhash hstarted.inv (hstarted.registered hhash.targets) hrounds
      fun k hk => hpresent k ((hstarted.wanted k).mp hk)
  obtain ⟨s', hloop⟩ := hloop
  exact ⟨s'.related, bind_eq_ok_iff.mpr ⟨s, hstart, bind_eq_ok_iff.mpr ⟨s', hloop, rfl⟩⟩⟩

/-! ## The analysis -/

/-- The target under `d` lets `k` depend on it. -/
def Visible (files : Files) (k d : Key) : Prop :=
  k.1 = d.1 ∨ ∀ t, declared files d = some t → ∀ visibility, t.visibility = some visibility → k ∈ visibility

/-- What has been loaded is all that is wanted, as it is declared. -/
structure LoadedAll (files : Files) (command : Command) (related : Targets) : Prop where
  mem : ∀ k, k ∈ related ↔ Wanted files command k
  lookup : ∀ k t, related.lookup k = some t ↔ Wanted files command k ∧ declared files k = some t

theorem loadedAll {keys : Targets → List Key} (hkeys : ∀ database, KeyOrder (keys database) database)
    {pop : Nat → Nat} {rounds : Nat} {related : Targets}
    (h : loadTargets files command keys pop rounds = .ok related) : LoadedAll files command related := by
  obtain ⟨hmem, hdeclared⟩ := loadTargets_ok hkeys h
  refine ⟨hmem, fun k t => ⟨fun hk => ⟨(hmem k).mp (Finmap.mem_iff.mpr ⟨t, hk⟩), (hdeclared k t hk).1⟩, ?_⟩⟩
  rintro ⟨hk, ht⟩
  obtain ⟨t', ht'⟩ := Finmap.mem_iff.mp ((hmem k).mpr hk)
  cases ht.symm.trans (hdeclared k t' ht').1
  exact ht'

variable {related : Targets}

theorem LoadedAll.needs_wanted (h : LoadedAll files command related) {k : Key} (hk : Wanted files command k) :
    needs related k = declaredDeps files k := by
  obtain ⟨t, ht⟩ := Finmap.mem_iff.mp ((h.mem k).mpr hk)
  rw [needs_eq ht, declaredDeps, ((h.lookup k t).mp ht).2, Option.elim_some]

theorem LoadedAll.mem_needs_iff (h : LoadedAll files command related) {k d : Key} :
    d ∈ needs related k ↔ Wanted files command k ∧ d ∈ declaredDeps files k := by
  constructor
  · intro hd
    have hk := (h.mem k).mp (mem_of_needs hd)
    exact ⟨hk, h.needs_wanted hk ▸ hd⟩
  · rintro ⟨hk, hd⟩
    rwa [h.needs_wanted hk]

theorem LoadedAll.dependsOn_iff (h : LoadedAll files command related) {k d : Key} (hk : Wanted files command k) :
    DependsOn (needs related) k d ↔ DependsOn (declaredDeps files) k d := by
  constructor
  · exact fun hd => hd.lift id fun a b hab => (h.mem_needs_iff.mp hab).2
  · intro hd
    have hboth : Wanted files command d ∧ DependsOn (needs related) k d := by
      induction hd with
      | single hd => exact ⟨.dependency _ _ hk hd, .single (h.mem_needs_iff.mpr ⟨hk, hd⟩)⟩
      | tail _ hd ih => exact ⟨.dependency _ _ ih.1 hd, ih.2.tail (h.mem_needs_iff.mpr ⟨ih.1, hd⟩)⟩
    exact hboth.2

theorem LoadedAll.allowed_iff (h : LoadedAll files command related) {k d : Key} (hd : Wanted files command d) :
    Allowed related k d ↔ Visible files k d := by
  obtain ⟨t, ht⟩ := Finmap.mem_iff.mp ((h.mem d).mpr hd)
  have hdeclared := ((h.lookup d t).mp ht).2
  simp only [Allowed, Visible, ht, hdeclared, Option.some.injEq, exists_eq_left', forall_eq']

theorem LoadedAll.wellFormed_iff (h : LoadedAll files command related) : WellFormed related ↔
    ∀ k, Wanted files command k →
      ¬ DependsOn (declaredDeps files) k k ∧ ∀ d ∈ declaredDeps files k, Visible files k d := by
  constructor
  · intro hw k hk
    have hmem := (h.mem k).mpr hk
    refine ⟨fun hloop => hw.acyclic k hmem ((h.dependsOn_iff hk).mpr hloop), fun d hd => ?_⟩
    exact (h.allowed_iff (.dependency k d hk hd)).mp (hw.allowed k hmem d (h.mem_needs_iff.mpr ⟨hk, hd⟩))
  · intro hall
    refine ⟨fun k _ d hd => ?_, fun k hk hloop => ?_⟩
    · obtain ⟨hk, hd⟩ := h.mem_needs_iff.mp hd
      exact (h.allowed_iff (.dependency k d hk hd)).mpr ((hall k hk).2 d hd)
    · have hwanted := (h.mem k).mp hk
      exact (hall k hwanted).1 ((h.dependsOn_iff hwanted).mp hloop)

/-- Different targets that are wanted, each needed by the next. -/
structure WantedChain (files : Files) (command : Command) (path : List Key) : Prop where
  nodup : path.Nodup
  wanted : ∀ k ∈ path, Wanted files command k
  needed : path.IsChain fun d k => d ∈ declaredDeps files k

theorem LoadedAll.chain_iff (h : LoadedAll files command related) {path : List Key} :
    Chain related path ↔ WantedChain files command path := by
  constructor
  · intro hpath
    exact ⟨hpath.nodup, fun k hk => (h.mem k).mp (hpath.mem k hk),
      hpath.needed.imp fun d k hd => (h.mem_needs_iff.mp hd).2⟩
  · intro hpath
    refine ⟨hpath.nodup, fun k hk => (h.mem k).mpr (hpath.wanted k hk), ?_⟩
    refine hpath.needed.imp_of_mem_imp fun d k _ hk hd => h.mem_needs_iff.mpr ⟨hpath.wanted k hk, hd⟩

/-- What the analysis of a loaded build can report. -/
inductive Fault (files : Files) (command : Command) (limit : Nat) : Stop → Prop
  | loopDependency (d : Key) : Wanted files command d → DependsOn (declaredDeps files) d d →
      Fault files command limit (.loopDependency d)
  | notVisible (k d : Key) : Wanted files command k → d ∈ declaredDeps files k → ¬ Visible files k d →
      Fault files command limit (.notVisible k d)
  | recursionLimit (path : List Key) : WantedChain files command path → limit < path.length →
      Fault files command limit .recursionLimit

theorem LoadedAll.fault (h : LoadedAll files command related) {limit : Nat} {e : Stop} (he : Real related limit e) :
    Fault files command limit e := by
  cases he with
  | loopDependency d hloop =>
    have hd : Wanted files command d := by
      obtain ⟨a, ha, -⟩ := dependsOn_cases.mp hloop
      exact (h.mem_needs_iff.mp ha).1
    exact .loopDependency d hd ((h.dependsOn_iff hd).mp hloop)
  | missing k d hd hmissing =>
    obtain ⟨hk, hd⟩ := h.mem_needs_iff.mp hd
    exact absurd ((h.mem d).mpr (.dependency k d hk hd)) hmissing
  | notVisible k d hd _ hnot =>
    obtain ⟨hk, hd⟩ := h.mem_needs_iff.mp hd
    exact .notVisible k d hk hd fun hv => hnot ((h.allowed_iff (.dependency k d hk hd)).mpr hv)
  | recursionLimit path hpath hlimit => exact .recursionLimit path (h.chain_iff.mp hpath) hlimit

/-! ## An example -/

/-- Tests use a library that no BUILD file names. -/
def smallConfig : BladeConfig where
  gtestLibs := [⟨"//thirdparty:gtest", by decide⟩]
  gtestMainLibs := [⟨"#pthread", by decide⟩]

/-- A test on a library of another directory. -/
def appRules : List Rule :=
  [RuleClass.rule smallConfig "release" "main_test" [] ["main_test.cc"] ["//lib:a"] none (.ccTest none none false)]

def libRules : List Rule :=
  [{ name := "a", type := "cc_library", deps := [":b"], visibility := some ["//app:main_test"] },
    { name := "b", type := "cc_library" }]

def thirdpartyRules : List Rule := [{ name := "gtest", type := "cc_library" }]

def smallFiles : Files :=
  FinMap.insertAll ∅ [("app", appRules), ("lib", libRules), ("thirdparty", thirdpartyRules)]

def smallCommand : Command := { targets := [("app", "main_test")], sourceDirs := ["./lib/"] }

def smallKeys : List Key :=
  [("app", "main_test"), ("lib", "a"), ("lib", "b"), ("thirdparty", "gtest"), ("#", "pthread")]

noncomputable def anyOrder (database : Targets) : List Key := database.keys.toList

theorem keyOrder_anyOrder (database : Targets) : KeyOrder (anyOrder database) database :=
  ⟨Finset.nodup_toList _, fun k => by rw [anyOrder, Finset.mem_toList, Finmap.mem_keys]⟩

theorem mem_smallFiles {p : String} {rules : List Rule} (h : smallFiles.lookup p = some rules) :
    (p = "app" ∧ rules = appRules) ∨ (p = "lib" ∧ rules = libRules) ∨ (p = "thirdparty" ∧ rules = thirdpartyRules) := by
  rw [smallFiles, FinMap.lookup_insertAll_iff (by decide)] at h
  simpa [Finmap.lookup_empty] using h

theorem systemByHash_small : SystemByHash smallFiles smallCommand where
  deps p rules rule a k hrules hrule ha hkey hsystem := by
    have hall : ∀ file ∈ [("app", appRules), ("lib", libRules), ("thirdparty", thirdpartyRules)], ∀ rule ∈ file.2,
        ∀ a ∈ additionsOf rule, ∀ k ∈ additionKey file.1 a, k.1 = "#" → a.text.bind libraryOf = some k := by decide
    refine hall (p, rules) ?_ rule hrule a ha k hkey hsystem
    rcases mem_smallFiles hrules with ⟨rfl, rfl⟩ | ⟨rfl, rfl⟩ | ⟨rfl, rfl⟩ <;> simp
  targets := by decide

theorem declared_small {k : Key} {t : Target} (h : declared smallFiles k = some t) (hk : k.1 = "lib") :
    k ∈ smallKeys := by
  obtain ⟨p, name⟩ := k
  obtain rfl : p = "lib" := hk
  have hlookup : smallFiles.lookup "lib" = some libRules := by decide
  have hsystem : ¬ "lib" = "#" := by decide
  rw [declared, if_neg hsystem, hlookup, Option.bind_some, targetAmong, Option.map_eq_some_iff] at h
  obtain ⟨rule, hrule, -⟩ := h
  have hfound := List.find?_some hrule
  rcases List.mem_pair.mp (List.mem_of_find?_eq_some hrule) with rfl | rfl
  · obtain rfl : "a" = name := (of_decide_eq_true hfound).2
    decide
  · obtain rfl : "b" = name := (of_decide_eq_true hfound).2
    decide

theorem wanted_small {k : Key} (h : Wanted smallFiles smallCommand k) : k ∈ smallKeys := by
  have hdirs : ∀ dir ∈ smallCommand.sourceDirs, normpath dir = "lib" := by decide
  have hdeps : ∀ k ∈ smallKeys, ∀ d ∈ declaredDeps smallFiles k, d ∈ smallKeys := by decide
  induction h with
  | target k hk =>
    rw [List.mem_singleton.mp hk]
    decide
  | declared dir k t hdir hk _ ht => exact declared_small ht (hk.trans (hdirs dir hdir))
  | library dir k hdir _ hm =>
    rw [hdirs dir hdir] at hm
    have hnone : mentioned smallFiles "lib" = [] := by decide
    rw [hnone] at hm
    cases hm
  | dependency k d _ hd ih => exact hdeps k ih d hd

theorem readable_small {p : String} (hp : p ∈ ["app", "lib", "thirdparty"]) : Readable smallFiles p := by
  have hload : ∀ p ∈ ["app", "lib", "thirdparty"],
      (loadBuildFile smallFiles {} p).toOption.isSome ∧ normpath p = p ∧ p ≠ "#" := by
    decide
  obtain ⟨hok, hnormal, hsystem⟩ := hload p hp
  have hex : ∃ s, loadBuildFile smallFiles {} p = .ok s := by
    cases h : loadBuildFile smallFiles {} p with
    | error e =>
      rw [h] at hok
      cases hok
    | ok s => exact ⟨s, rfl⟩
  have hiff := (loadBuildFile_iff (sound_init smallFiles)).mp hex
  rw [hnormal] at hiff
  exact hiff hsystem

theorem present_small {k : Key} (h : Wanted smallFiles smallCommand k) : Present smallFiles k := by
  intro hsystem
  have hdeclared : ∀ k ∈ smallKeys, (declared smallFiles k).isSome ∧ normpath k.1 = k.1 ∧
      (k.1 = "#" ∨ k.1 ∈ ["app", "lib", "thirdparty"]) := by decide
  obtain ⟨hsome, hnormal, hpath⟩ := hdeclared k (wanted_small h)
  exact ⟨hnormal, readable_small (hpath.resolve_left hsystem), hsome⟩

theorem readable_dirs_small : ∀ dir ∈ smallCommand.sourceDirs, normpath dir ≠ "#" →
    Readable smallFiles (normpath dir) := by
  have hdirs : ∀ dir ∈ smallCommand.sourceDirs, normpath dir = "lib" := by decide
  intro dir hdir _
  rw [hdirs dir hdir]
  exact readable_small (by decide)

/-! ## The whole -/

/-- The targets are loaded, in whichever order, exactly when the BUILD files of the
    directories can be read and what is wanted is there. -/
theorem load_targets_iff (hhash : SystemByHash files command) {keys : Targets → List Key}
    (hkeys : ∀ database, KeyOrder (keys database) database) : ∃ enough, ∀ pop rounds, enough ≤ rounds →
      loadTargets files command keys pop rounds ≠ .error .running ∧
      ((∃ related, loadTargets files command keys pop rounds = .ok related) ↔
        (∀ dir ∈ command.sourceDirs, normpath dir ≠ "#" → Readable files (normpath dir)) ∧
          ∀ k, Wanted files command k → Present files k) := by
  cases hstart : start files command keys with
  | error e =>
    refine ⟨0, fun pop rounds _ => ?_⟩
    have hrun : loadTargets files command keys pop rounds = .error e := by
      rw [loadTargets, hstart]
      rfl
    rw [hrun]
    refine ⟨fun heq => ?_, nofun, fun h => ?_⟩
    · cases heq
      exact start_ends hstart
    · have hstarts : ∃ s, start files command keys = .ok s := start_iff.mpr h.1
      obtain ⟨s, hs⟩ := hstarts
      cases hs.symm.trans hstart
  | ok s =>
    have hstarted := start_ok hkeys hstart
    refine ⟨left files s.cited s, fun pop rounds hrounds => ⟨fun heq => ?_, ?_, ?_⟩⟩
    · have hends : loadLoop files rounds pop s ≠ .error .running := loadLoop_ends hstarted.inv hrounds
      have hrun : loadTargets files command keys pop rounds = (loadLoop files rounds pop s).map (·.related) := by
        rw [loadTargets, hstart]
        rfl
      rw [hrun] at heq
      cases hloop : loadLoop files rounds pop s with
      | error e =>
        rw [hloop] at heq
        cases heq
        exact hends hloop
      | ok s' =>
        rw [hloop] at heq
        cases heq
    · rintro ⟨related, h⟩
      obtain ⟨hmem, hdeclared⟩ := loadTargets_ok hkeys h
      refine ⟨start_iff.mp ⟨s, hstart⟩, fun k hk => ?_⟩
      obtain ⟨t, ht⟩ := Finmap.mem_iff.mp ((hmem k).mpr hk)
      exact (hdeclared k t ht).2
    · exact fun h => loadTargets_of_present hhash hkeys hstart h.2 hrounds

theorem load_targets_small : ∃ enough, ∀ pop,
    ∃ related, loadTargets smallFiles smallCommand anyOrder pop enough = .ok related := by
  obtain ⟨enough, h⟩ := load_targets_iff systemByHash_small keyOrder_anyOrder
  exact ⟨enough, fun pop => (h pop enough le_rfl).2.mpr ⟨readable_dirs_small, fun k => present_small⟩⟩

/-- A build that is loaded is what is wanted, and its analysis succeeds without a loop and
    with visible dependencies only, fails only for one of these or for its depth, and does
    not fail for that where no chain is longer than the limit. -/
theorem load_then_analyze {keys : Targets → List Key} (hkeys : ∀ database, KeyOrder (keys database) database)
    {pop : Nat → Nat} {rounds : Nat} (h : loadTargets files command keys pop rounds = .ok related)
    {limit : Nat} {order ready : List Key} (horder : KeyOrder order related) (hready : KeyOrder ready related) :
    (∀ k t, related.lookup k = some t ↔ Wanted files command k ∧ declared files k = some t) ∧
    ((∃ r, analyzeDeps limit order ready related = .ok r) → ∀ k, Wanted files command k →
      ¬ DependsOn (declaredDeps files) k k ∧ ∀ d ∈ declaredDeps files k, Visible files k d) ∧
    ((∀ path, WantedChain files command path → path.length ≤ limit) → (∀ k, Wanted files command k →
      ¬ DependsOn (declaredDeps files) k k ∧ ∀ d ∈ declaredDeps files k, Visible files k d) →
      ∃ r, analyzeDeps limit order ready related = .ok r) ∧
    ∀ e, analyzeDeps limit order ready related = .error e → Fault files command limit e := by
  have hall := loadedAll hkeys h
  refine ⟨hall.lookup, ?_, fun hlimit hw => ?_, fun e he => ?_⟩
  · rintro ⟨r, hr⟩
    rw [← hall.wellFormed_iff]
    cases hexpand : expandDeps limit order related with
    | error e =>
      rw [analyzeDeps, hexpand] at hr
      cases hr
    | ok expanded => exact (expandDeps_ok horder hexpand).2
  · have hshallow : Shallow related limit := fun path hpath => hlimit path (hall.chain_iff.mp hpath)
    obtain ⟨expanded, hexpand⟩ := (expandDeps_ok_iff hshallow horder).mpr (hall.wellFormed_iff.mpr hw)
    obtain ⟨answer, successors, hr, -⟩ := analyzeDeps_of_expandDeps horder hready hexpand
    exact ⟨_, hr⟩
  · exact hall.fault (expandDeps_error horder (analyzeDeps_error horder hready he))

theorem load_then_analyze_small : ∃ related, (∀ k t, related.lookup k = some t ↔
      Wanted smallFiles smallCommand k ∧ declared smallFiles k = some t) ∧
    related.lookup ("thirdparty", "gtest") = some { type := "cc_library" } ∧
    ∃ r, analyzeDeps 5 (anyOrder related) (anyOrder related) related = .ok r := by
  obtain ⟨s, hstart⟩ : ∃ s, start smallFiles smallCommand anyOrder = .ok s := start_iff.mpr readable_dirs_small
  obtain ⟨related, hload⟩ : ∃ related, loadTargets smallFiles smallCommand anyOrder id _ = .ok related :=
    loadTargets_of_present systemByHash_small keyOrder_anyOrder hstart (fun k => present_small) le_rfl
  obtain ⟨hlookup, -, hanalyse, -⟩ := load_then_analyze keyOrder_anyOrder hload (keyOrder_anyOrder related)
    (keyOrder_anyOrder related)
  refine ⟨related, hlookup, (hlookup _ _).mpr ⟨?_, by decide⟩, hanalyse (fun path hpath => ?_) fun k hk =>
    ⟨fun hloop => ?_, ?_⟩⟩
  · have hmain : Wanted smallFiles smallCommand ("app", "main_test") := .target _ (by decide)
    exact .dependency _ _ hmain (by decide)
  · have hsub : path.toFinset ⊆ smallKeys.toFinset := fun k hk =>
      List.mem_toFinset.mpr (wanted_small (hpath.wanted k (List.mem_toFinset.mp hk)))
    rw [← List.toFinset_card_of_nodup hpath.nodup]
    exact (Finset.card_le_card hsub).trans (by decide)
  · -- what a target of the example depends on comes later in the list
    have hlater : ∀ k ∈ smallKeys, ∀ d ∈ declaredDeps smallFiles k,
        d ∈ smallKeys ∧ smallKeys.idxOf k < smallKeys.idxOf d := by decide
    have hless : ∀ d, DependsOn (declaredDeps smallFiles) k d →
        d ∈ smallKeys ∧ smallKeys.idxOf k < smallKeys.idxOf d := by
      intro d hd
      induction hd with
      | single hd => exact hlater k (wanted_small hk) _ hd
      | tail _ hd ih =>
        obtain ⟨hmem, hlt⟩ := hlater _ ih.1 _ hd
        exact ⟨hmem, ih.2.trans hlt⟩
    exact absurd (hless k hloop).2 (lt_irrefl _)
  · have hvisible : ∀ k ∈ smallKeys, ∀ d ∈ declaredDeps smallFiles k, k.1 = d.1 ∨
        ((declared smallFiles d).bind (·.visibility)).all (k ∈ ·) = true := by decide
    intro d hd
    refine (hvisible k (wanted_small hk) d hd).imp_right fun hv t ht visibility hvis => ?_
    rw [ht, Option.bind_some, hvis, Option.all_some, decide_eq_true_iff] at hv
    exact hv

end PredictorService.BuildTools.LoadTargets
