/-
  PredictorService.BuildTools.TestRunner — which tests `blade test` runs again
  (build_tools/typhoon-blade/src/blade/test_runner.py, binary_runner.py).

  A history file holds for each test program the stamps at which it was last given to the
  scheduler, or a mark that it failed, and the arguments, the environment and the time of the
  invocation that wrote it. A test whose stamps are the same is skipped, unless the setting
  has changed or the user names it. The scheduler is that of
  `PredictorService.BuildTools.TestScheduler`, in any order of its steps; between two
  invocations the file may be lost or spoiled.

  - `skipped_tests_passed`: a test is skipped only where an earlier invocation ran its program
    at the same stamps (or lost it with its worker), and neither that nor a later one noted a
    failure. Where each later one had the program among its tests, the arguments and the
    environment were the same as well.

  An invocation with other tests writes its own setting for all, as the last example shows.

  A stamp is made of the times of the program, its shared libraries and its test data. Coverage,
  runfiles, the details file and all output are left out.
-/

import PredictorService.BuildTools.DependencyAnalyzer
import PredictorService.BuildTools.TestScheduler
import PredictorService.Lib.Normpath

namespace PredictorService.BuildTools.TestRunner

open PredictorService.Lib (FinMap normpath run run_invariant)
open PredictorService.BuildTools.TestScheduler (TestTarget RunItem TestsRunMap Store)

def ignoreEnvVars : List String :=
  ["PWD", "OLDPWD", "SHLVL", "LC_ALL", "TST_HACK_BASH_SESSION_ID", "BUILD_DISPLAY_NAME", "BUILD_URL", "BUILD_TAG",
    "SVN_REVISION", "BUILD_ID", "START_USER", "EXECUTOR_NUMBER", "NODE_NAME", "NODE_LABELS", "IF_PKG", "BUILD_NUMBER",
    "HUDSON_COOKIE", "SSH_CLIENT", "SSH2_CLIENT", "VIM", "MYVIMRC", "VIMRUNTIME"] ++
  (List.range 30).map fun i => "SVN_REVISION_" ++ toString i

def envIgnoreSet : Finset String := ignoreEnvVars.toFinset

/-- An entry of `test_stamp['md5']`. -/
inductive Md5 where
  /-- Of the program and its libraries, and of the test data. -/
  | sums (sums : String × String)
  /-- `(0, 0)`. -/
  | failed
  deriving DecidableEq

structure TestStamp where
  md5 : FinMap String Md5 := ∅
  testarg : Option String := none
  env : FinMap String String := ∅
  /-- In whole seconds, as it is compared. -/
  inctestTime : Int := 0

/-- The file `.blade.test.stamp`. -/
inductive HistoryFile where
  | missing
  /-- Loading it raises an IOError or a SyntaxError. -/
  | unreadable
  | written (stamp : TestStamp)

/-- One `blade test`. -/
structure Invocation where
  fulltest : Bool := false
  /-- `md5sum(str(self.options.args))`. -/
  testarg : String
  environ : FinMap String String := ∅
  time : Int
  buildDir : String
  /-- `self.targets.values()`. -/
  targets : List TestTarget
  keys : (targets.map TestTarget.key).Nodup
  targetDatabase : Targets := ∅
  directTargets : List Key := []
  /-- The texts of `getmtime` and `getctime` of the files that exist. -/
  stat : String → Option (String × String)
  testJobs : Int := 1
  cpuCoreNum : Nat := 1
  schedule : List TestScheduler.Ev

def validInctestTimeInterval : Int := 86400

/-- `part in s`. -/
def occurs (part s : String) : Bool := s.toList.tails.any (part.toList.isPrefixOf ·)

/-- `os.path.join`. -/
def join (a b : String) : String :=
  if b.toList.head? = some '/' then b
  else if a = "" ∨ a.toList.getLast? = some '/' then a ++ b
  else a ++ "/" ++ b

variable (md5sum : String → String) (cwd : String)

def abspath (path : String) : String := normpath (join cwd path)

def executable (i : Invocation) (t : TestTarget) : String := join (join i.buildDir t.path) t.name

def testFileName (i : Invocation) (t : TestTarget) : String := abspath cwd (executable i t)

def isTest (t : TestTarget) : Bool := "_test".toList.isSuffixOf t.type.toList

def tests (i : Invocation) : List TestTarget := i.targets.filter isTest

/-! ## Stamps -/

/-- The shared libraries of a dynamically linked test. -/
def libraries (i : Invocation) (t : TestTarget) : List String :=
  if t.dynamicLink then
    (i.targetDatabase.lookup t.key).elim [] fun target =>
      (target.expandedDeps.filter fun dep =>
        (i.targetDatabase.lookup dep).any fun depTarget => occurs "cc_library" depTarget.type).map fun dep =>
        abspath cwd (join (join i.buildDir dep.1) ("lib" ++ dep.2 ++ ".so"))
  else []

/-- A source that climbs is not looked at. -/
def dataFiles (t : TestTarget) : List String :=
  (t.testdata.filter fun source => !occurs ".." source).map fun source =>
    if ['/', '/'].isPrefixOf source.toList then abspath cwd (String.ofList (source.toList.drop 2))
    else abspath cwd (t.path ++ "/" ++ source)

/-- The times of the files that exist, in the order of their names. -/
def timesText (i : Invocation) (files : List String) : String :=
  String.join (((files.filter fun f => (i.stat f).isSome).insertionSort (· ≤ ·)).map fun f =>
    (i.stat f).elim "" fun times => times.1 ++ times.2)

def getTestTargetMd5sum (i : Invocation) (t : TestTarget) : String × String :=
  (md5sum (timesText i (testFileName cwd i t :: libraries cwd i t)), md5sum (timesText i (dataFiles cwd t)))

/-! ## Which tests run -/

def lastTestStamp (i : Invocation) : HistoryFile → TestStamp
  | .written stamp => if i.fulltest then {} else stamp
  | _ => {}

def env (i : Invocation) : FinMap String String := FinMap.eraseAll i.environ envIgnoreSet

/-- A later reason replaces an earlier one. -/
def runAllReason (i : Invocation) (file : HistoryFile) : String :=
  if i.fulltest then "FULLTEST"
  else
    let last := lastTestStamp i file
    let interval := i.time - last.inctestTime
    if interval ≥ validInctestTimeInterval ∨ interval < 0 then "STALE"
    else if env i ≠ last.env then "ENVIRONMENT"
    else if some i.testarg ≠ last.testarg then "ARGUMENT"
    else
      match file with
      | .unreadable => "NO_HISTORY"
      | _ => ""

/-- Why a test with other stamps is run. -/
def changedReason (new : String × String) : Option Md5 → String
  | none => "STALE"
  | some .failed => "LAST_FAILED"
  | some (.sums old) => if new.1 ≠ old.1 then "BINARY" else "TESTDATA"

structure Generated where
  md5 : FinMap String Md5 := ∅
  inctestRunList : List TestTarget := []
  testsRunMap : TestsRunMap := ∅

def addTarget (i : Invocation) (file : HistoryFile) (g : Generated) (t : TestTarget) : Generated :=
  let name := testFileName cwd i t
  let new := getTestTargetMd5sum md5sum cwd i t
  let old := (lastTestStamp i file).md5.lookup name
  let item (reason : String) : TestsRunMap := g.testsRunMap.insert t.key { runfile := name, reason }
  let g := { g with md5 := g.md5.insert name (.sums new) }
  if runAllReason i file ≠ "" then { g with testsRunMap := item (runAllReason i file) }
  else if t.key ∈ i.directTargets then
    { g with inctestRunList := g.inctestRunList ++ [t], testsRunMap := item "EXPLICIT" }
  else if some (.sums new) ≠ old then
    { g with inctestRunList := g.inctestRunList ++ [t], testsRunMap := item (changedReason new old) }
  else g

/-- The loop of `_generate_inctest_run_list`. -/
def generateInctestRunList (i : Invocation) (file : HistoryFile) : Generated :=
  (tests i).foldl (addTarget md5sum cwd i file) {}

def skips (i : Invocation) (file : HistoryFile) (t : TestTarget) : Bool :=
  runAllReason i file = "" ∧ t ∉ (generateInctestRunList md5sum cwd i file).inctestRunList ∧ t.alwaysRun = false

def testsRunList (i : Invocation) (file : HistoryFile) : List TestTarget :=
  (tests i).filter (!skips md5sum cwd i file ·)

def skippedTests (i : Invocation) (file : HistoryFile) : List TestTarget :=
  (tests i).filter (skips md5sum cwd i file ·)

/-! ## The history -/

/-- A failed test is not skipped the next time. -/
def markFailed (i : Invocation) (md5 : FinMap String Md5) (p : TestTarget × Int) : FinMap String Md5 :=
  if testFileName cwd i p.1 ∈ md5 then md5.insert (testFileName cwd i p.1) .failed else md5

/-- What is written after the scheduler has left `m`. Old entries stay where there is no new one. -/
def testStamp (i : Invocation) (file : HistoryFile) (m : Store) : TestStamp where
  md5 := m.failedTargets.foldl (markFailed cwd i)
    ((generateInctestRunList md5sum cwd i file).md5 ∪ (lastTestStamp i file).md5)
  testarg := some i.testarg
  env := env i
  inctestTime := i.time

/-- What is known of an invocation afterwards. -/
structure Report where
  invocation : Invocation
  testsRunList : List TestTarget
  skippedTests : List TestTarget
  store : Store
  exitCode : Nat

structure St where
  file : HistoryFile := .missing
  /-- Latest first. -/
  past : List Report := []

inductive Ev where
  | invoke (i : Invocation)
  /-- The file is removed, as it is when it is oversized. -/
  | lose
  | spoil

def reportOf (i : Invocation) (file : HistoryFile) (m : Store) : Report where
  invocation := i
  testsRunList := testsRunList md5sum cwd i file
  skippedTests := skippedTests md5sum cwd i file
  store := m
  exitCode := if m.failedTargets = [] then 0 else 1

/-- `run` of a runner, with the steps that its scheduler takes. -/
def step (s : St) : Ev → Option St
  | .lose => some { s with file := .missing }
  | .spoil => some { s with file := .unreadable }
  | .invoke i =>
    let scheduler := TestScheduler.scheduleJobs (testsRunList md5sum cwd i s.file)
      (generateInctestRunList md5sum cwd i s.file).testsRunMap i.cpuCoreNum i.testJobs
    (run TestScheduler.step scheduler i.schedule).bind fun t =>
      if t.phase = .returned then
        some
          { file := .written (testStamp md5sum cwd i s.file t.store)
            past := reportOf md5sum cwd i s.file t.store :: s.past }
      else none

/-! ## What an invocation does -/

theorem tests_keys (i : Invocation) (p : TestTarget → Bool) :
    (((tests i).filter p).map TestTarget.key).Nodup :=
  i.keys.sublist ((List.filter_sublist.trans List.filter_sublist).map TestTarget.key)

variable {md5sum : String → String} {cwd : String} {i : Invocation} {file : HistoryFile}

theorem step_invoke {s t : St} (h : step md5sum cwd s (.invoke i) = some t) :
    ∃ m, TestScheduler.Reported (testsRunList md5sum cwd i s.file)
        (generateInctestRunList md5sum cwd i s.file).testsRunMap m ∧
      t = { file := .written (testStamp md5sum cwd i s.file m), past := reportOf md5sum cwd i s.file m :: s.past } := by
  obtain ⟨u, hrun, hu⟩ := Option.bind_eq_some_iff.mp h
  obtain ⟨hphase, rfl⟩ := Lib.guard_some.mp hu
  exact ⟨u.store, TestScheduler.reported (tests_keys i _) hrun hphase, rfl⟩

theorem addTarget_md5 (g : Generated) (t : TestTarget) : (addTarget md5sum cwd i file g t).md5 =
    g.md5.insert (testFileName cwd i t) (.sums (getTestTargetMd5sum md5sum cwd i t)) := by
  unfold addTarget
  simp only
  split
  · rfl
  · split
    · rfl
    · split <;> rfl

theorem addTarget_inctestRunList (g : Generated) (t : TestTarget) :
    (addTarget md5sum cwd i file g t).inctestRunList =
      if runAllReason i file = "" ∧ (t.key ∈ i.directTargets ∨
        (lastTestStamp i file).md5.lookup (testFileName cwd i t) ≠
          some (.sums (getTestTargetMd5sum md5sum cwd i t))) then g.inctestRunList ++ [t]
      else g.inctestRunList := by
  unfold addTarget
  simp only
  split
  · rename_i hreason
    rw [if_neg fun h => hreason h.1]
  · rename_i hreason
    rw [not_not] at hreason
    split
    · rename_i hdirect
      rw [if_pos ⟨hreason, .inl hdirect⟩]
    · rename_i hdirect
      split
      · rename_i hnew
        rw [if_pos ⟨hreason, .inr hnew.symm⟩]
      · rename_i hnew
        rw [not_not] at hnew
        rw [if_neg fun h => h.2.elim hdirect fun hne => hne hnew.symm]

/-- A program has the stamps of the last of its tests. -/
theorem lookup_foldl_addTarget (l : List TestTarget) (g : Generated) (name : String) :
    (∃ t ∈ l, testFileName cwd i t = name ∧ (l.foldl (addTarget md5sum cwd i file) g).md5.lookup name =
      some (.sums (getTestTargetMd5sum md5sum cwd i t))) ∨
    ((∀ t ∈ l, testFileName cwd i t ≠ name) ∧
      (l.foldl (addTarget md5sum cwd i file) g).md5.lookup name = g.md5.lookup name) := by
  induction l generalizing g with
  | nil => exact .inr ⟨nofun, rfl⟩
  | cons t l ih =>
    rw [List.foldl_cons]
    rcases ih (addTarget md5sum cwd i file g t) with ⟨u, hu, hname, hlookup⟩ | ⟨hnone, hlookup⟩
    · exact .inl ⟨u, List.mem_cons_of_mem _ hu, hname, hlookup⟩
    · rw [addTarget_md5, FinMap.lookup_insert_ite] at hlookup
      by_cases ht : name = testFileName cwd i t
      · rw [if_pos ht] at hlookup
        exact .inl ⟨t, List.mem_cons_self, ht.symm, hlookup⟩
      · rw [if_neg ht] at hlookup
        refine .inr ⟨fun u hu => ?_, hlookup⟩
        rcases List.mem_cons.mp hu with rfl | hu
        · exact fun h => ht h.symm
        · exact hnone u hu

theorem mem_foldl_addTarget {l : List TestTarget} {g : Generated} {t : TestTarget} (ht : t ∈ g.inctestRunList) :
    t ∈ (l.foldl (addTarget md5sum cwd i file) g).inctestRunList := by
  induction l generalizing g with
  | nil => exact ht
  | cons u l ih =>
    refine ih ?_
    rw [addTarget_inctestRunList]
    split
    · exact List.mem_append_left _ ht
    · exact ht

/-- A test that is not chosen has its old stamps. -/
theorem lookup_of_not_mem_inctestRunList (hreason : runAllReason i file = "") {l : List TestTarget} {g : Generated}
    {t : TestTarget} (ht : t ∈ l) (hno : t ∉ (l.foldl (addTarget md5sum cwd i file) g).inctestRunList) :
    (lastTestStamp i file).md5.lookup (testFileName cwd i t) = some (.sums (getTestTargetMd5sum md5sum cwd i t)) := by
  induction l generalizing g with
  | nil => cases ht
  | cons u l ih =>
    rcases List.mem_cons.mp ht with rfl | ht
    · have hout : t ∉ (addTarget md5sum cwd i file g t).inctestRunList := by
        intro h
        have hmem : t ∈ (l.foldl (addTarget md5sum cwd i file) (addTarget md5sum cwd i file g t)).inctestRunList :=
          mem_foldl_addTarget h
        exact hno hmem
      rw [addTarget_inctestRunList] at hout
      by_contra hne
      rw [if_pos ⟨hreason, .inr hne⟩] at hout
      exact hout (List.mem_append_right _ (List.mem_singleton_self _))
    · exact ih ht hno

/-- Where there is no reason to run all, the setting is that of the history. -/
theorem written_of_runAllReason (h : runAllReason i file = "") : ∃ stamp, file = .written stamp ∧
    lastTestStamp i file = stamp ∧ stamp.testarg = some i.testarg ∧ stamp.env = env i := by
  unfold runAllReason at h
  split at h
  · exact absurd h (by decide)
  · rename_i hfull
    simp only at h
    split at h
    · exact absurd h (by decide)
    · split at h
      · exact absurd h (by decide)
      · rename_i henv
        split at h
        · exact absurd h (by decide)
        · rename_i harg
          rw [not_not] at henv harg
          cases file with
          | missing => cases harg
          | unreadable => cases harg
          | written stamp =>
            have hlast : lastTestStamp i (.written stamp) = stamp := if_neg hfull
            rw [hlast] at henv harg
            exact ⟨stamp, rfl, hlast, harg.symm, henv.symm⟩

theorem lookup_foldl_markFailed {l : List (TestTarget × Int)} {md5 : FinMap String Md5} {name : String}
    {new : String × String} (h : (l.foldl (markFailed cwd i) md5).lookup name = some (.sums new)) :
    md5.lookup name = some (.sums new) ∧ ∀ p ∈ l, testFileName cwd i p.1 ≠ name := by
  induction l generalizing md5 with
  | nil => exact ⟨h, nofun⟩
  | cons p l ih =>
    obtain ⟨hlookup, hnone⟩ := ih h
    have hp : md5.lookup name = some (.sums new) ∧ testFileName cwd i p.1 ≠ name := by
      unfold markFailed at hlookup
      split at hlookup
      · rw [FinMap.lookup_insert_ite] at hlookup
        split at hlookup
        · cases hlookup
        · rename_i hne
          exact ⟨hlookup, fun h => hne h.symm⟩
      · rename_i hnot
        exact ⟨hlookup, fun h => hnot (h ▸ Finmap.mem_of_lookup_eq_some hlookup)⟩
    refine ⟨hp.1, fun q hq => ?_⟩
    rcases List.mem_cons.mp hq with rfl | hq
    · exact hp.2
    · exact hnone q hq

/-! ## What stands behind a stamp -/

/-- The program was run at these stamps, and passed. A test without an exit code was lost: its
    worker raised, or the last one left it in the queue. -/
def Report.Ran (md5sum : String → String) (cwd : String) (r : Report) (name : String) (new : String × String) : Prop :=
  ∃ t ∈ r.testsRunList, testFileName cwd r.invocation t = name ∧
    getTestTargetMd5sum md5sum cwd r.invocation t = new ∧
    ((t, 0) ∈ r.store.ran ∨ t ∈ r.store.raised ++ r.store.jobQueue ++ r.store.exclusiveJobQueue)

def Report.NoFailure (cwd : String) (r : Report) (name : String) : Prop :=
  ∀ p ∈ r.store.ran, testFileName cwd r.invocation p.1 = name → p.2 = 0

def Report.Has (cwd : String) (r : Report) (name : String) : Prop :=
  ∃ t ∈ tests r.invocation, testFileName cwd r.invocation t = name

/-- An invocation in the past ran the program at these stamps. -/
def Backed (md5sum : String → String) (cwd : String) (past : List Report) (name : String) (new : String × String)
    (testarg : String) (setting : FinMap String String) : Prop :=
  ∃ later r earlier, past = later ++ r :: earlier ∧ r.Ran md5sum cwd name new ∧
    (∀ r' ∈ r :: later, r'.NoFailure cwd name) ∧
    ((∀ r' ∈ later, r'.Has cwd name) → r.invocation.testarg = testarg ∧ env r.invocation = setting)

theorem Backed.cons {past : List Report} {name testarg testarg' : String} {new : String × String}
    {setting setting' : FinMap String String} (h : Backed md5sum cwd past name new testarg setting) {r : Report}
    (hr : r.NoFailure cwd name) (hsame : r.Has cwd name → testarg = testarg' ∧ setting = setting') :
    Backed md5sum cwd (r :: past) name new testarg' setting' := by
  obtain ⟨later, r₀, earlier, rfl, hran, hno, hsetting⟩ := h
  refine ⟨r :: later, r₀, earlier, rfl, hran, fun r' hr' => ?_, fun hall => ?_⟩
  · rcases List.mem_cons.mp hr' with rfl | hr'
    · exact hno r' List.mem_cons_self
    · rcases List.mem_cons.mp hr' with rfl | hr'
      · exact hr
      · exact hno r' (List.mem_cons_of_mem _ hr')
  · obtain ⟨rfl, rfl⟩ := hsame (hall r List.mem_cons_self)
    exact hsetting fun r' hr' => hall r' (List.mem_cons_of_mem _ hr')

/-- The history is backed by the past, and so was each skip. -/
structure Inv (md5sum : String → String) (cwd : String) (s : St) : Prop where
  file : ∀ stamp, s.file = .written stamp → ∀ name new, stamp.md5.lookup name = some (.sums new) →
    ∃ testarg, stamp.testarg = some testarg ∧ Backed md5sum cwd s.past name new testarg stamp.env
  skipped : ∀ newer r older, s.past = newer ++ r :: older → ∀ t ∈ r.skippedTests,
    Backed md5sum cwd older (testFileName cwd r.invocation t) (getTestTargetMd5sum md5sum cwd r.invocation t)
      r.invocation.testarg (env r.invocation)
  passed : ∀ r ∈ s.past, r.exitCode = 0 → r.store.raised = [] →
    ∀ t ∈ tests r.invocation, (t, 0) ∈ r.store.ran ∨ t ∈ r.skippedTests

theorem Inv.backed_of_skipped {s : St} (hs : Inv md5sum cwd s) {t : TestTarget}
    (ht : t ∈ skippedTests md5sum cwd i s.file) :
    Backed md5sum cwd s.past (testFileName cwd i t) (getTestTargetMd5sum md5sum cwd i t) i.testarg (env i) := by
  obtain ⟨htests, hskips⟩ := List.mem_filter.mp ht
  obtain ⟨hreason, hno, -⟩ := of_decide_eq_true hskips
  obtain ⟨stamp, hfile, hlast, harg, henv⟩ := written_of_runAllReason hreason
  have hlookup := lookup_of_not_mem_inctestRunList hreason htests hno
  rw [hlast] at hlookup
  obtain ⟨testarg, htestarg, hbacked⟩ := hs.file stamp hfile _ _ hlookup
  rw [harg] at htestarg
  cases htestarg
  rwa [henv] at hbacked

section Reported

variable {m : Store} {runMap : TestsRunMap}
  (hm : TestScheduler.Reported (testsRunList md5sum cwd i file) runMap m)
include hm

/-- Where a test that was to run is. -/
theorem ran_or_lost {t : TestTarget} (ht : t ∈ testsRunList md5sum cwd i file) :
    (∃ returncode, (t, returncode) ∈ m.ran) ∨ t ∈ m.raised ++ m.jobQueue ++ m.exclusiveJobQueue := by
  have hmem := hm.once.symm.subset ht
  simp only [List.append_assoc, List.mem_append] at hmem ⊢
  refine hmem.imp (fun h => ?_) id
  obtain ⟨⟨u, returncode⟩, hp, rfl⟩ := List.mem_map.mp h
  exact ⟨returncode, hp⟩

theorem noFailure_of_testStamp {name : String} {new : String × String}
    (h : (testStamp md5sum cwd i file m).md5.lookup name = some (.sums new)) :
    (reportOf md5sum cwd i file m).NoFailure cwd name := by
  intro p hp hname
  by_contra hne
  have hfailed : p ∈ m.failedTargets := hm.failed.symm.subset (List.mem_filter.mpr ⟨hp, by simpa using hne⟩)
  exact (lookup_foldl_markFailed h).2 p hfailed hname

/-- The history that is written is backed again. -/
theorem Inv.backed_of_written {s : St} (hs : Inv md5sum cwd s) (hfile : s.file = file) {name : String}
    {new : String × String} (h : (testStamp md5sum cwd i file m).md5.lookup name = some (.sums new)) :
    Backed md5sum cwd (reportOf md5sum cwd i file m :: s.past) name new i.testarg (env i) := by
  have hno := noFailure_of_testStamp hm h
  have hold := (lookup_foldl_markFailed h).1
  rw [FinMap.lookup_union] at hold
  rcases lookup_foldl_addTarget (tests i) {} name with ⟨t, ht, hname, hlookup⟩ | ⟨hnone, hlookup⟩
  · -- the program is that of a test of this invocation
    rw [generateInctestRunList, hlookup, Option.some_or] at hold
    cases hold
    cases hskips : skips md5sum cwd i file t with
    | true =>
      have hskipped : t ∈ skippedTests md5sum cwd i s.file := by
        rw [hfile]
        exact List.mem_filter.mpr ⟨ht, hskips⟩
      rw [← hname] at hno ⊢
      exact (hs.backed_of_skipped hskipped).cons hno fun _ => ⟨rfl, rfl⟩
    | false =>
      have hrun : t ∈ testsRunList md5sum cwd i file := List.mem_filter.mpr ⟨ht, by rw [hskips]; rfl⟩
      refine ⟨[], reportOf md5sum cwd i file m, s.past, rfl, ⟨t, hrun, hname, rfl, ?_⟩, ?_, fun _ => ⟨rfl, rfl⟩⟩
      · refine (ran_or_lost hm hrun).imp_left fun ⟨returncode, hp⟩ => ?_
        obtain rfl : returncode = 0 := hno (t, returncode) hp hname
        exact hp
      · intro r' hr'
        rw [List.mem_singleton.mp hr']
        exact hno
  · -- the entry is an old one
    have hempty : (∅ : FinMap String Md5).lookup name = none := Finmap.lookup_empty name
    rw [generateInctestRunList, hlookup, hempty, Option.none_or] at hold
    subst hfile
    cases hs' : s.file with
    | missing => simp [hs', lastTestStamp] at hold
    | unreadable => simp [hs', lastTestStamp] at hold
    | written stamp =>
      rw [hs', lastTestStamp] at hold
      split at hold
      · simp at hold
      · obtain ⟨testarg, -, hbacked⟩ := hs.file stamp hs' name new hold
        exact hbacked.cons (hs' ▸ hno) fun ⟨t, ht, hname⟩ => absurd hname (hnone t ht)

end Reported

theorem inv_step {s t : St} {e : Ev} (hs : Inv md5sum cwd s) (h : step md5sum cwd s e = some t) : Inv md5sum cwd t := by
  cases e with
  | lose =>
    cases h
    exact ⟨nofun, hs.skipped, hs.passed⟩
  | spoil =>
    cases h
    exact ⟨nofun, hs.skipped, hs.passed⟩
  | invoke i =>
    obtain ⟨m, hm, rfl⟩ := step_invoke h
    refine ⟨fun stamp hstamp name new hlookup => ?_, fun newer r older hpast t ht => ?_, fun r hr => ?_⟩
    · cases hstamp
      refine ⟨i.testarg, rfl, ?_⟩
      simp only [testStamp]
      exact hs.backed_of_written hm rfl hlookup
    · cases newer with
      | nil =>
        obtain ⟨rfl, rfl⟩ := List.cons.inj hpast
        exact hs.backed_of_skipped ht
      | cons r' newer =>
        exact hs.skipped newer r older (List.cons.inj hpast).2 t ht
    · rcases List.mem_cons.mp hr with rfl | hr
      · intro hexit hraised t ht
        have hfailed : m.failedTargets = [] := by
          by_contra hne
          simp [reportOf, hne] at hexit
        cases hskips : skips md5sum cwd i s.file t with
        | true => exact .inr (List.mem_filter.mpr ⟨ht, hskips⟩)
        | false =>
          have hrun : t ∈ testsRunList md5sum cwd i s.file := List.mem_filter.mpr ⟨ht, by rw [hskips]; rfl⟩
          obtain ⟨hjobs, hexclusive⟩ := hm.left hraised
          rcases ran_or_lost hm hrun with ⟨returncode, hp⟩ | hlost
          · have hzero : returncode = 0 := by
              by_contra hne
              have hmem := hm.failed.symm.subset (List.mem_filter.mpr ⟨hp, by simpa using hne⟩)
              rw [hfailed] at hmem
              cases hmem
            exact .inl (hzero ▸ hp)
          · rw [show m.raised = [] from hraised, hjobs, hexclusive] at hlost
            cases hlost
      · exact hs.passed r hr

def unitTest : TestTarget := { path := "server", name := "unit_test", type := "cc_test" }

def slowTest : TestTarget := { path := "server", name := "slow_test", type := "cc_test" }

/-- One worker runs one test, which passes. -/
def oneTest : List TestScheduler.Ev := List.replicate 6 (.work 0 (.exited 0)) ++ [.join]

def invocationOf (testarg : String) (time : Int) (t : TestTarget) (schedule : List TestScheduler.Ev) : Invocation where
  testarg := testarg
  time := time
  buildDir := "build64_release"
  targets := [t]
  keys := List.nodup_singleton _
  stat := fun _ => some ("1", "2")
  schedule := schedule

/-- A skipped test has passed at its stamps, and so has each test of an invocation that exits
    with 0 and loses no worker. -/
theorem skipped_tests_passed {es : List Ev} {s : St} (h : run (step md5sum cwd) {} es = some s)
    {newer older : List Report} {r : Report} (hpast : s.past = newer ++ r :: older) :
    (∀ t ∈ r.skippedTests, Backed md5sum cwd older (testFileName cwd r.invocation t)
      (getTestTargetMd5sum md5sum cwd r.invocation t) r.invocation.testarg (env r.invocation)) ∧
    (r.exitCode = 0 → r.store.raised = [] →
      ∀ t ∈ tests r.invocation, (t, 0) ∈ r.store.ran ∨ t ∈ r.skippedTests) := by
  have hstart : Inv md5sum cwd {} := by
    refine ⟨nofun, fun newer _ _ hnil => ?_, nofun⟩
    cases newer <;> cases hnil
  have hinv : Inv md5sum cwd s := run_invariant _ _ (fun _ _ _ hs hstep => inv_step hs hstep) hstart h
  refine ⟨hinv.skipped newer r older hpast, hinv.passed r ?_⟩
  rw [hpast]
  exact List.mem_append_right _ List.mem_cons_self

theorem skipped_tests_passed_unitTest :
    ∃ s r older, run (step id "/w") {} [.invoke (invocationOf "a" 100000 unitTest oneTest),
        .invoke (invocationOf "a" 100060 unitTest [])] = some s ∧ s.past = [] ++ r :: older ∧
      r.skippedTests = [unitTest] ∧
      (∀ t ∈ r.skippedTests, Backed id "/w" older (testFileName "/w" r.invocation t)
        (getTestTargetMd5sum id "/w" r.invocation t) r.invocation.testarg (env r.invocation)) ∧
      (r.exitCode = 0 → r.store.raised = [] →
        ∀ t ∈ tests r.invocation, (t, 0) ∈ r.store.ran ∨ t ∈ r.skippedTests) := by
  have hskipped : (run (step id "/w") {} [.invoke (invocationOf "a" 100000 unitTest oneTest),
      .invoke (invocationOf "a" 100060 unitTest [])]).map (fun s => s.past.map (·.skippedTests)) =
      some [[unitTest], []] := by
    decide +kernel
  obtain ⟨s, hs, hpast⟩ := Option.map_eq_some_iff.mp hskipped
  obtain ⟨r, older, hpast, hunit, -⟩ := List.map_eq_cons_iff.mp hpast
  exact ⟨s, r, older, hs, hpast, hunit, skipped_tests_passed hs (show s.past = [] ++ r :: older from hpast)⟩

/-- An invocation with other tests writes its own arguments for all: the second run of
    `unit_test` would have been one with the arguments `b`. -/
example : (run (step id "/w") {} [.invoke (invocationOf "a" 100000 unitTest oneTest),
        .invoke (invocationOf "b" 100060 slowTest oneTest), .invoke (invocationOf "b" 100120 unitTest [])]).map
      (fun s => s.past.map fun r => (r.invocation.testarg, r.testsRunList, r.skippedTests)) =
    some [("b", [], [unitTest]), ("b", [slowTest], []), ("a", [unitTest], [])] := by
  decide +kernel

end PredictorService.BuildTools.TestRunner
