/-
  PredictorService.BuildTools.TestScheduler — blade's test scheduler
  (build_tools/typhoon-blade/src/blade/test_scheduler.py).

  Worker threads take tests from a queue, run each in a process and note how it ended, each
  of the three notes under a lock of its own. Exclusive tests wait in another queue, for one
  worker that starts when all others have ended. A worker here is where its thread stands,
  and a run is any interleaving of the workers with the main thread.

  How a test's process ends is the world's (`Outcome`; a test that is killed for its timeout
  ends with a signal). `_process_job` catches an OSError. Any other exception ends the worker,
  and nobody hears of the test again (`raised`).

  - `exclusive_alone`: while an exclusive test runs, no other test does.
  - `schedule_jobs_returns`: in any order of the steps `schedule_jobs` returns, and every test
    was run once, with its result noted, unless it was lost with its worker or left behind by
    the last one.

  Logs, output and times are left out, and what ends the main thread while it waits: an
  interrupt, and an exception of the kill of a test whose time is up.
-/

import Mathlib.Algebra.GroupWithZero.Nat
import Mathlib.Data.List.Perm.Basic
import PredictorService.Lib.FinMap
import PredictorService.Lib.Runs

namespace PredictorService.BuildTools.TestScheduler

open PredictorService.Lib (FinMap run run_invariant run_length_le guard_some)

/-- What is read of a target here and in `PredictorService.BuildTools.TestRunner`. -/
structure TestTarget where
  path : String
  name : String
  type : String
  exclusive : Bool := false
  alwaysRun : Bool := false
  dynamicLink : Bool := false
  /-- The sources; where a file is put in the runfiles is left out. -/
  testdata : List String := []
  deriving DecidableEq

def TestTarget.key (t : TestTarget) : String × String := (t.path, t.name)

/-- An item of `tests_run_map`. -/
structure RunItem where
  runfile : String
  result : String := ""
  reason : String
  deriving DecidableEq

abbrev TestsRunMap := FinMap (String × String) RunItem

def signalMap : List (Int × String) :=
  [(-1, "SIGHUP"), (-2, "SIGINT"), (-3, "SIGQUIT"), (-4, "SIGILL"), (-5, "SIGTRAP"), (-6, "SIGABRT"), (-7, "SIGBUS"),
    (-8, "SIGFPE"), (-9, "SIGKILL"), (-10, "SIGUSR1"), (-11, "SIGSEGV"), (-12, "SIGUSR2"), (-13, "SIGPIPE"),
    (-14, "SIGALRM"), (-15, "SIGTERM"), (-17, "SIGCHLD"), (-18, "SIGCONT"), (-19, "SIGSTOP"), (-20, "SIGTSTP"),
    (-21, "SIGTTIN"), (-22, "SIGTTOU"), (-23, "SIGURG"), (-24, "SIGXCPU"), (-25, "SIGXFSZ"), (-26, "SIGVTALRM"),
    (-27, "SIGPROF"), (-28, "SIGWINCH"), (-29, "SIGIO"), (-30, "SIGPWR"), (-31, "SIGSYS")]

def getResult (returncode : Int) : String :=
  if returncode = 0 then "SUCCESS" else (signalMap.lookup returncode).getD "FAILED" ++ ":" ++ toString returncode

def maxWorkerThreads : Nat := 16

def getWorkersNum (cpuCoreNum : Nat) (jobs : Int) (numOfTests : Nat) : Nat :=
  if jobs ≤ 1 then 1 else min numOfTests (min jobs.toNat (max cpuCoreNum maxWorkerThreads))

/-- How `_run_job` ends. -/
inductive Outcome where
  | exited (returncode : Int)
  | osError
  /-- Another exception, which leaves `_process_job`. -/
  | raised

def Outcome.returncode : Outcome → Option Int
  | .exited returncode => some returncode
  | .osError => some 255
  | .raised => none

/-- What the threads share. -/
structure Store where
  jobQueue : List TestTarget := []
  exclusiveJobQueue : List TestTarget := []
  testsRunMap : TestsRunMap := ∅
  /-- With their `test_exit_code`. -/
  failedTargets : List (TestTarget × Int) := []
  numOfRunTests : Nat := 0
  /-- The tests that were run to their end, latest first. -/
  ran : List (TestTarget × Int) := []
  raised : List TestTarget := []

/-- Where a worker thread stands in `run` and `_process_job`. -/
inductive Worker where
  /-- Before `while not job_queue.empty()`. -/
  | loop
  /-- Before `get_nowait`. -/
  | get
  | run (t : TestTarget)
  | fail (t : TestTarget) (returncode : Int)
  | record (t : TestTarget) (returncode : Int)
  | count
  | ended
  deriving DecidableEq

def Store.queue (m : Store) (exclusive : Bool) : List TestTarget :=
  if exclusive then m.exclusiveJobQueue else m.jobQueue

def Store.setQueue (m : Store) (exclusive : Bool) (queue : List TestTarget) : Store :=
  if exclusive then { m with exclusiveJobQueue := queue } else { m with jobQueue := queue }

/-- Only a test that has an item gets a result. -/
def Store.recordResult (m : Store) (t : TestTarget) (returncode : Int) : Store :=
  match m.testsRunMap.lookup t.key with
  | none => m
  | some item => { m with testsRunMap := m.testsRunMap.insert t.key { item with result := getResult returncode } }

/-- The next step of a worker on its queue. -/
def advance (exclusive : Bool) (x : Outcome) (m : Store) : Worker → Option (Store × Worker)
  | .loop => some (m, if m.queue exclusive = [] then .ended else .get)
  | .get =>
    match m.queue exclusive with
    | [] => some (m, .loop)
    | t :: rest => some (m.setQueue exclusive rest, .run t)
  | .run t =>
    match x.returncode with
    | none => some ({ m with raised := t :: m.raised }, .ended)
    | some returncode =>
      some ({ m with ran := (t, returncode) :: m.ran },
        if returncode = 0 then .record t returncode else .fail t returncode)
  | .fail t returncode => some ({ m with failedTargets := m.failedTargets ++ [(t, returncode)] }, .record t returncode)
  | .record t returncode => some (m.recordResult t returncode, .count)
  | .count => some ({ m with numOfRunTests := m.numOfRunTests + 1 }, .loop)
  | .ended => none

inductive Phase where
  /-- The main thread waits for the workers of a queue. -/
  | running (exclusive : Bool)
  | returned
  deriving DecidableEq

structure St where
  phase : Phase
  store : Store
  workers : List Worker

inductive Ev where
  /-- Worker `i` goes on; `x` is how its test ends, if it runs one. -/
  | work (i : Nat) (x : Outcome)
  /-- The main thread finds that all workers have ended. -/
  | join

def AllEnded (s : St) : Prop := ∀ w ∈ s.workers, w = .ended

instance (s : St) : Decidable (AllEnded s) := inferInstanceAs (Decidable (∀ w ∈ s.workers, w = .ended))

/-- After the workers of a queue. -/
def afterWorkers (s : St) (exclusive : Bool) : St :=
  if exclusive = false ∧ s.store.exclusiveJobQueue ≠ [] then { s with phase := .running true, workers := [.loop] }
  else { s with phase := .returned }

def step (s : St) : Ev → Option St
  | .work i x =>
    match s.phase, s.workers[i]? with
    | .running exclusive, some w =>
      (advance exclusive x s.store w).map fun p => { s with store := p.1, workers := s.workers.set i p.2 }
    | _, _ => none
  | .join =>
    match s.phase with
    | .running exclusive => if AllEnded s then some (afterWorkers s exclusive) else none
    | .returned => none

/-- `schedule_jobs` of a scheduler, up to its wait for the workers. -/
def scheduleJobs (testsList : List TestTarget) (testsRunMap : TestsRunMap) (cpuCoreNum : Nat) (jobs : Int) : St :=
  let store : Store :=
    { jobQueue := testsList.filter (!·.exclusive)
      exclusiveJobQueue := testsList.filter (·.exclusive)
      testsRunMap }
  if testsList = [] then { phase := .returned, store, workers := [] }
  else
    { phase := .running false, store
      workers := List.replicate (getWorkersNum cpuCoreNum jobs testsList.length) .loop }

/-! ## What a step can do -/

/-- The steps of a worker. -/
inductive Advance (exclusive : Bool) (m : Store) : Worker → Store → Worker → Prop
  | finish : m.queue exclusive = [] → Advance exclusive m .loop m .ended
  | look : m.queue exclusive ≠ [] → Advance exclusive m .loop m .get
  | miss : m.queue exclusive = [] → Advance exclusive m .get m .loop
  | take (t : TestTarget) (rest : List TestTarget) : m.queue exclusive = t :: rest →
      Advance exclusive m .get (m.setQueue exclusive rest) (.run t)
  | raise (t : TestTarget) : Advance exclusive m (.run t) { m with raised := t :: m.raised } .ended
  | pass (t : TestTarget) : Advance exclusive m (.run t) { m with ran := (t, 0) :: m.ran } (.record t 0)
  | fail (t : TestTarget) (returncode : Int) : returncode ≠ 0 →
      Advance exclusive m (.run t) { m with ran := (t, returncode) :: m.ran } (.fail t returncode)
  | note (t : TestTarget) (returncode : Int) :
      Advance exclusive m (.fail t returncode) { m with failedTargets := m.failedTargets ++ [(t, returncode)] }
        (.record t returncode)
  | record (t : TestTarget) (returncode : Int) :
      Advance exclusive m (.record t returncode) (m.recordResult t returncode) .count
  | count : Advance exclusive m .count { m with numOfRunTests := m.numOfRunTests + 1 } .loop

theorem advance_some {exclusive : Bool} {x : Outcome} {m m' : Store} {w w' : Worker}
    (h : advance exclusive x m w = some (m', w')) : Advance exclusive m w m' w' := by
  cases w with
  | loop =>
    cases h
    split
    · exact .finish ‹_›
    · exact .look ‹_›
  | get =>
    simp only [advance] at h
    split at h
    · cases h
      exact .miss ‹_›
    · rename_i t rest hqueue
      cases h
      exact .take t rest hqueue
  | run t =>
    simp only [advance] at h
    split at h
    · cases h
      exact .raise t
    · cases h
      split
      · rename_i hzero
        rw [hzero]
        exact .pass t
      · exact .fail t _ ‹_›
  | fail t returncode =>
    cases h
    exact .note t returncode
  | record t returncode =>
    cases h
    exact .record t returncode
  | count =>
    cases h
    exact .count
  | ended => cases h

theorem step_work {s t : St} {i : Nat} {x : Outcome} (h : step s (.work i x) = some t) :
    ∃ exclusive before w after m w', s.phase = .running exclusive ∧ s.workers = before ++ w :: after ∧
      Advance exclusive s.store w m w' ∧
      t = { s with store := m, workers := before ++ w' :: after } := by
  simp only [step] at h
  cases hphase : s.phase with
  | returned =>
    rw [hphase] at h
    cases h
  | running exclusive =>
    cases hw : s.workers[i]? with
    | none =>
      rw [hphase, hw] at h
      cases h
    | some w =>
      rw [hphase, hw] at h
      obtain ⟨⟨m, w'⟩, hadvance, rfl⟩ := Option.map_eq_some_iff.mp h
      obtain ⟨hlt, hget⟩ := List.getElem?_eq_some_iff.mp hw
      refine ⟨exclusive, s.workers.take i, w, s.workers.drop (i + 1), m, w', rfl, ?_, advance_some hadvance, ?_⟩
      · rw [← hget, List.getElem_cons_drop, List.take_append_drop]
      · rw [List.set_eq_take_append_cons_drop, if_pos hlt]

theorem step_join {s t : St} (h : step s .join = some t) :
    ∃ exclusive, s.phase = .running exclusive ∧ AllEnded s ∧ t = afterWorkers s exclusive := by
  simp only [step] at h
  cases hphase : s.phase with
  | returned =>
    rw [hphase] at h
    cases h
  | running exclusive =>
    rw [hphase] at h
    obtain ⟨hended, rfl⟩ := guard_some.mp h
    exact ⟨exclusive, rfl, hended, rfl⟩

/-! ## The workers together -/

/-- The test whose process is running. -/
def Worker.running : Worker → List TestTarget
  | .run t => [t]
  | _ => []

/-- The failure that is not yet among the failed targets. -/
def Worker.failing : Worker → List (TestTarget × Int)
  | .fail t returncode => [(t, returncode)]
  | _ => []

/-- The test that has ended and is not yet in `tests_run_map`. -/
def Worker.unrecorded : Worker → List (TestTarget × Int)
  | .fail t returncode => [(t, returncode)]
  | .record t returncode => [(t, returncode)]
  | _ => []

def Worker.uncounted : Worker → Nat
  | .fail _ _ => 1
  | .record _ _ => 1
  | .count => 1
  | _ => 0

/-- The tests that are running. -/
def running (s : St) : List TestTarget := s.workers.flatMap Worker.running

def unrecorded (s : St) : List (TestTarget × Int) := s.workers.flatMap Worker.unrecorded

/-- Where a test can be that no process is running. -/
def Store.held (m : Store) : List TestTarget := m.jobQueue ++ m.exclusiveJobQueue ++ m.ran.map (·.1) ++ m.raised

def Store.failures (m : Store) : List (TestTarget × Int) := m.ran.filter (·.2 ≠ 0)

theorem count_flatMap {α : Type} [BEq α] (f : Worker → List α) (before : List Worker) (w : Worker)
    (after : List Worker) (a : α) :
    ((before ++ w :: after).flatMap f).count a = (f w).count a + ((before ++ after).flatMap f).count a := by
  simp only [List.flatMap_append, List.flatMap_cons, List.count_append]
  omega

theorem mem_flatMap {α : Type} (f : Worker → List α) (before : List Worker) (w : Worker) (after : List Worker) (a : α) :
    a ∈ (before ++ w :: after).flatMap f ↔ a ∈ f w ∨ a ∈ (before ++ after).flatMap f := by
  simp only [List.flatMap_append, List.flatMap_cons, List.mem_append]
  tauto

theorem queue_setQueue (m : Store) (exclusive : Bool) (queue : List TestTarget) :
    (m.setQueue exclusive queue).queue exclusive = queue := by
  cases exclusive <;> rfl

theorem queue_setQueue_not (m : Store) (exclusive : Bool) (queue : List TestTarget) :
    (m.setQueue exclusive queue).queue (!exclusive) = m.queue (!exclusive) := by
  cases exclusive <;> rfl

/-- The notes of a store with another queue. -/
theorem setQueue_same (m : Store) (exclusive : Bool) (queue : List TestTarget) :
    (m.setQueue exclusive queue).ran = m.ran ∧ (m.setQueue exclusive queue).raised = m.raised ∧
      (m.setQueue exclusive queue).failedTargets = m.failedTargets ∧
      (m.setQueue exclusive queue).numOfRunTests = m.numOfRunTests ∧
      (m.setQueue exclusive queue).testsRunMap = m.testsRunMap := by
  cases exclusive <;> exact ⟨rfl, rfl, rfl, rfl, rfl⟩

theorem recordResult_same (m : Store) (t : TestTarget) (returncode : Int) :
    (m.recordResult t returncode).ran = m.ran ∧ (m.recordResult t returncode).raised = m.raised ∧
      (m.recordResult t returncode).failedTargets = m.failedTargets ∧
      (m.recordResult t returncode).numOfRunTests = m.numOfRunTests ∧
      (m.recordResult t returncode).jobQueue = m.jobQueue ∧
      (m.recordResult t returncode).exclusiveJobQueue = m.exclusiveJobQueue := by
  unfold Store.recordResult
  split <;> exact ⟨rfl, rfl, rfl, rfl, rfl, rfl⟩

section Advance

variable {exclusive : Bool} {m m' : Store} {w w' : Worker}

/-- Taking a test from a queue. -/
theorem count_held_take {t : TestTarget} {rest : List TestTarget} (hqueue : m.queue exclusive = t :: rest)
    (a : TestTarget) : (m.setQueue exclusive rest).held.count a + [t].count a = m.held.count a := by
  cases exclusive with
  | false =>
    have hjobs : m.jobQueue = t :: rest := hqueue
    simp only [Store.held, Store.setQueue, Bool.false_eq_true, if_false, hjobs, List.count_append, List.count_cons,
      List.count_nil]
    omega
  | true =>
    have hjobs : m.exclusiveJobQueue = t :: rest := hqueue
    simp only [Store.held, Store.setQueue, if_true, hjobs, List.count_append, List.count_cons, List.count_nil]
    omega

/-- No test is lost or doubled, and none changes its place without notice. -/
theorem advance_held (h : Advance exclusive m w m' w') (a : TestTarget) :
    m'.held.count a + w'.running.count a = m.held.count a + w.running.count a := by
  cases h with
  | take t rest hqueue => exact count_held_take hqueue a
  | raise t =>
    simp only [Store.held, Worker.running, List.count_append, List.count_cons, List.count_nil]
    omega
  | pass t =>
    simp only [Store.held, Worker.running, List.map_cons, List.count_append, List.count_cons, List.count_nil]
    omega
  | fail t returncode =>
    simp only [Store.held, Worker.running, List.map_cons, List.count_append, List.count_cons, List.count_nil]
    omega
  | record t returncode =>
    obtain ⟨hran, hraised, -, -, hjobs, hexclusive⟩ := recordResult_same m t returncode
    simp only [Store.held, hran, hraised, hjobs, hexclusive, Worker.running]
  | _ => rfl

theorem advance_failures (h : Advance exclusive m w m' w') (a : TestTarget × Int) :
    m'.failedTargets.count a + w'.failing.count a + m.failures.count a =
      m.failedTargets.count a + w.failing.count a + m'.failures.count a := by
  cases h with
  | take t rest =>
    obtain ⟨hran, -, hfailed, -⟩ := setQueue_same m exclusive rest
    simp only [Store.failures, hran, hfailed, Worker.failing]
  | pass t => simp [Store.failures, Worker.failing]
  | fail t returncode hne =>
    have hfilter : ((t, returncode) :: m.ran).filter (·.2 ≠ 0) = (t, returncode) :: m.ran.filter (·.2 ≠ 0) :=
      List.filter_cons_of_pos (by simpa using hne)
    simp only [Store.failures, Worker.failing, hfilter, List.count_cons, List.count_nil]
    omega
  | note t returncode =>
    simp only [Store.failures, Worker.failing, List.count_append, List.count_nil]
    omega
  | record t returncode =>
    obtain ⟨hran, -, hfailed, -⟩ := recordResult_same m t returncode
    simp only [Store.failures, hran, hfailed, Worker.failing]
  | _ => rfl

theorem advance_counted (h : Advance exclusive m w m' w') :
    m'.numOfRunTests + w'.uncounted + m.ran.length = m.numOfRunTests + w.uncounted + m'.ran.length := by
  cases h with
  | take t rest =>
    obtain ⟨hran, -, -, hnum, -⟩ := setQueue_same m exclusive rest
    simp only [hran, hnum, Worker.uncounted]
  | pass t =>
    simp only [Worker.uncounted, List.length_cons]
    omega
  | fail t returncode =>
    simp only [Worker.uncounted, List.length_cons]
    omega
  | record t returncode =>
    obtain ⟨hran, -, -, hnum, -⟩ := recordResult_same m t returncode
    simp only [hran, hnum, Worker.uncounted]
  | _ => rfl

end Advance

/-! ## Every test once -/

structure Accounts (testsList : List TestTarget) (s : St) : Prop where
  once : ∀ a, s.store.held.count a + (running s).count a = testsList.count a
  failed : ∀ a, s.store.failedTargets.count a + (s.workers.flatMap Worker.failing).count a = s.store.failures.count a
  counted : s.store.numOfRunTests + (s.workers.map Worker.uncounted).sum = s.store.ran.length

theorem flatMap_ended {α : Type} {f : Worker → List α} (hf : f .ended = []) {s : St} (h : AllEnded s) :
    s.workers.flatMap f = [] := by
  refine List.flatMap_eq_nil_iff.mpr fun w hw => ?_
  rw [h w hw, hf]

theorem uncounted_ended {s : St} (h : AllEnded s) : (s.workers.map Worker.uncounted).sum = 0 := by
  refine List.sum_eq_zero fun n hn => ?_
  obtain ⟨w, hw, rfl⟩ := List.mem_map.mp hn
  rw [h w hw]
  rfl

theorem flatMap_loops {α : Type} {f : Worker → List α} (hf : f .loop = []) (n : Nat) :
    (List.replicate n Worker.loop).flatMap f = [] := by
  refine List.flatMap_eq_nil_iff.mpr fun w hw => ?_
  rw [List.eq_of_mem_replicate hw, hf]

/-- Between the two queues nothing is noted and no test runs. -/
theorem afterWorkers_same {s : St} (h : AllEnded s) (exclusive : Bool) :
    (afterWorkers s exclusive).store = s.store ∧ running (afterWorkers s exclusive) = [] ∧
      unrecorded (afterWorkers s exclusive) = [] ∧ (afterWorkers s exclusive).workers.flatMap Worker.failing = [] ∧
      ((afterWorkers s exclusive).workers.map Worker.uncounted).sum = 0 := by
  unfold afterWorkers
  split
  · exact ⟨rfl, rfl, rfl, rfl, rfl⟩
  · exact ⟨rfl, flatMap_ended rfl h, flatMap_ended rfl h, flatMap_ended rfl h, uncounted_ended h⟩

theorem accounts_start (testsList : List TestTarget) (testsRunMap : TestsRunMap) (cpuCoreNum : Nat) (jobs : Int) :
    Accounts testsList (scheduleJobs testsList testsRunMap cpuCoreNum jobs) := by
  have hsplit : ∀ a, (testsList.filter (!·.exclusive)).count a + (testsList.filter (·.exclusive)).count a =
      testsList.count a := by
    intro a
    rw [Nat.add_comm, ← List.count_append]
    exact (List.filter_append_perm (·.exclusive) testsList).count_eq a
  unfold scheduleJobs
  simp only
  split
  · rename_i hnil
    subst hnil
    exact ⟨fun _ => rfl, fun _ => rfl, rfl⟩
  · refine ⟨fun a => ?_, fun a => ?_, ?_⟩
    · rw [running, flatMap_loops rfl]
      simp [Store.held, hsplit]
    · rw [flatMap_loops rfl]
      rfl
    · simp [Worker.uncounted]

theorem accounts_step {testsList : List TestTarget} {s t : St} {e : Ev} (hs : Accounts testsList s)
    (h : step s e = some t) : Accounts testsList t := by
  cases e with
  | work i x =>
    obtain ⟨exclusive, before, w, after, m, w', -, hworkers, hadvance, rfl⟩ := step_work h
    refine ⟨fun a => ?_, fun a => ?_, ?_⟩
    · have honce := hs.once a
      have hheld := advance_held hadvance a
      rw [running, hworkers, count_flatMap] at honce
      simp only [running, count_flatMap]
      omega
    · have hfailed := hs.failed a
      have hfailures := advance_failures hadvance a
      rw [hworkers, count_flatMap] at hfailed
      simp only [count_flatMap]
      omega
    · have hcounted := hs.counted
      have hadd := advance_counted hadvance
      simp only [hworkers, List.map_append, List.map_cons, List.sum_append, List.sum_cons] at hcounted ⊢
      omega
  | join =>
    obtain ⟨exclusive, -, hended, rfl⟩ := step_join h
    obtain ⟨hstore, hrunning, -, hfailing, hcounting⟩ := afterWorkers_same hended exclusive
    refine ⟨fun a => ?_, fun a => ?_, ?_⟩
    · rw [hstore, hrunning, ← hs.once a, running, flatMap_ended rfl hended]
    · rw [hstore, hfailing, ← hs.failed a, flatMap_ended rfl hended]
    · rw [hstore, hcounting, ← hs.counted, uncounted_ended hended]

/-! ## Exclusive tests -/

/-- The queues hold tests of their kind, and so do the workers of a queue. The exclusive queue
    has one worker. -/
structure Placed (n : Nat) (s : St) : Prop where
  queues : ∀ e, ∀ t ∈ s.store.queue e, t.exclusive = e
  here : ∀ e, s.phase = .running e → ∀ t ∈ running s, t.exclusive = e
  one : s.phase = .running true → s.workers.length = 1
  idle : s.phase = .returned → running s = []
  workers : s.workers.length ≤ n

theorem placed_start (testsList : List TestTarget) (testsRunMap : TestsRunMap) (cpuCoreNum : Nat) (jobs : Int) :
    Placed (getWorkersNum cpuCoreNum jobs testsList.length) (scheduleJobs testsList testsRunMap cpuCoreNum jobs) := by
  have hqueues : ∀ e : Bool, ∀ t ∈ if e then testsList.filter (·.exclusive) else testsList.filter (!·.exclusive),
      t.exclusive = e := by
    intro e t ht
    cases e with
    | false => simpa using (List.mem_filter.mp ht).2
    | true => exact (List.mem_filter.mp ht).2
  unfold scheduleJobs
  simp only
  split
  · exact ⟨hqueues, nofun, nofun, fun _ => rfl, Nat.zero_le _⟩
  · refine ⟨hqueues, fun e _ t ht => ?_, nofun, nofun, ?_⟩
    · rw [running, flatMap_loops rfl] at ht
      cases ht
    · rw [List.length_replicate]

/-- A worker takes tests of its queue. -/
theorem advance_placed {exclusive : Bool} {m m' : Store} {w w' : Worker} (h : Advance exclusive m w m' w')
    (hqueues : ∀ e, ∀ t ∈ m.queue e, t.exclusive = e) :
    (∀ e, ∀ t ∈ m'.queue e, t.exclusive = e) ∧ ∀ t ∈ w'.running, t.exclusive = exclusive := by
  cases h with
  | take t rest hqueue =>
    have hown := hqueues exclusive
    rw [hqueue] at hown
    refine ⟨fun e u hu => ?_, fun u hu => ?_⟩
    · by_cases he : e = exclusive
      · subst he
        rw [queue_setQueue] at hu
        exact hown u (List.mem_cons_of_mem _ hu)
      · rw [Bool.eq_not.mpr he, queue_setQueue_not, ← Bool.eq_not.mpr he] at hu
        exact hqueues e u hu
    · rw [List.mem_singleton.mp hu]
      exact hown t List.mem_cons_self
  | record t returncode =>
    obtain ⟨-, -, -, -, hjobs, hexclusive⟩ := recordResult_same m t returncode
    refine ⟨fun e => ?_, nofun⟩
    have hsame : (m.recordResult t returncode).queue e = m.queue e := by
      simp only [Store.queue, hjobs, hexclusive]
    rw [hsame]
    exact hqueues e
  | _ => exact ⟨hqueues, nofun⟩

theorem placed_step {n : Nat} (hn : 0 < n) {s t : St} {e : Ev} (hs : Placed n s) (h : step s e = some t) :
    Placed n t := by
  cases e with
  | work i x =>
    obtain ⟨exclusive, before, w, after, m, w', hphase, hworkers, hadvance, rfl⟩ := step_work h
    obtain ⟨hqueues, hown⟩ := advance_placed hadvance hs.queues
    have hlength : (before ++ w' :: after).length = s.workers.length := by simp [hworkers]
    refine ⟨hqueues, fun e he u hu => ?_, fun he => ?_, fun he => ?_, ?_⟩
    · obtain rfl : e = exclusive := Phase.running.inj (he.symm.trans hphase)
      rcases (mem_flatMap _ _ _ _ _).mp hu with hu | hu
      · exact hown u hu
      · refine hs.here e hphase u ?_
        rw [running, hworkers, mem_flatMap]
        exact .inr hu
    · rw [hlength]
      exact hs.one he
    · cases hphase.symm.trans he
    · rw [hlength]
      exact hs.workers
  | join =>
    obtain ⟨exclusive, -, hended, rfl⟩ := step_join h
    obtain ⟨hstore, hrunning, -⟩ := afterWorkers_same hended exclusive
    refine ⟨?_, fun e _ u hu => ?_, fun he => ?_, fun _ => hrunning, ?_⟩
    · rw [hstore]
      exact hs.queues
    · rw [hrunning] at hu
      cases hu
    · unfold afterWorkers at he ⊢
      split
      · rfl
      · rename_i hno
        rw [if_neg hno] at he
        cases he
    · unfold afterWorkers
      split
      · exact hn
      · exact hs.workers

/-! ## Results -/

def RunItem.withResult (item : RunItem) (returncode : Int) : RunItem := { item with result := getResult returncode }

theorem lookup_recordResult (m : Store) (t : TestTarget) (returncode : Int) (k : String × String) :
    (m.recordResult t returncode).testsRunMap.lookup k =
      if k = t.key then (m.testsRunMap.lookup k).map (·.withResult returncode) else m.testsRunMap.lookup k := by
  unfold Store.recordResult
  split
  · rename_i hitem
    split
    · rename_i hk
      rw [hk, hitem]
      rfl
    · rfl
  · rename_i item hitem
    rw [FinMap.lookup_insert_ite]
    split
    · rename_i hk
      rw [hk, hitem]
      rfl
    · rfl

/-- The tests that have ended are noted once. -/
theorem advance_notes {exclusive : Bool} {m m' : Store} {w w' : Worker} (h : Advance exclusive m w m' w') :
    (m'.ran = m.ran ∧ m'.testsRunMap = m.testsRunMap ∧ w'.unrecorded = w.unrecorded) ∨
      (∃ p, m'.ran = p :: m.ran ∧ m'.testsRunMap = m.testsRunMap ∧ w.unrecorded = [] ∧ w'.unrecorded = [p]) ∨
      ∃ t returncode, m' = m.recordResult t returncode ∧ w.unrecorded = [(t, returncode)] ∧ w'.unrecorded = [] := by
  cases h with
  | take t rest =>
    obtain ⟨hran, -, -, -, hmap⟩ := setQueue_same m exclusive rest
    exact .inl ⟨hran, hmap, rfl⟩
  | pass t => exact .inr (.inl ⟨(t, 0), rfl, rfl, rfl, rfl⟩)
  | fail t returncode => exact .inr (.inl ⟨(t, returncode), rfl, rfl, rfl, rfl⟩)
  | record t returncode => exact .inr (.inr ⟨t, returncode, rfl, rfl, rfl⟩)
  | _ => exact .inl ⟨rfl, rfl, rfl⟩

/-- Of the tests that have ended, all but the results of `left` are in the run map. -/
structure Noted (first : TestsRunMap) (m : Store) (left : List (TestTarget × Int)) : Prop where
  ended : ∀ p, left.count p ≤ m.ran.count p
  untouched : ∀ k, (∀ p ∈ m.ran, p.1.key = k → p ∈ left) → m.testsRunMap.lookup k = first.lookup k
  recorded : ∀ p ∈ m.ran, p ∈ left ∨
    m.testsRunMap.lookup p.1.key = (first.lookup p.1.key).map (·.withResult p.2)

def Results (testsRunMap : TestsRunMap) (s : St) : Prop := Noted testsRunMap s.store (unrecorded s)

theorem Noted.congr {first : TestsRunMap} {m m' : Store} {left left' : List (TestTarget × Int)}
    (h : Noted first m left) (hran : m'.ran = m.ran) (hmap : m'.testsRunMap = m.testsRunMap)
    (hleft : left'.Perm left) : Noted first m' left' := by
  refine ⟨fun p => ?_, fun k hk => ?_, fun p hp => ?_⟩
  · rw [hleft.count_eq, hran]
    exact h.ended p
  · rw [hmap]
    exact h.untouched k fun p hp hpk => hleft.mem_iff.mp (hk p (hran ▸ hp) hpk)
  · rw [hleft.mem_iff, hmap]
    exact h.recorded p (hran ▸ hp)

/-- A test has ended. -/
theorem Noted.cons {first : TestsRunMap} {m m' : Store} {left : List (TestTarget × Int)} {p : TestTarget × Int}
    (h : Noted first m left) (hnew : p ∉ m.ran) (hran : m'.ran = p :: m.ran)
    (hmap : m'.testsRunMap = m.testsRunMap) : Noted first m' (p :: left) := by
  refine ⟨fun q => ?_, fun k hk => ?_, fun q hq => ?_⟩
  · have hq := h.ended q
    rw [hran, List.count_cons, List.count_cons]
    omega
  · rw [hmap]
    refine h.untouched k fun q hq hqk => ?_
    have hmem := hk q (hran ▸ List.mem_cons_of_mem _ hq) hqk
    exact (List.mem_cons.mp hmem).resolve_left fun hqp => hnew (hqp ▸ hq)
  · rw [hmap]
    rcases List.mem_cons.mp (hran ▸ hq) with rfl | hq
    · exact .inl List.mem_cons_self
    · exact (h.recorded q hq).imp_left (List.mem_cons_of_mem _)

/-- The result of `u` is written; a key has one test, and that has ended once. -/
theorem Noted.write {first : TestsRunMap} {m : Store} {left : List (TestTarget × Int)} {u : TestTarget}
    {returncode : Int} (h : Noted first m ((u, returncode) :: left)) (hnodup : m.ran.Nodup)
    (hinj : ∀ p ∈ m.ran, ∀ q ∈ m.ran, p.1.key = q.1.key → p = q) :
    Noted first (m.recordResult u returncode) left := by
  obtain ⟨hran, -⟩ := recordResult_same m u returncode
  have hended := h.ended (u, returncode)
  rw [List.count_cons_self] at hended
  have hone := List.nodup_iff_count_le_one.mp hnodup (u, returncode)
  have hu : (u, returncode) ∈ m.ran := List.count_pos_iff.mp (by omega)
  have hleft : (u, returncode) ∉ left := List.count_eq_zero.mp (by omega)
  refine ⟨fun q => ?_, fun k hk => ?_, fun q hq => ?_⟩
  · have hq := h.ended q
    rw [List.count_cons] at hq
    rw [hran]
    omega
  · have hne : k ≠ u.key := fun hku => hleft (hk (u, returncode) (hran ▸ hu) hku.symm)
    rw [lookup_recordResult, if_neg hne]
    exact h.untouched k fun q hq hqk => List.mem_cons_of_mem _ (hk q (hran ▸ hq) hqk)
  · rw [hran] at hq
    rw [lookup_recordResult]
    by_cases hkey : q.1.key = u.key
    · obtain rfl := hinj q hq (u, returncode) hu hkey
      have hfirst := h.untouched u.key fun p hp hpk => by
        rw [hinj p hp (u, returncode) hu hpk]
        exact List.mem_cons_self
      rw [if_pos rfl, hfirst]
      exact .inr rfl
    · rw [if_neg hkey]
      refine (h.recorded q hq).imp_left fun hmem => (List.mem_cons.mp hmem).resolve_left fun heq => hkey ?_
      rw [heq]

theorem perm_flatMap {α : Type} (f : Worker → List α) (before : List Worker) (w : Worker) (after : List Worker) :
    ((before ++ w :: after).flatMap f).Perm (f w ++ (before ++ after).flatMap f) := by
  simp only [List.flatMap_append, List.flatMap_cons]
  rw [← List.append_assoc, ← List.append_assoc]
  exact List.perm_append_comm.append_right _

section Keys

variable {testsList : List TestTarget} (hkeys : (testsList.map TestTarget.key).Nodup) {s : St}
include hkeys

theorem nodup_held (hs : Accounts testsList s) : s.store.held.Nodup := by
  refine List.nodup_iff_count_le_one.mpr fun a => ?_
  have hlist := List.nodup_iff_count_le_one.mp (List.Nodup.of_map _ hkeys) a
  have honce := hs.once a
  omega

theorem nodup_ran (hs : Accounts testsList s) : (s.store.ran.map (·.1)).Nodup := by
  have hheld := nodup_held hkeys hs
  simp only [Store.held, List.append_assoc] at hheld
  exact (List.nodup_append.mp (List.nodup_append.mp (List.nodup_append.mp hheld).2.1).2.1).1

/-- A key has one test. -/
theorem ran_inj (hs : Accounts testsList s) {p q : TestTarget × Int} (hp : p ∈ s.store.ran) (hq : q ∈ s.store.ran)
    (hkey : p.1.key = q.1.key) : p = q := by
  have hmem : ∀ r ∈ s.store.ran, r.1 ∈ testsList := by
    intro r hr
    have hheld : r.1 ∈ s.store.held := by
      simp only [Store.held, List.mem_append]
      exact .inl (.inr (List.mem_map.mpr ⟨r, hr, rfl⟩))
    have hpos := List.count_pos_iff.mpr hheld
    have honce := hs.once r.1
    exact List.count_pos_iff.mp (by omega)
  exact List.inj_on_of_nodup_map (nodup_ran hkeys hs) hp hq
    (List.inj_on_of_nodup_map hkeys (hmem p hp) (hmem q hq) hkey)

theorem results_step {testsRunMap : TestsRunMap} {t : St} {e : Ev} (hs : Accounts testsList s)
    (hresults : Results testsRunMap s) (h : step s e = some t) : Results testsRunMap t := by
  have ht := accounts_step hs h
  unfold Results at hresults ⊢
  cases e with
  | join =>
    obtain ⟨exclusive, -, hended, rfl⟩ := step_join h
    obtain ⟨hstore, -, hafter, -⟩ := afterWorkers_same hended exclusive
    have hbefore : unrecorded s = [] := flatMap_ended rfl hended
    rwa [hstore, hafter, ← hbefore]
  | work i x =>
    obtain ⟨exclusive, before, w, after, m, w', -, hworkers, hadvance, rfl⟩ := step_work h
    have hold : Noted testsRunMap s.store (w.unrecorded ++ (before ++ after).flatMap Worker.unrecorded) := by
      refine hresults.congr rfl rfl ?_
      rw [unrecorded, hworkers]
      exact (perm_flatMap _ before w after).symm
    refine Noted.congr ?_ rfl rfl (perm_flatMap Worker.unrecorded before w' after)
    rcases advance_notes hadvance with ⟨hran, hmap, hsame⟩ | ⟨p, hran, hmap, hbefore, hafter⟩ |
      ⟨u, returncode, rfl, hbefore, hafter⟩
    · rw [hsame]
      exact hold.congr hran hmap (.refl _)
    · have hnew : p ∉ s.store.ran := by
        intro hp
        have hnodup := nodup_ran hkeys ht
        simp only [hran, List.map_cons] at hnodup
        exact (List.nodup_cons.mp hnodup).1 (List.mem_map.mpr ⟨p, hp, rfl⟩)
      rw [hbefore] at hold
      rw [hafter]
      exact hold.cons hnew hran hmap
    · rw [hbefore] at hold
      rw [hafter]
      exact hold.write (List.Nodup.of_map _ (nodup_ran hkeys hs)) fun p hp q hq => ran_inj hkeys hs hp hq

end Keys

/-- A worker runs one test at a time. -/
theorem length_running_le (ws : List Worker) : (ws.flatMap Worker.running).length ≤ ws.length := by
  induction ws with
  | nil => exact Nat.le_refl _
  | cons w ws ih =>
    have hw : w.running.length ≤ 1 := by
      cases w <;> simp [Worker.running]
    rw [List.flatMap_cons, List.length_append, List.length_cons]
    omega

/-! ## What is left behind -/

/-- No worker ends before its queue is empty. -/
structure AtWork (s : St) : Prop where
  workers : ∀ e, s.phase = .running e → s.workers ≠ [] ∧ (s.store.queue e ≠ [] → .ended ∉ s.workers)
  jobs : s.phase ≠ .running false → s.store.jobQueue = []
  exclusiveJobs : s.phase = .returned → s.store.exclusiveJobQueue = []

theorem advance_atWork {exclusive : Bool} {m m' : Store} {w w' : Worker} (h : Advance exclusive m w m' w')
    (hraised : m'.raised = []) :
    m.raised = [] ∧ m'.queue (!exclusive) = m.queue (!exclusive) ∧
      (m'.queue exclusive ≠ [] → m.queue exclusive ≠ [] ∧ w' ≠ .ended) := by
  cases h with
  | finish hqueue => exact ⟨hraised, rfl, fun hne => absurd hqueue hne⟩
  | take t rest hqueue =>
    rw [(setQueue_same m exclusive rest).2.1] at hraised
    exact ⟨hraised, queue_setQueue_not m exclusive rest, fun _ => ⟨by simp [hqueue], nofun⟩⟩
  | raise t => cases hraised
  | record t returncode =>
    obtain ⟨-, hsame, -, -, hjobs, hexclusive⟩ := recordResult_same m t returncode
    simp only [Store.queue, hsame, hjobs, hexclusive] at hraised ⊢
    exact ⟨hraised, trivial, fun hne => ⟨hne, nofun⟩⟩
  | _ => exact ⟨hraised, rfl, fun hne => ⟨hne, nofun⟩⟩

theorem getWorkersNum_pos (cpuCoreNum : Nat) (jobs : Int) {numOfTests : Nat} (h : 0 < numOfTests) :
    0 < getWorkersNum cpuCoreNum jobs numOfTests := by
  unfold getWorkersNum maxWorkerThreads
  split <;> omega

theorem atWork_start {testsList : List TestTarget} (testsRunMap : TestsRunMap) (cpuCoreNum : Nat) (jobs : Int) :
    AtWork (scheduleJobs testsList testsRunMap cpuCoreNum jobs) := by
  unfold scheduleJobs
  simp only
  split
  · rename_i hnil
    subst hnil
    exact ⟨nofun, fun _ => rfl, fun _ => rfl⟩
  · rename_i hne
    have hpos := getWorkersNum_pos cpuCoreNum jobs (List.length_pos_iff.mpr hne)
    refine ⟨fun e _ => ⟨?_, fun _ hmem => ?_⟩, fun hno => absurd rfl hno, nofun⟩
    · exact fun hnil => by simp at hnil; omega
    · cases List.eq_of_mem_replicate hmem

theorem atWork_step {s t : St} {e : Ev} (hs : s.store.raised = [] → AtWork s) (h : step s e = some t) :
    t.store.raised = [] → AtWork t := by
  intro hraised
  cases e with
  | work i x =>
    obtain ⟨exclusive, before, w, after, m, w', hphase, hworkers, hadvance, rfl⟩ := step_work h
    obtain ⟨hraised, hother, hqueue⟩ := advance_atWork hadvance hraised
    obtain ⟨hwork, hjobs, -⟩ := hs hraised
    refine ⟨fun e he => ⟨by simp, fun hne => ?_⟩, fun hno => ?_, fun he => ?_⟩
    · obtain rfl : e = exclusive := Phase.running.inj (he.symm.trans hphase)
      obtain ⟨hne, hw'⟩ := hqueue hne
      have hended := (hwork e hphase).2 hne
      rw [hworkers] at hended
      simp only [List.mem_append, List.mem_cons, not_or] at hended ⊢
      exact ⟨hended.1, hw'.symm, hended.2.2⟩
    · cases exclusive with
      | false => exact absurd hphase hno
      | true => exact hother.trans (hjobs hno)
    · cases hphase.symm.trans he
  | join =>
    obtain ⟨exclusive, hphase, hended, rfl⟩ := step_join h
    obtain ⟨hstore, -⟩ := afterWorkers_same hended exclusive
    rw [hstore] at hraised
    obtain ⟨hwork, hjobs, -⟩ := hs hraised
    obtain ⟨hne, hqueue⟩ := hwork exclusive hphase
    obtain ⟨w, hw⟩ := List.exists_mem_of_ne_nil _ hne
    -- an ended worker has emptied its queue
    have hempty : s.store.queue exclusive = [] := by
      by_contra hno
      exact hqueue hno (hended w hw ▸ hw)
    have hdone : s.store.jobQueue = [] := by
      cases exclusive with
      | false => exact hempty
      | true => exact hjobs (by rw [hphase]; nofun)
    refine ⟨fun e he => ?_, fun _ => by rw [hstore]; exact hdone, fun he => ?_⟩
    · unfold afterWorkers at he ⊢
      split
      · exact ⟨nofun, fun _ => by simp⟩
      · rename_i hno
        rw [if_neg hno] at he
        cases he
    · rw [hstore]
      unfold afterWorkers at he
      split at he
      · cases he
      · rename_i hno
        cases exclusive with
        | true => exact hempty
        | false => simpa using hno

/-! ## The end -/

def Worker.weight (empty : Bool) : Worker → Nat
  | .loop => 2
  | .get => if empty then 3 else 1
  | .run _ => 6
  | .fail _ _ => 5
  | .record _ _ => 4
  | .count => 3
  | .ended => 0

/-- What is left to do for at most `n` workers. -/
def weight (n : Nat) (s : St) : Nat :=
  match s.phase with
  | .returned => 0
  | .running e =>
    (2 * n + 5) * (s.store.jobQueue.length + s.store.exclusiveJobQueue.length) +
      (s.workers.map (Worker.weight (s.store.queue e).isEmpty)).sum + if e then 1 else 4

theorem advance_weight {exclusive : Bool} {m m' : Store} {w w' : Worker} (h : Advance exclusive m w m' w') :
    (m'.jobQueue = m.jobQueue ∧ m'.exclusiveJobQueue = m.exclusiveJobQueue ∧
      w'.weight (m.queue exclusive).isEmpty < w.weight (m.queue exclusive).isEmpty) ∨
    (m'.jobQueue.length + m'.exclusiveJobQueue.length + 1 = m.jobQueue.length + m.exclusiveJobQueue.length ∧
      ∀ b, w'.weight b = 6) := by
  cases h with
  | look hqueue => exact .inl ⟨rfl, rfl, by simp [Worker.weight, hqueue]⟩
  | miss hqueue => exact .inl ⟨rfl, rfl, by simp [Worker.weight, hqueue]⟩
  | take t rest hqueue =>
    refine .inr ⟨?_, fun _ => rfl⟩
    cases exclusive with
    | false =>
      have hjobs : m.jobQueue = t :: rest := hqueue
      simp only [Store.setQueue, Bool.false_eq_true, if_false, hjobs, List.length_cons]
      omega
    | true =>
      have hjobs : m.exclusiveJobQueue = t :: rest := hqueue
      simp only [Store.setQueue, if_true, hjobs, List.length_cons]
      omega
  | record t returncode =>
    obtain ⟨-, -, -, -, hjobs, hexclusive⟩ := recordResult_same m t returncode
    exact .inl ⟨hjobs, hexclusive, by simp [Worker.weight]⟩
  | _ => exact .inl ⟨rfl, rfl, by simp [Worker.weight]⟩

/-- A queue that becomes empty adds at most 2 for each worker. -/
theorem sum_weight_le (b b' : Bool) (ws : List Worker) :
    (ws.map (Worker.weight b')).sum ≤ (ws.map (Worker.weight b)).sum + 2 * ws.length := by
  induction ws with
  | nil => exact Nat.zero_le _
  | cons w ws ih =>
    have hw : w.weight b' ≤ w.weight b + 2 := by
      cases w <;> cases b <;> cases b' <;> simp [Worker.weight]
    simp only [List.map_cons, List.sum_cons, List.length_cons]
    omega

theorem weight_step {n : Nat} {s t : St} {e : Ev} (hs : Placed n s) (h : step s e = some t) :
    weight n t < weight n s := by
  cases e with
  | work i x =>
    obtain ⟨exclusive, before, w, after, m, w', hphase, hworkers, hadvance, rfl⟩ := step_work h
    have hlength := hs.workers
    rw [hworkers, List.length_append, List.length_cons] at hlength
    simp only [weight, hphase, hworkers, List.map_append, List.map_cons, List.sum_append, List.sum_cons]
    rcases advance_weight hadvance with ⟨hjobs, hexclusive, hlt⟩ | ⟨htaken, hrun⟩
    · have hsame : m.queue exclusive = s.store.queue exclusive := by
        simp only [Store.queue, hjobs, hexclusive]
      rw [hjobs, hexclusive, hsame]
      omega
    · have hbefore := sum_weight_le (s.store.queue exclusive).isEmpty (m.queue exclusive).isEmpty before
      have hafter := sum_weight_le (s.store.queue exclusive).isEmpty (m.queue exclusive).isEmpty after
      rw [← htaken, hrun, Nat.mul_succ]
      generalize (2 * n + 5) * (m.jobQueue.length + m.exclusiveJobQueue.length) = rest
      generalize (if exclusive = true then 1 else 4) = last
      omega
  | join =>
    obtain ⟨exclusive, hphase, hended, rfl⟩ := step_join h
    unfold afterWorkers
    split
    · rename_i hfirst
      simp only [weight, hphase, hfirst.1, Bool.false_eq_true, if_false, if_true, List.map_cons, List.map_nil,
        List.sum_cons, List.sum_nil, Worker.weight]
      omega
    · simp only [weight, hphase]
      split <;> omega

theorem advance_isSome (exclusive : Bool) (returncode : Int) (m : Store) {w : Worker} (hw : w ≠ .ended) :
    (advance exclusive (.exited returncode) m w).isSome := by
  cases w with
  | get => cases hqueue : m.queue exclusive <;> simp [advance, hqueue]
  | ended => exact absurd rfl hw
  | _ => rfl

/-- Before `schedule_jobs` has returned some thread can go on. -/
theorem exists_step {s : St} (h : s.phase ≠ .returned) : ∃ e t, step s e = some t := by
  cases hphase : s.phase with
  | returned => exact absurd hphase h
  | running exclusive =>
    by_cases hended : AllEnded s
    · exact ⟨.join, afterWorkers s exclusive, by simp only [step, hphase, if_pos hended]⟩
    · obtain ⟨w, hw⟩ := not_forall.mp hended
      obtain ⟨hmem, hw⟩ := Classical.not_imp.mp hw
      obtain ⟨i, hi⟩ := List.mem_iff_getElem?.mp hmem
      refine ⟨.work i (.exited 0), Option.isSome_iff_exists.mp ?_⟩
      simp only [step, hphase, hi, Option.isSome_map]
      exact advance_isSome exclusive 0 s.store hw

/-! ## Whole runs -/

/-- What `schedule_jobs` leaves. -/
structure Reported (testsList : List TestTarget) (testsRunMap : TestsRunMap) (m : Store) : Prop where
  once : (m.ran.map (·.1) ++ m.raised ++ m.jobQueue ++ m.exclusiveJobQueue).Perm testsList
  left : m.raised = [] → m.jobQueue = [] ∧ m.exclusiveJobQueue = []
  failed : m.failedTargets.Perm (m.ran.filter (·.2 ≠ 0))
  counted : m.numOfRunTests = m.ran.length
  recorded : ∀ p ∈ m.ran, m.testsRunMap.lookup p.1.key = (testsRunMap.lookup p.1.key).map (·.withResult p.2)
  untouched : ∀ k, (∀ p ∈ m.ran, p.1.key ≠ k) → m.testsRunMap.lookup k = testsRunMap.lookup k

/-- The workers have ended when `schedule_jobs` has returned. -/
structure Inv (n : Nat) (testsList : List TestTarget) (testsRunMap : TestsRunMap) (s : St) : Prop where
  accounts : Accounts testsList s
  results : Results testsRunMap s
  atWork : s.store.raised = [] → AtWork s
  placed : Placed n s
  ended : s.phase = .returned → AllEnded s

section Run

variable {testsList : List TestTarget} {testsRunMap : TestsRunMap}

theorem results_start (cpuCoreNum : Nat) (jobs : Int) :
    Results testsRunMap (scheduleJobs testsList testsRunMap cpuCoreNum jobs) := by
  have hstore : (scheduleJobs testsList testsRunMap cpuCoreNum jobs).store.ran = [] ∧
      (scheduleJobs testsList testsRunMap cpuCoreNum jobs).store.testsRunMap = testsRunMap ∧
      unrecorded (scheduleJobs testsList testsRunMap cpuCoreNum jobs) = [] := by
    unfold scheduleJobs
    simp only
    split
    · exact ⟨rfl, rfl, rfl⟩
    · exact ⟨rfl, rfl, flatMap_loops rfl _⟩
  obtain ⟨hran, hmap, hnone⟩ := hstore
  refine ⟨fun p => ?_, fun k _ => by rw [hmap], fun p hp => ?_⟩
  · rw [hnone]
    exact Nat.zero_le _
  · rw [hran] at hp
    cases hp

theorem inv_start (cpuCoreNum : Nat) (jobs : Int) :
    Inv (max 1 (getWorkersNum cpuCoreNum jobs testsList.length)) testsList testsRunMap
      (scheduleJobs testsList testsRunMap cpuCoreNum jobs) := by
  obtain ⟨hqueues, hhere, hone, hidle, hworkers⟩ := placed_start testsList testsRunMap cpuCoreNum jobs
  refine ⟨accounts_start _ _ _ _, results_start _ _, fun _ => atWork_start _ _ _,
    ⟨hqueues, hhere, hone, hidle, hworkers.trans (Nat.le_max_right _ _)⟩, ?_⟩
  unfold scheduleJobs
  simp only
  split
  · exact fun _ => nofun
  · nofun

variable (hkeys : (testsList.map TestTarget.key).Nodup)
include hkeys

theorem inv_step {n : Nat} (hn : 0 < n) {s t : St} {e : Ev} (hs : Inv n testsList testsRunMap s)
    (h : step s e = some t) : Inv n testsList testsRunMap t := by
  refine ⟨accounts_step hs.accounts h, results_step hkeys hs.accounts hs.results h, atWork_step hs.atWork h,
    placed_step hn hs.placed h, fun ht => ?_⟩
  cases e with
  | work i x =>
    obtain ⟨exclusive, before, w, after, m, w', hphase, -, -, rfl⟩ := step_work h
    cases hphase.symm.trans ht
  | join =>
    obtain ⟨exclusive, -, hended, rfl⟩ := step_join h
    unfold afterWorkers at ht ⊢
    split
    · rename_i hfirst
      rw [if_pos hfirst] at ht
      cases ht
    · exact hended

variable {cpuCoreNum : Nat} {jobs : Int} {es : List Ev} {t : St}

theorem inv_run (h : run step (scheduleJobs testsList testsRunMap cpuCoreNum jobs) es = some t) :
    Inv (max 1 (getWorkersNum cpuCoreNum jobs testsList.length)) testsList testsRunMap t :=
  run_invariant step _ (fun _ _ _ hs hstep => inv_step hkeys (Nat.le_max_left _ _) hs hstep) (inv_start _ _) h

/-- What is found when `schedule_jobs` has returned. -/
theorem reported (h : run step (scheduleJobs testsList testsRunMap cpuCoreNum jobs) es = some t)
    (hreturned : t.phase = .returned) : Reported testsList testsRunMap t.store := by
  obtain ⟨haccounts, hresults, hwork, -, hended⟩ := inv_run hkeys h
  have hended := hended hreturned
  have hnone : unrecorded t = [] := flatMap_ended rfl hended
  refine ⟨?_, fun hraised => ?_, ?_, ?_, fun p hp => ?_, fun k hk => ?_⟩
  · refine List.perm_iff_count.mpr fun a => ?_
    have honce := haccounts.once a
    rw [running, flatMap_ended rfl hended] at honce
    simp only [Store.held, List.count_append, List.count_nil] at honce ⊢
    omega
  · obtain ⟨-, hjobs, hexclusive⟩ := hwork hraised
    exact ⟨hjobs (by rw [hreturned]; nofun), hexclusive hreturned⟩
  · refine List.perm_iff_count.mpr fun a => ?_
    have hfailed := haccounts.failed a
    rwa [flatMap_ended rfl hended] at hfailed
  · have hcounted := haccounts.counted
    rwa [uncounted_ended hended] at hcounted
  · refine (hresults.recorded p hp).resolve_left ?_
    rw [hnone]
    exact List.not_mem_nil
  · exact hresults.untouched k fun p hp hpk => absurd hpk (hk p hp)

theorem running_length_le (h : run step (scheduleJobs testsList testsRunMap cpuCoreNum jobs) es = some t) :
    (running t).length ≤ getWorkersNum cpuCoreNum jobs testsList.length := by
  obtain ⟨haccounts, -, -, hplaced, -⟩ := inv_run hkeys h
  rcases List.eq_nil_or_concat (running t) with hnil | ⟨_, a, hconcat⟩
  · rw [hnil]
    exact Nat.zero_le _
  · have ha : 0 < testsList.count a := by
      have honce := haccounts.once a
      rw [hconcat] at honce
      simp only [List.concat_eq_append, List.count_append, List.count_singleton_self] at honce
      omega
    have hpos := getWorkersNum_pos cpuCoreNum jobs (List.length_pos_of_mem (List.count_pos_iff.mp ha))
    have hrunning := length_running_le t.workers
    have hn := hplaced.workers
    unfold running
    omega

end Run

/-- While an exclusive test runs no other test does, in any order of the steps. -/
theorem exclusive_alone {testsList : List TestTarget} (hkeys : (testsList.map TestTarget.key).Nodup)
    (testsRunMap : TestsRunMap) (cpuCoreNum : Nat) (jobs : Int) {es : List Ev} {s : St}
    (hrun : run step (scheduleJobs testsList testsRunMap cpuCoreNum jobs) es = some s) :
    (∀ t ∈ running s, t.exclusive → running s = [t]) ∧ (running s).Nodup ∧
      (running s).length ≤ getWorkersNum cpuCoreNum jobs testsList.length := by
  obtain ⟨haccounts, -, -, hplaced, -⟩ := inv_run hkeys hrun
  refine ⟨fun t ht hexclusive => ?_, ?_, running_length_le hkeys hrun⟩
  · cases hphase : s.phase with
    | returned =>
      rw [hplaced.idle hphase] at ht
      cases ht
    | running exclusive =>
      obtain rfl : exclusive = true := (hplaced.here exclusive hphase t ht).symm.trans hexclusive
      obtain ⟨w, hw⟩ := List.length_eq_one_iff.mp (hplaced.one hphase)
      simp only [running, hw, List.flatMap_cons, List.flatMap_nil, List.append_nil] at ht ⊢
      cases w with
      | run u =>
        obtain rfl := List.mem_singleton.mp ht
        rfl
      | _ => cases ht
  · refine List.nodup_iff_count_le_one.mpr fun a => ?_
    have honce := haccounts.once a
    have hlist := List.nodup_iff_count_le_one.mp (List.Nodup.of_map _ hkeys) a
    omega

def unitTest : TestTarget := { path := "server", name := "unit_test", type := "cc_test" }

def portTest : TestTarget := { path := "server", name := "port_test", type := "cc_test", exclusive := true }

/-- Worker 1 finds the queue empty while `unit_test` fails. Then the last worker takes `port_test`. -/
def portTestAfterUnitTest : List Ev :=
  [.work 0 .raised, .work 0 .raised, .work 1 .raised, .work 0 (.exited 3), .work 0 .raised, .work 0 .raised,
    .work 0 .raised, .work 0 .raised, .join, .work 0 .raised, .work 0 .raised]

theorem exclusive_alone_portTest :
    ∃ s, run step (scheduleJobs [portTest, unitTest] ∅ 4 8) portTestAfterUnitTest = some s ∧ portTest ∈ running s ∧
      (∀ t ∈ running s, t.exclusive → running s = [t]) ∧ (running s).Nodup ∧
      (running s).length ≤ getWorkersNum 4 8 2 := by
  have hrunning : (run step (scheduleJobs [portTest, unitTest] ∅ 4 8) portTestAfterUnitTest).map running =
      some [portTest] := by
    decide +kernel
  obtain ⟨s, hs, hport⟩ := Option.map_eq_some_iff.mp hrunning
  exact ⟨s, hs, by rw [hport]; exact List.mem_singleton_self _, exclusive_alone (by decide) ∅ 4 8 hs⟩

/-- In any order of the steps `schedule_jobs` returns, and leaves every test once. -/
theorem schedule_jobs_returns {testsList : List TestTarget} (hkeys : (testsList.map TestTarget.key).Nodup)
    (testsRunMap : TestsRunMap) (cpuCoreNum : Nat) (jobs : Int) :
    (∃ bound, ∀ es s, run step (scheduleJobs testsList testsRunMap cpuCoreNum jobs) es = some s → es.length ≤ bound) ∧
    ∀ es s, run step (scheduleJobs testsList testsRunMap cpuCoreNum jobs) es = some s →
      (s.phase ≠ .returned → ∃ e t, step s e = some t) ∧
      (s.phase = .returned → Reported testsList testsRunMap s.store) := by
  refine ⟨⟨weight (max 1 (getWorkersNum cpuCoreNum jobs testsList.length))
    (scheduleJobs testsList testsRunMap cpuCoreNum jobs), fun es s hrun => ?_⟩, fun es s hrun =>
      ⟨exists_step, reported hkeys hrun⟩⟩
  have hle := run_length_le step (weight _) (Inv _ testsList testsRunMap)
    (fun s t e hs hstep => ⟨inv_step hkeys (Nat.le_max_left _ _) hs hstep, weight_step hs.placed hstep⟩)
    (inv_start cpuCoreNum jobs) hrun
  exact (Nat.le_add_right _ _).trans hle

theorem schedule_jobs_returns_portTest :
    ∃ s, run step (scheduleJobs [portTest, unitTest] ∅ 4 8)
        (portTestAfterUnitTest ++ [.work 0 .raised, .join]) = some s ∧
      s.store.raised = [portTest] ∧ s.store.failedTargets = [(unitTest, 3)] ∧
      Reported [portTest, unitTest] ∅ s.store := by
  have hend : (run step (scheduleJobs [portTest, unitTest] ∅ 4 8)
      (portTestAfterUnitTest ++ [.work 0 .raised, .join])).map
        (fun s => (s.phase, s.store.raised, s.store.failedTargets)) =
      some (.returned, [portTest], [(unitTest, 3)]) := by
    decide +kernel
  obtain ⟨s, hs, hfields⟩ := Option.map_eq_some_iff.mp hend
  simp only [Prod.mk.injEq] at hfields
  obtain ⟨hphase, hraised, hfailed⟩ := hfields
  exact ⟨s, hs, hraised, hfailed, ((schedule_jobs_returns (by decide) ∅ 4 8).2 _ s hs).2 hphase⟩

end PredictorService.BuildTools.TestScheduler
