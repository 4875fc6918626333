/-
  PredictorService.ServiceRouter.HeartbeatLock — the lock of `servers_` and the event-base
  thread (service_router/router.cc, service_router/service_info_puller.{h,cc}).

  Every call of the router takes the write lock. Erasing a server destroys its
  `ServerWithHeartbeat` under the lock, and the destructor waits until the event-base thread
  has run `cancelTimeout`. The timers fire on that thread, and a heartbeat takes the write
  lock in `registerServer`. So a heartbeat that fires while another thread erases is a
  deadlock (`heartbeat_in_erase_deadlocks`), and it lasts (`deadlock_run`). When no
  heartbeat waits for the lock at the erase and none fires until its destructors have run,
  there is none (`no_deadlock`).

  Of `servers_` only the keys are here. A timer that is scheduled may fire at any time. The
  functions posted to the event base run in the order they were posted, while it is idle. On
  the event-base thread itself a destructor does not wait.
-/

import Mathlib.Data.Finset.Insert
import Mathlib.Data.Finset.SDiff
import PredictorService.Lib.Runs
import PredictorService.ServiceRouter.Router

namespace PredictorService.ServiceRouter.HeartbeatLock

open PredictorService.ServiceRouter.Router (getServerKey)

/-! ## Threads -/

inductive Tid where
  | evb
  | user (i : Nat)
  deriving DecidableEq, Repr

inductive Call where
  | registerServer (server : Server)
  | unregisterServer (server : Server)
  | unregisterServerSync (server : Server)
  | unregisterAll
  /-- A setter. -/
  | set
  deriving DecidableEq

/-- What takes the lock. -/
inductive Job where
  | call (c : Call)
  | heartbeat (key : String)
  deriving DecidableEq

inductive Phase where
  | idle
  /-- Waits for the lock. -/
  | locking (job : Job)
  /-- Holds the lock, before it changes `servers_`. -/
  | inside (job : Job)
  /-- Holds the lock; the servers of these keys are erased and not yet destroyed. -/
  | destroying (keys : Finset String)
  /-- Holds the lock in the destructor of `key`, which waits for the event base. -/
  | waiting (key : String) (keys : Finset String)
  deriving DecidableEq

/-- A function posted to the event base. -/
inductive Fn where
  | scheduleTimeout (key : String)
  | cancelTimeout (key : String) (tid : Tid)
  deriving DecidableEq

structure St where
  servers : Finset String := ∅
  lock : Option Tid := none
  phase : Tid → Phase := fun _ => .idle
  queue : List Fn := []
  /-- The servers whose timers are scheduled. -/
  armed : Finset String := ∅

def St.setPhase (s : St) (tid : Tid) (phase : Phase) : St := { s with phase := Function.update s.phase tid phase }

@[simp] theorem setPhase_self (s : St) (tid : Tid) (phase : Phase) : (s.setPhase tid phase).phase tid = phase :=
  Function.update_self ..

@[simp] theorem setPhase_ne (s : St) {tid u : Tid} (phase : Phase) (h : u ≠ tid) :
    (s.setPhase tid phase).phase u = s.phase u := Function.update_of_ne h ..

def St.post (s : St) (f : Fn) : St := { s with queue := s.queue ++ [f] }

def St.release (s : St) (tid : Tid) : St := { s.setPhase tid .idle with lock := none }

/-! ## Under the lock -/

/-- A new server gets a timer. -/
def addServer (s : St) (key : String) : St :=
  if key ∈ s.servers then s else { s with servers := insert key s.servers }.post (.scheduleTimeout key)

def erase (s : St) (tid : Tid) (key : String) : St :=
  { s with servers := s.servers.erase key }.setPhase tid (.destroying {key})

/-- What a job does with the lock; `ok` says whether the registry is there, and what a
    `...Sync` call is answered. A heartbeat schedules its timer again once it has released
    the lock. -/
def body (s : St) (tid : Tid) (ok : Bool) : Job → St
  | .call (.registerServer server) => (addServer s (getServerKey server)).release tid
  | .call (.unregisterServer server) =>
    if getServerKey server ∈ s.servers ∧ ok then erase s tid (getServerKey server) else s.release tid
  | .call (.unregisterServerSync server) =>
    if getServerKey server ∈ s.servers ∧ ok then erase s tid (getServerKey server) else s.release tid
  | .call .unregisterAll => { s with servers := ∅ }.setPhase tid (.destroying s.servers)
  | .call .set => s.release tid
  | .heartbeat key => ((addServer s key).release tid).post (.scheduleTimeout key)

/-- The destructor of a server that `tid` has erased. -/
def destroy (s : St) (tid : Tid) (key : String) (keys : Finset String) : St :=
  match tid with
  | .evb => { s with armed := s.armed.erase key }.setPhase tid (.destroying (keys.erase key))
  | .user _ => (s.post (.cancelTimeout key tid)).setPhase tid (.waiting key (keys.erase key))

def runFn (s : St) : Fn → St
  | .scheduleTimeout key => { s with armed := insert key s.armed }
  | .cancelTimeout key tid =>
    let s := { s with armed := s.armed.erase key }
    match s.phase tid with
    | .waiting _ keys => s.setPhase tid (.destroying keys)
    | _ => s

/-! ## The machine -/

inductive Ev where
  | call (tid : Tid) (c : Call)
  /-- The timer of a server fires. -/
  | fire (key : String)
  | acquire (tid : Tid)
  | proceed (tid : Tid) (ok : Bool)
  | destroy (tid : Tid) (key : String)
  | release (tid : Tid)
  /-- The event base runs the next function that was posted. -/
  | runNext
  deriving DecidableEq

def step (s : St) : Ev → Option St
  | .call tid c => if s.phase tid = .idle then some (s.setPhase tid (.locking (.call c))) else none
  | .fire key =>
    if s.phase .evb = .idle ∧ key ∈ s.armed then
      some ({ s with armed := s.armed.erase key }.setPhase .evb (.locking (.heartbeat key)))
    else none
  | .acquire tid =>
    match s.phase tid with
    | .locking job => if s.lock = none then some ({ s with lock := some tid }.setPhase tid (.inside job)) else none
    | _ => none
  | .proceed tid ok =>
    match s.phase tid with
    | .inside job => some (body s tid ok job)
    | _ => none
  | .destroy tid key =>
    match s.phase tid with
    | .destroying keys => if key ∈ keys then some (destroy s tid key keys) else none
    | _ => none
  | .release tid => if s.phase tid = .destroying ∅ then some (s.release tid) else none
  | .runNext =>
    match s.queue with
    | [] => none
    | f :: queue => if s.phase .evb = .idle then some (runFn { s with queue } f) else none

/-- A thread holds the lock and waits for the event base, and that waits for the lock in a
    heartbeat. -/
def Deadlock (s : St) : Prop :=
  ∃ i key keys beat, s.lock = some (.user i) ∧ s.phase (.user i) = .waiting key keys ∧
    s.phase .evb = .locking (.heartbeat beat)

/-! ## What a step does -/

/-- The job erases a server. -/
def erases (s : St) (ok : Bool) : Job → Bool
  | .call (.unregisterServer server) => getServerKey server ∈ s.servers ∧ ok
  | .call (.unregisterServerSync server) => getServerKey server ∈ s.servers ∧ ok
  | .call .unregisterAll => s.servers ≠ ∅
  | _ => false

/-- The thread that moves, its new phase, and who holds the lock after it. -/
inductive Move (s : St) : Ev → Tid → Phase → Option Tid → Prop
  | call {tid : Tid} (c : Call) : s.phase tid = .idle → Move s (.call tid c) tid (.locking (.call c)) s.lock
  | fire (key : String) : s.phase .evb = .idle → Move s (.fire key) .evb (.locking (.heartbeat key)) s.lock
  | acquire {tid : Tid} {job : Job} : s.phase tid = .locking job → s.lock = none →
      Move s (.acquire tid) tid (.inside job) (some tid)
  | finish {tid : Tid} {job : Job} {ok : Bool} : s.phase tid = .inside job → erases s ok job = false →
      Move s (.proceed tid ok) tid .idle none
  | erase {tid : Tid} {job : Job} {ok : Bool} {keys : Finset String} : s.phase tid = .inside job →
      (keys ≠ ∅ ↔ erases s ok job) → Move s (.proceed tid ok) tid (.destroying keys) s.lock
  | destroyEvb {key : String} {keys : Finset String} : s.phase .evb = .destroying keys →
      Move s (.destroy .evb key) .evb (.destroying (keys.erase key)) s.lock
  | destroyUser {i : Nat} {key : String} {keys : Finset String} : s.phase (.user i) = .destroying keys → key ∈ keys →
      Move s (.destroy (.user i) key) (.user i) (.waiting key (keys.erase key)) s.lock
  | release {tid : Tid} : s.phase tid = .destroying ∅ → Move s (.release tid) tid .idle none
  | resume {tid : Tid} {key : String} {keys : Finset String} : s.phase .evb = .idle →
      s.phase tid = .waiting key keys → Move s .runNext tid (.destroying keys) s.lock
  /-- A function that nobody waits for. -/
  | stay : s.phase .evb = .idle → Move s .runNext .evb .idle s.lock

theorem addServer_phase (s : St) (key : String) : (addServer s key).phase = s.phase := by
  unfold addServer
  split <;> rfl

/-- A job releases the lock or erases. -/
theorem body_move {s : St} {tid : Tid} {job : Job} (h : s.phase tid = .inside job) (ok : Bool) :
    ∃ p, Move s (.proceed tid ok) tid p (body s tid ok job).lock ∧
      (body s tid ok job).phase = Function.update s.phase tid p := by
  cases job with
  | heartbeat key => exact ⟨_, .finish h rfl, by simp [body, St.post, St.release, St.setPhase, addServer_phase]⟩
  | call c =>
    cases c with
    | registerServer server => exact ⟨_, .finish h rfl, by simp [body, St.release, St.setPhase, addServer_phase]⟩
    | set => exact ⟨_, .finish h rfl, rfl⟩
    | unregisterAll => exact ⟨_, .erase h (by simp [erases]), rfl⟩
    | unregisterServer server | unregisterServerSync server =>
      by_cases hc : getServerKey server ∈ s.servers ∧ ok
      · simp only [body, if_pos hc]
        exact ⟨_, .erase h (by simpa [erases] using hc), rfl⟩
      · simp only [body, if_neg hc]
        exact ⟨_, .finish h (by simpa [erases] using hc), rfl⟩

theorem runFn_move {s : St} (hevb : s.phase .evb = .idle) {f : Fn} {queue : List Fn} :
    ∃ tid p, Move s .runNext tid p (runFn { s with queue } f).lock ∧
      (runFn { s with queue } f).phase = Function.update s.phase tid p := by
  have hstay : Function.update s.phase .evb .idle = s.phase := by rw [← hevb, Function.update_eq_self]
  cases f with
  | scheduleTimeout key => exact ⟨.evb, .idle, .stay hevb, hstay.symm⟩
  | cancelTimeout key tid =>
    simp only [runFn]
    split
    · exact ⟨tid, _, .resume hevb ‹_›, rfl⟩
    · exact ⟨.evb, .idle, .stay hevb, hstay.symm⟩

theorem move_step {s t : St} {e : Ev} (h : step s e = some t) :
    ∃ tid p, Move s e tid p t.lock ∧ t.phase = Function.update s.phase tid p := by
  cases e with
  | call tid c =>
    obtain ⟨hidle, rfl⟩ := Lib.guard_some.mp h
    exact ⟨tid, _, .call c hidle, rfl⟩
  | fire key =>
    obtain ⟨⟨hidle, -⟩, rfl⟩ := Lib.guard_some.mp h
    exact ⟨.evb, _, .fire key hidle, rfl⟩
  | acquire tid =>
    simp only [step] at h
    split at h
    · obtain ⟨hfree, rfl⟩ := Lib.guard_some.mp h
      exact ⟨tid, _, .acquire ‹_› hfree, rfl⟩
    · cases h
  | proceed tid ok =>
    simp only [step] at h
    split at h
    · cases h
      exact ⟨tid, body_move ‹_› ok⟩
    · cases h
  | destroy tid key =>
    simp only [step] at h
    split at h
    · obtain ⟨hmem, rfl⟩ := Lib.guard_some.mp h
      cases tid with
      | evb => exact ⟨.evb, _, .destroyEvb ‹_›, rfl⟩
      | user i => exact ⟨.user i, _, .destroyUser ‹_› hmem, rfl⟩
    · cases h
  | release tid =>
    obtain ⟨hdone, rfl⟩ := Lib.guard_some.mp h
    exact ⟨tid, _, .release hdone, rfl⟩
  | runNext =>
    simp only [step] at h
    split at h
    · cases h
    · obtain ⟨hevb, rfl⟩ := Lib.guard_some.mp h
      exact runFn_move hevb

/-! ## The lock -/

def Phase.holds : Phase → Bool
  | .inside _ => true
  | .destroying _ => true
  | .waiting _ _ => true
  | _ => false

/-- Only the holder of the lock is under it. -/
def Owned (s : St) : Prop := ∀ tid, (s.phase tid).holds → s.lock = some tid

theorem owned_init : Owned {} := by
  intro tid h
  cases h

theorem Owned.step {s t : St} {e : Ev} (hs : Owned s) (h : HeartbeatLock.step s e = some t) : Owned t := by
  obtain ⟨tid, p, hm, hp⟩ := move_step h
  intro u hu
  rw [hp] at hu
  by_cases htid : u = tid
  · subst htid
    rw [Function.update_self] at hu
    generalize t.lock = lock at hm
    cases hm with
    | call | fire | finish | release | stay => cases hu
    | acquire => rfl
    | erase hphase => exact hs _ (by rw [hphase]; rfl)
    | destroyEvb hphase => exact hs _ (by rw [hphase]; rfl)
    | destroyUser hphase => exact hs _ (by rw [hphase]; rfl)
    | resume _ hphase => exact hs _ (by rw [hphase]; rfl)
  · rw [Function.update_of_ne htid] at hu
    have hlock := hs u hu
    -- the mover is not the holder, so it cannot release the lock
    have hnot : (s.phase tid).holds → False := by
      intro hh
      have := hlock.symm.trans (hs tid hh)
      exact htid (Option.some.inj this)
    generalize t.lock = lock at hm
    cases hm with
    | call | fire | erase | destroyEvb | destroyUser | resume | stay => exact hlock
    | acquire _ hfree => rw [hlock] at hfree; cases hfree
    | finish hphase => exact absurd (by rw [hphase]; rfl) hnot
    | release hphase => exact absurd (by rw [hphase]; rfl) hnot

/-! ## No heartbeat in the erase -/

/-- The thread has destructors to run, or waits in one. -/
def Phase.erasing : Phase → Bool
  | .destroying keys => keys ≠ ∅
  | .waiting _ _ => true
  | _ => false

def Phase.beating : Phase → Bool
  | .locking (.heartbeat _) => true
  | _ => false

theorem beating_iff {p : Phase} : p.beating ↔ ∃ key, p = .locking (.heartbeat key) := by
  constructor
  · intro h
    unfold Phase.beating at h
    split at h
    · exact ⟨_, rfl⟩
    · cases h
  · intro h
    obtain ⟨key, rfl⟩ := h
    rfl

/-- A heartbeat waits for the lock while another thread erases: that thread waits for the
    event base, or will. -/
def Doomed (s : St) : Prop := ∃ i, (s.phase (.user i)).erasing ∧ (s.phase .evb).beating

theorem Deadlock.doomed {s : St} (h : Deadlock s) : Doomed s := by
  obtain ⟨i, key, keys, beat, -, hi, hevb⟩ := h
  exact ⟨i, by rw [hi]; rfl, by rw [hevb]; rfl⟩

/-- The condition on each step: no heartbeat fires while a thread other than the event base
    erases, and such a thread erases a server only while no heartbeat waits for the lock. -/
def Apart (s : St) : Ev → Prop
  | .fire _ =>
    match s.lock with
    | some (.user i) => (s.phase (.user i)).erasing = false
    | _ => True
  | .proceed (.user i) ok =>
    match s.phase (.user i) with
    | .inside job => erases s ok job → (s.phase .evb).beating = false
    | _ => True
  | _ => True

instance (s : St) (e : Ev) : Decidable (Apart s e) := by
  unfold Apart
  split
  · split <;> infer_instance
  · split <;> infer_instance
  · infer_instance

theorem erasing_holds {p : Phase} (h : p.erasing) : p.holds := by
  cases p with
  | destroying | waiting => rfl
  | _ => cases h

theorem not_doomed_step {s t : St} {e : Ev} (hs : Owned s) (hd : ¬ Doomed s) (hok : Apart s e)
    (h : step s e = some t) : ¬ Doomed t := by
  intro hdoom
  obtain ⟨i, hi, hevb⟩ := hdoom
  obtain ⟨tid, p, hm, hp⟩ := move_step h
  rw [hp] at hi hevb
  generalize t.lock = lock at hm
  cases tid with
  | evb =>
    rw [Function.update_self] at hevb
    rw [Function.update_of_ne (by simp)] at hi
    cases hm with
    | call | acquire | finish | erase | destroyEvb | release | resume | stay => cases hevb
    | fire key hidle =>
      have hlock := hs _ (erasing_holds hi)
      simp only [Apart, hlock] at hok
      rw [hi] at hok
      cases hok
  | user j =>
    rw [Function.update_of_ne (by simp)] at hevb
    by_cases hj : i = j
    · subst hj
      rw [Function.update_self] at hi
      cases hm with
      | call | acquire | finish | release => cases hi
      | erase hphase hkeys =>
        have herases := hkeys.mp (by simpa [Phase.erasing] using hi)
        simp only [Apart, hphase] at hok
        rw [hok herases] at hevb
        cases hevb
      | destroyUser hphase hmem =>
        refine hd ⟨i, ?_, hevb⟩
        rw [hphase]
        simpa [Phase.erasing] using Finset.ne_empty_of_mem hmem
      | resume hidle =>
        rw [hidle] at hevb
        cases hevb
    · rw [Function.update_of_ne (by simpa using hj)] at hi
      exact hd ⟨i, hi, hevb⟩

/-- In every run whose erases and heartbeats keep apart, no state is a deadlock. -/
theorem no_deadlock {es : List Ev} {t : St} (hm : Lib.Meets step Apart {} es) (hr : Lib.run step {} es = some t) :
    ¬ Deadlock t := by
  have h0 : ¬ Doomed {} := by
    intro hd
    obtain ⟨i, hi, -⟩ := hd
    cases hi
  have hinv : Owned t ∧ ¬ Doomed t := by
    refine Lib.run_history step Apart (fun _ s => Owned s ∧ ¬ Doomed s) ?_ [] ⟨owned_init, h0⟩ hm hr
    intro _ s t e hs hok h
    exact ⟨hs.1.step h, not_doomed_step hs.1 hs.2 hok h⟩
  exact fun hd => hinv.2 hd.doomed

def server : Server := ConsulRegistry.plainServer

/-- Thread 0 registers a server, whose timer is scheduled. -/
def registered : List Ev :=
  [.call (.user 0) (.registerServer server), .acquire (.user 0), .proceed (.user 0) true, .runNext]

/-- A heartbeat fires while thread 1 waits for the lock, and comes first. -/
def beatsThenErases : List Ev :=
  registered ++ [.call (.user 1) (.unregisterServer server), .fire (getServerKey server), .acquire .evb,
    .proceed .evb true, .runNext, .acquire (.user 1), .proceed (.user 1) true, .destroy (.user 1) (getServerKey server),
    .runNext, .release (.user 1)]

theorem no_deadlock_in_turn :
    ∃ t, Lib.run step {} beatsThenErases = some t ∧ t.servers = ∅ ∧ ¬ Deadlock t := by
  have hrun : (Lib.run step {} beatsThenErases).any fun t => t.servers = ∅ := by decide
  obtain ⟨t, ht, hempty⟩ := (Option.any_eq_true _ _).mp hrun
  exact ⟨t, ht, by simpa using hempty, no_deadlock (by decide) ht⟩

/-- The heartbeat fires once thread 1 has erased the server. -/
def beatsInErase : List Ev :=
  registered ++ [.call (.user 1) (.unregisterServer server), .acquire (.user 1), .proceed (.user 1) true,
    .fire (getServerKey server), .destroy (.user 1) (getServerKey server)]

theorem heartbeat_in_erase_deadlocks : ¬ ∀ (es : List Ev) (t : St), Lib.run step {} es = some t → ¬ Deadlock t := by
  intro h
  have hrun : (Lib.run step {} beatsInErase).any fun t =>
      t.lock = some (.user 1) ∧ t.phase (.user 1) = .waiting (getServerKey server) ∅ ∧
        t.phase .evb = .locking (.heartbeat (getServerKey server)) := by
    decide
  obtain ⟨t, ht, hbad⟩ := (Option.any_eq_true _ _).mp hrun
  rw [decide_eq_true_eq] at hbad
  exact h beatsInErase t ht ⟨1, _, _, _, hbad⟩

/-! ## The deadlock is real -/

/-- Nobody gets out of it: other threads can only come to wait for the lock. -/
theorem deadlock_step {s t : St} {e : Ev} (hs : Owned s) (hd : Deadlock s) (h : step s e = some t) : Deadlock t := by
  obtain ⟨i, key, keys, beat, hlock, hi, hevb⟩ := hd
  obtain ⟨tid, p, hm, hp⟩ := move_step h
  have hother : ∀ j, (s.phase (.user j)).holds → j = i := by
    intro j hj
    have hsame := (hs _ hj).symm.trans hlock
    cases hsame
    rfl
  cases tid with
  | evb =>
    generalize t.lock = lock at hm
    cases hm with
    | acquire _ hfree => rw [hlock] at hfree; cases hfree
    | call _ hphase | fire _ hphase | finish hphase | erase hphase | destroyEvb hphase | release hphase
    | resume hphase | stay hphase => rw [hevb] at hphase; cases hphase
  | user j =>
    have hmove : t.lock = s.lock ∧ j ≠ i := by
      generalize t.lock = lock at hm ⊢
      cases hm with
      | call _ hphase =>
        refine ⟨rfl, fun hj => ?_⟩
        rw [hj, hi] at hphase
        cases hphase
      | acquire _ hfree => rw [hlock] at hfree; cases hfree
      | resume hphase => rw [hevb] at hphase; cases hphase
      | finish hphase | erase hphase | destroyUser hphase | release hphase =>
        obtain rfl := hother j (by rw [hphase]; rfl)
        rw [hi] at hphase
        cases hphase
    refine ⟨i, key, keys, beat, hmove.1.trans hlock, ?_, ?_⟩
    · rw [hp, Function.update_of_ne (by simpa using Ne.symm hmove.2), hi]
    · rw [hp, Function.update_of_ne (by simp), hevb]

/-- A deadlock lasts, whatever the threads do. -/
theorem deadlock_run {s t : St} {es : List Ev} (hs : Owned s) (hd : Deadlock s) (hr : Lib.run step s es = some t) :
    Deadlock t :=
  (Lib.run_invariant step (fun s => Owned s ∧ Deadlock s) (fun _ _ _ h ht => ⟨h.1.step ht, deadlock_step h.1 h.2 ht⟩)
    ⟨hs, hd⟩ hr).2

theorem doomed_of_not_apart {s t : St} {e : Ev} (hok : ¬ Apart s e) (h : step s e = some t) : Doomed t := by
  obtain ⟨tid, p, hm, hp⟩ := move_step h
  unfold Apart at hok
  split at hok
  · -- the heartbeat fires while thread `i` erases
    split at hok
    · rename_i i _
      generalize t.lock = lock at hm
      cases hm
      refine ⟨i, ?_, by rw [hp, Function.update_self]; rfl⟩
      rw [hp, Function.update_of_ne (by simp)]
      simpa using hok
    · exact absurd trivial hok
  · rename_i i ok
    split at hok
    · rename_i job hjob
      push Not at hok
      obtain ⟨herases, hbeat⟩ := hok
      generalize t.lock = lock at hm
      cases hm with
      | finish hphase hno =>
        obtain rfl := Phase.inside.inj (hjob.symm.trans hphase)
        rw [hno] at herases
        cases herases
      | erase hphase hkeys =>
        obtain rfl := Phase.inside.inj (hjob.symm.trans hphase)
        refine ⟨i, ?_, ?_⟩
        · rw [hp, Function.update_self]
          simpa [Phase.erasing] using hkeys.mpr herases
        · rw [hp, Function.update_of_ne (by simp)]
          simpa using hbeat
    · exact absurd trivial hok
  · exact absurd trivial hok

/-- The next destructor waits for the event base. -/
theorem Doomed.deadlocks {s : St} (hs : Owned s) (hd : Doomed s) :
    Deadlock s ∨ ∃ i key t, step s (.destroy (.user i) key) = some t ∧ Deadlock t := by
  obtain ⟨i, hi, hevb⟩ := hd
  have hlock := hs _ (erasing_holds hi)
  obtain ⟨beat, hevb⟩ := beating_iff.mp hevb
  cases hphase : s.phase (.user i) with
  | waiting key keys => exact .inl ⟨i, key, keys, beat, hlock, hphase, hevb⟩
  | destroying keys =>
    rw [hphase] at hi
    obtain ⟨key, hkey⟩ := Finset.nonempty_iff_ne_empty.mpr (by simpa [Phase.erasing] using hi)
    refine .inr ⟨i, key, destroy s (.user i) key keys, by simp [step, hphase, hkey], ?_⟩
    refine ⟨i, key, keys.erase key, beat, hlock, setPhase_self .., ?_⟩
    rw [destroy, setPhase_ne _ _ (by simp)]
    exact hevb
  | idle | locking | inside => rw [hphase] at hi; cases hi

/-- A step that breaks the condition is a deadlock, or leaves only the destructor before
    one. -/
theorem breach_deadlocks {es : List Ev} {s t : St} {e : Ev} (hr : Lib.run step {} es = some s) (hok : ¬ Apart s e)
    (h : step s e = some t) :
    Deadlock t ∨ ∃ i key u, step t (.destroy (.user i) key) = some u ∧ Deadlock u := by
  have hs : Owned s := Lib.run_invariant step Owned (fun _ _ _ h ht => h.step ht) owned_init hr
  exact (doomed_of_not_apart hok h).deadlocks (hs.step h)

end PredictorService.ServiceRouter.HeartbeatLock
