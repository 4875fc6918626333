/-
  PredictorService.ServiceFramework.HttpClientManager — stopping the HTTP client
  (service_framework/http/http_client_manager.cc, http_client_manager.h,
  http_connection.cc: `onDelayedDestroy`).

  `stop` raises a flag, looks whether `connections_` is empty, and waits for a semaphore. A
  detach erases its connection, reads the flag, and looks as well. Who finds the map empty
  posts. The look and the post are two steps, and a connection may be inserted in between.

  Safety: once the semaphore is posted, no connection that was inserted before the flag was
  raised is in the map. Whoever posts has looked after the flag, and what was there before
  cannot come back (`no_wake_up_lost`). Liveness: whoever erases the last connection before
  the look of `stop` is seen by it, and whoever erases it after has yet to read the flag.

  Each call, detach and stop is an activity with a number, and goes by that number: the
  connection of a call has the number of the call. There may be any number of each, also
  several detaches of one connection. Ids start again at 0 one day, so two connections may
  have one; `insert` then keeps the older.
-/

import PredictorService.Lib.FinMap
import PredictorService.Lib.Runs

namespace PredictorService.ServiceFramework.HttpClientManager

open PredictorService.Lib

/-- Who has called `checkStop`. -/
inductive Caller where
  | detach (client : Nat)
  | stop
  deriving DecidableEq, Repr

/-- Where an activity stands. -/
inductive Phase where
  | idle
  /-- In `call`, with the id of its connection, which is not inserted yet. -/
  | inserting (id : UInt64)
  | called (id : UInt64)
  /-- In `detach`, before the erase. -/
  | erasing (client : Nat) (id : UInt64)
  /-- In `detach`, before it reads `ready_stop_`. -/
  | reading (client : Nat)
  /-- In `checkStop`, before it looks at `connections_`. -/
  | checking (caller : Caller)
  | posting (caller : Caller)
  | detached (client : Nat)
  /-- In `stop_.wait()`. -/
  | waiting
  | stopped
  deriving DecidableEq, Repr

structure St where
  uniqueConnId : UInt64 := 0
  connections : FinMap UInt64 Nat := ∅
  readyStop : Bool := false
  /-- `stop_`. -/
  posted : Bool := false
  phase : Nat → Phase := fun _ => .idle

def St.setPhase (s : St) (tid : Nat) (phase : Phase) : St := { s with phase := Function.update s.phase tid phase }

@[simp] theorem setPhase_phase (s : St) (tid : Nat) (phase : Phase) (u : Nat) :
    (s.setPhase tid phase).phase u = if u = tid then phase else s.phase u := Function.update_apply ..

@[simp] theorem setPhase_connections (s : St) (tid : Nat) (phase : Phase) :
    (s.setPhase tid phase).connections = s.connections := rfl

@[simp] theorem setPhase_readyStop (s : St) (tid : Nat) (phase : Phase) :
    (s.setPhase tid phase).readyStop = s.readyStop := rfl

@[simp] theorem setPhase_posted (s : St) (tid : Nat) (phase : Phase) : (s.setPhase tid phase).posted = s.posted := rfl

/-- The id, and `unique_conn_id_` after it. -/
def genUniqueConnId (uniqueConnId : UInt64) : UInt64 × UInt64 :=
  if uniqueConnId ≥ 18446744073709551615 - 10000 then (0, 1) else (uniqueConnId, uniqueConnId + 1)

/-- What follows `checkStop`. -/
def Caller.rest : Caller → Phase
  | .detach client => .detached client
  | .stop => .waiting

inductive Ev where
  | call (tid : Nat)
  | detach (tid client : Nat)
  | stop (tid : Nat)
  | proceed (tid : Nat)
  deriving DecidableEq, Repr

/-- One atomic step. -/
def step (s : St) : Ev → Option St
  | .call tid =>
    if s.phase tid = .idle then
      let (id, next) := genUniqueConnId s.uniqueConnId
      some ({ s with uniqueConnId := next }.setPhase tid (.inserting id))
    else none
  | .detach tid client =>
    match s.phase tid, s.phase client with
    | .idle, .called id => some (s.setPhase tid (.erasing client id))
    | _, _ => none
  | .stop tid =>
    if s.phase tid = .idle then some ({ s with readyStop := true }.setPhase tid (.checking .stop)) else none
  | .proceed tid =>
    match s.phase tid with
    | .inserting id =>
      let connections := if id ∈ s.connections then s.connections else s.connections.insert id tid
      some ({ s with connections := connections }.setPhase tid (.called id))
    | .erasing client id => some ({ s with connections := s.connections.erase id }.setPhase tid (.reading client))
    | .reading client =>
      some (s.setPhase tid (if s.readyStop then .checking (.detach client) else .detached client))
    | .checking caller => some (s.setPhase tid (if s.connections = ∅ then .posting caller else caller.rest))
    | .posting caller => some ({ s with posted := true }.setPhase tid caller.rest)
    | .waiting => if s.posted then some (s.setPhase tid .stopped) else none
    | _ => none

/-! ## What a step does -/

/-- The activity that moves, and the state after it. -/
inductive Move (s : St) (tid : Nat) : St → Prop
  | call {id next : UInt64} : s.phase tid = .idle →
      Move s tid ({ s with uniqueConnId := next }.setPhase tid (.inserting id))
  | detach {client : Nat} {id : UInt64} : s.phase tid = .idle → s.phase client = .called id →
      Move s tid (s.setPhase tid (.erasing client id))
  | stop : s.phase tid = .idle → Move s tid ({ s with readyStop := true }.setPhase tid (.checking .stop))
  /-- The connection's id is free, or it is not and the connection stays out. -/
  | insert {id : UInt64} {connections : FinMap UInt64 Nat} : s.phase tid = .inserting id → id ∈ connections →
      (∀ id' client, connections.lookup id' = some client →
        s.connections.lookup id' = some client ∨ (id' = id ∧ client = tid)) →
      Move s tid ({ s with connections := connections }.setPhase tid (.called id))
  | erase {client : Nat} {id : UInt64} : s.phase tid = .erasing client id →
      Move s tid ({ s with connections := s.connections.erase id }.setPhase tid (.reading client))
  | leave {client : Nat} : s.phase tid = .reading client → s.readyStop = false →
      Move s tid (s.setPhase tid (.detached client))
  | read {client : Nat} : s.phase tid = .reading client → s.readyStop = true →
      Move s tid (s.setPhase tid (.checking (.detach client)))
  | empty {caller : Caller} : s.phase tid = .checking caller → s.connections = ∅ →
      Move s tid (s.setPhase tid (.posting caller))
  | busy {caller : Caller} : s.phase tid = .checking caller → s.connections ≠ ∅ → Move s tid (s.setPhase tid caller.rest)
  | post {caller : Caller} : s.phase tid = .posting caller →
      Move s tid ({ s with posted := true }.setPhase tid caller.rest)
  | wake : s.phase tid = .waiting → s.posted = true → Move s tid (s.setPhase tid .stopped)

theorem insert_move {s : St} {tid : Nat} {id : UInt64} (h : s.phase tid = .inserting id) :
    Move s tid ({ s with connections := if id ∈ s.connections then s.connections else s.connections.insert id tid }.setPhase
      tid (.called id)) := by
  split
  · rename_i hmem
    exact .insert h hmem fun _ _ hlookup => .inl hlookup
  · refine .insert h (Finmap.mem_insert.mpr (.inl rfl)) fun id' client hlookup => ?_
    rw [FinMap.lookup_insert_ite] at hlookup
    split at hlookup
    · exact .inr ⟨‹_›, (Option.some_inj.mp hlookup).symm⟩
    · exact .inl hlookup

theorem move_step {s t : St} {e : Ev} (h : step s e = some t) : ∃ tid, Move s tid t := by
  cases e with
  | call tid =>
    obtain ⟨hidle, rfl⟩ := guard_some.mp h
    exact ⟨tid, .call hidle⟩
  | detach tid client =>
    simp only [step] at h
    split at h
    · cases h
      exact ⟨tid, .detach ‹_› ‹_›⟩
    · cases h
  | stop tid =>
    obtain ⟨hidle, rfl⟩ := guard_some.mp h
    exact ⟨tid, .stop hidle⟩
  | proceed tid =>
    rw [step] at h
    cases hphase : s.phase tid with
    | inserting id =>
      rw [hphase] at h
      cases h
      exact ⟨tid, insert_move hphase⟩
    | erasing client id =>
      rw [hphase] at h
      cases h
      exact ⟨tid, .erase hphase⟩
    | reading client =>
      rw [hphase] at h
      cases h
      split
      · exact ⟨tid, .read hphase ‹_›⟩
      · exact ⟨tid, .leave hphase (Bool.eq_false_iff.mpr ‹_›)⟩
    | checking caller =>
      rw [hphase] at h
      cases h
      split
      · exact ⟨tid, .empty hphase ‹_›⟩
      · exact ⟨tid, .busy hphase ‹_›⟩
    | posting caller =>
      rw [hphase] at h
      cases h
      exact ⟨tid, .post hphase⟩
    | waiting =>
      rw [hphase] at h
      obtain ⟨hposted, rfl⟩ := guard_some.mp h
      exact ⟨tid, .wake hphase hposted⟩
    | idle | called id | detached client | stopped =>
      rw [hphase] at h
      cases h

theorem Move.other {s t : St} {tid u : Nat} (h : Move s tid t) (hu : u ≠ tid) : t.phase u = s.phase u := by
  cases h <;> exact Function.update_of_ne hu _ _

/-- A call that is through stays so. -/
theorem Move.called {s t : St} {tid client : Nat} {id : UInt64} (h : Move s tid t)
    (hcalled : s.phase client = .called id) : t.phase client = .called id := by
  have hne : client ≠ tid := by
    rintro rfl
    cases h <;> rename_i hphase <;> simp_all
  rw [h.other hne, hcalled]

theorem Move.readyStop {s t : St} {tid : Nat} (h : Move s tid t) (hflag : s.readyStop = true) : t.readyStop = true := by
  cases h <;> first | exact hflag | rfl

theorem Move.posted {s t : St} {tid : Nat} (h : Move s tid t) (hposted : s.posted = true) : t.posted = true := by
  cases h <;> first | exact hposted | rfl

/-- The activity has raised the flag, or read it raised. -/
def Phase.afterFlag : Phase → Bool
  | .checking _ => true
  | .posting _ => true
  | .waiting => true
  | .stopped => true
  | _ => false

/-- The connection that a detach has erased. -/
def Phase.erased : Phase → Option Nat
  | .reading client => some client
  | .checking (.detach client) => some client
  | .posting (.detach client) => some client
  | .detached client => some client
  | _ => none

/-- The `checkStop` of a stop is through. -/
def Phase.looked : Phase → Bool
  | .waiting => true
  | .stopped => true
  | _ => false

/-! ## Where an activity comes from -/

theorem Move.entry {s t : St} {tid client : Nat} {id : UInt64} (h : Move s tid t)
    (hlookup : t.connections.lookup id = some client) :
    s.connections.lookup id = some client ∨ (client = tid ∧ s.phase client = .inserting id ∧ t.phase client = .called id) := by
  cases h with
  | insert hphase _ hentries =>
    rcases hentries id client hlookup with hold | ⟨rfl, rfl⟩
    · exact .inl hold
    · exact .inr ⟨rfl, hphase, by simp⟩
  | erase =>
    rw [setPhase_connections, FinMap.lookup_erase_ite] at hlookup
    split at hlookup
    · cases hlookup
    · exact .inl hlookup
  | _ => exact .inl hlookup

/-- Who has erased a connection had, or was about to. -/
theorem Move.erased {s t : St} {tid u client : Nat} (h : Move s tid t) (hu : (t.phase u).erased = some client) :
    (s.phase u).erased = some client ∨
      ∃ id, s.phase u = .erasing client id ∧ t.connections = s.connections.erase id := by
  by_cases hne : u = tid
  · subst hne
    cases h with
    | call | detach | insert | stop | wake => simp [Phase.erased] at hu
    | erase hphase =>
      simp only [setPhase_phase, if_true, Phase.erased, Option.some_inj] at hu
      subst hu
      exact .inr ⟨_, hphase, rfl⟩
    | leave hphase | read hphase =>
      simp only [setPhase_phase, if_true] at hu
      exact .inl (by rw [hphase]; exact hu)
    | @empty caller hphase | @busy caller hphase | @post caller hphase =>
      simp only [setPhase_phase, if_true] at hu
      refine .inl ?_
      rw [hphase]
      cases caller <;> exact hu
  · rw [h.other hne] at hu
    exact .inl hu

/-- A detach ends before the flag is raised, with a connection in the map, or with the post. -/
theorem Move.detached {s t : St} {tid u client : Nat} (h : Move s tid t) (hu : t.phase u = .detached client) :
    s.phase u = .detached client ∨ ((s.phase u).erased = some client ∧
      (s.readyStop = false ∨ t.connections ≠ ∅ ∨ t.posted = true)) := by
  by_cases hne : u = tid
  · subst hne
    cases h with
    | leave hphase hlow =>
      simp only [setPhase_phase, if_true, Phase.detached.injEq] at hu
      subst hu
      exact .inr ⟨by rw [hphase]; rfl, .inl hlow⟩
    | @busy caller hphase hconnections =>
      simp only [setPhase_phase, if_true] at hu
      cases caller with
      | detach =>
        cases hu
        exact .inr ⟨by rw [hphase]; rfl, .inr (.inl hconnections)⟩
      | stop => cases hu
    | @post caller hphase =>
      simp only [setPhase_phase, if_true] at hu
      cases caller with
      | detach =>
        cases hu
        exact .inr ⟨by rw [hphase]; rfl, .inr (.inr rfl)⟩
      | stop => cases hu
    | _ => simp at hu
  · rw [h.other hne] at hu
    exact .inl hu

/-- A stop has looked, and has found a connection or posted. -/
theorem Move.looked {s t : St} {tid u : Nat} (h : Move s tid t) (hu : (t.phase u).looked) :
    (s.phase u).looked ∨ t.connections ≠ ∅ ∨ t.posted = true := by
  by_cases hne : u = tid
  · subst hne
    cases h with
    | busy _ hconnections => exact .inr (.inl hconnections)
    | post => exact .inr (.inr rfl)
    | wake hphase => exact .inl (by rw [hphase]; rfl)
    | _ => simp [Phase.looked] at hu
  · rw [h.other hne] at hu
    exact .inl hu

theorem exists_entry {connections : FinMap UInt64 Nat} (h : connections ≠ ∅) :
    ∃ id client, connections.lookup id = some client := by
  by_contra hnone
  simp only [not_exists] at hnone
  refine h (Finmap.ext_lookup fun id => ?_)
  rw [Finmap.lookup_empty]
  exact Option.eq_none_iff_forall_not_mem.mpr fun client hclient => hnone id client hclient

/-! ## The invariant -/

/-- The connection is inserted, and no detach of it has ended. -/
def St.Live (s : St) (client : Nat) : Prop :=
  (∃ id, s.phase client = .called id) ∧ ∀ tid, s.phase tid ≠ .detached client

/-- Somebody has posted, or has yet to look. -/
def St.Pending (s : St) : Prop := s.posted = true ∨ s.connections ≠ ∅ ∨ ∃ client, s.Live client

structure Inv (s : St) : Prop where
  flag : ∀ tid, (s.phase tid).afterFlag → s.readyStop = true
  postedFlag : s.posted = true → s.readyStop = true
  erasing : ∀ tid client id, s.phase tid = .erasing client id → s.phase client = .called id
  erased : ∀ tid client, (s.phase tid).erased = some client → ∃ id, s.phase client = .called id
  /-- An entry is of a call that is through, and no detach has erased it. -/
  entries : ∀ id client, s.connections.lookup id = some client →
    s.phase client = .called id ∧ ∀ tid, (s.phase tid).erased ≠ some client
  /-- When a stop has looked in vain, somebody has yet to look. -/
  pending : ∀ tid, (s.phase tid).looked → s.Pending

theorem inv_init : Inv {} where
  flag := fun _ h => by cases h
  postedFlag := fun h => by cases h
  erasing := fun _ _ _ h => by cases h
  erased := fun _ _ h => by cases h
  entries := fun id _ h => by
    rw [Finmap.lookup_empty] at h
    cases h
  pending := fun _ h => by cases h

theorem Inv.flag_step {s t : St} {tid : Nat} (hs : Inv s) (h : Move s tid t) (u : Nat)
    (hu : (t.phase u).afterFlag) : t.readyStop = true := by
  by_cases hne : u = tid
  · subst hne
    have hold : (s.phase u).afterFlag → t.readyStop = true := fun hold => h.readyStop (hs.flag u hold)
    cases h with
    | call | detach | insert | erase | leave => simp [Phase.afterFlag] at hu
    | stop => rfl
    | read _ hflag => exact hflag
    | empty hphase | busy hphase | post hphase | wake hphase => exact hold (by rw [hphase]; rfl)
  · rw [h.other hne] at hu
    exact h.readyStop (hs.flag u hu)

theorem Inv.postedFlag_step {s t : St} {tid : Nat} (hs : Inv s) (h : Move s tid t) (hposted : t.posted = true) :
    t.readyStop = true := by
  cases h with
  | stop => rfl
  | post hphase => exact hs.flag tid (by rw [hphase]; rfl)
  | _ => exact hs.postedFlag hposted

theorem Inv.erasing_step {s t : St} {tid : Nat} (hs : Inv s) (h : Move s tid t) (u client : Nat) (id : UInt64)
    (hu : t.phase u = .erasing client id) : t.phase client = .called id := by
  have hold : s.phase client = .called id := by
    by_cases hne : u = tid
    · subst hne
      cases h with
      | detach _ hcalled =>
        simp only [setPhase_phase, if_true, Phase.erasing.injEq] at hu
        obtain ⟨rfl, rfl⟩ := hu
        exact hcalled
      | @busy caller _ _ | @post caller _ => cases caller <;> simp [Caller.rest] at hu
      | _ => simp at hu
    · rw [h.other hne] at hu
      exact hs.erasing u client id hu
  exact h.called hold

theorem Inv.erased_step {s t : St} {tid : Nat} (hs : Inv s) (h : Move s tid t) (u client : Nat)
    (hu : (t.phase u).erased = some client) : ∃ id, t.phase client = .called id := by
  rcases h.erased hu with hold | ⟨id, hphase, -⟩
  · obtain ⟨id, hid⟩ := hs.erased u client hold
    exact ⟨id, h.called hid⟩
  · exact ⟨id, h.called (hs.erasing u client id hphase)⟩

theorem Inv.entries_step {s t : St} {tid : Nat} (hs : Inv s) (h : Move s tid t) (id : UInt64) (client : Nat)
    (hlookup : t.connections.lookup id = some client) :
    t.phase client = .called id ∧ ∀ u, (t.phase u).erased ≠ some client := by
  rcases h.entry hlookup with hold | ⟨rfl, hphase, hcalled⟩
  · obtain ⟨hcalled, hnot⟩ := hs.entries id client hold
    refine ⟨h.called hcalled, fun u hu => ?_⟩
    rcases h.erased hu with hu | ⟨id', hu, hconnections⟩
    · exact hnot u hu
    · have hid := hs.erasing u client id' hu
      rw [hcalled, Phase.called.injEq] at hid
      subst hid
      rw [hconnections, FinMap.lookup_erase_ite, if_pos rfl] at hlookup
      cases hlookup
  · refine ⟨hcalled, fun u hu => ?_⟩
    -- a detach is of a connection whose call is through
    have hthrough : ∃ id', s.phase client = .called id' := by
      rcases h.erased hu with hu | ⟨id', hu, -⟩
      · exact hs.erased u client hu
      · exact ⟨id', hs.erasing u client id' hu⟩
    obtain ⟨id', hthrough⟩ := hthrough
    rw [hphase] at hthrough
    cases hthrough

theorem Inv.pending_of_pending {s t : St} {tid : Nat} (hs : Inv s) (h : Move s tid t) (hflag : s.readyStop = true)
    (hpending : s.Pending) : t.Pending := by
  rcases hpending with hposted | hconnections | ⟨client, ⟨id, hid⟩, hnot⟩
  · exact .inl (h.posted hposted)
  · obtain ⟨id, client, hlookup⟩ := exists_entry hconnections
    obtain ⟨hcalled, hnot⟩ := hs.entries id client hlookup
    refine .inr (.inr ⟨client, ⟨id, h.called hcalled⟩, fun u hu => ?_⟩)
    rcases h.detached hu with hu | ⟨hu, -⟩
    · exact hnot u (by rw [hu]; rfl)
    · exact hnot u hu
  · by_cases hlive : ∃ u, t.phase u = .detached client
    · obtain ⟨u, hu⟩ := hlive
      rcases h.detached hu with hu | ⟨-, hlow | hbusy | hposted⟩
      · exact absurd hu (hnot u)
      · rw [hflag] at hlow
        cases hlow
      · exact .inr (.inl hbusy)
      · exact .inl hposted
    · exact .inr (.inr ⟨client, ⟨id, h.called hid⟩, fun u hu => hlive ⟨u, hu⟩⟩)

theorem Inv.pending_step {s t : St} {tid : Nat} (hs : Inv s) (h : Move s tid t) (u : Nat)
    (hu : (t.phase u).looked) : t.Pending := by
  rcases h.looked hu with hold | hbusy | hposted
  · have hflag : s.readyStop = true := hs.flag u (by cases hp : s.phase u <;> simp_all [Phase.looked, Phase.afterFlag])
    exact hs.pending_of_pending h hflag (hs.pending u hold)
  · exact .inr (.inl hbusy)
  · exact .inl hposted

theorem Inv.step {s t : St} {e : Ev} (hs : Inv s) (h : HttpClientManager.step s e = some t) : Inv t := by
  obtain ⟨tid, hm⟩ := move_step h
  exact ⟨hs.flag_step hm, hs.postedFlag_step hm, hs.erasing_step hm, hs.erased_step hm, hs.entries_step hm,
    hs.pending_step hm⟩

theorem inv_run {es : List Ev} {s : St} (h : run step {} es = some s) : Inv s :=
  run_invariant step Inv (fun _ _ _ hs ht => hs.step ht) inv_init h

/-! ## Safety -/

/-- Who posts, or has posted, has found none of the old connections in the map. -/
structure Gone (old : Nat → Prop) (s : St) : Prop where
  called : ∀ client, old client → ∃ id, s.phase client = .called id
  out : (s.posted = true ∨ ∃ tid caller, s.phase tid = .posting caller) →
    ∀ client, old client → ∀ id, s.connections.lookup id ≠ some client

/-- The post is of somebody who was there before, or who has just found the map empty. -/
theorem Move.atPost {s t : St} {tid : Nat} (h : Move s tid t)
    (hpost : t.posted = true ∨ ∃ u caller, t.phase u = .posting caller) :
    (s.posted = true ∨ ∃ u caller, s.phase u = .posting caller) ∨ t.connections = ∅ := by
  rcases hpost with hposted | ⟨u, caller, hu⟩
  · cases h with
    | post hphase => exact .inl (.inr ⟨tid, _, hphase⟩)
    | _ => exact .inl (.inl hposted)
  · by_cases hne : u = tid
    · subst hne
      cases h with
      | empty _ hconnections => exact .inr hconnections
      | @busy caller' | @post caller' => cases caller' <;> simp [Caller.rest] at hu
      | _ => simp at hu
    · rw [h.other hne] at hu
      exact .inl (.inr ⟨u, caller, hu⟩)

theorem Gone.step {old : Nat → Prop} {s t : St} {e : Ev} (hs : Gone old s)
    (h : HttpClientManager.step s e = some t) : Gone old t := by
  obtain ⟨tid, hm⟩ := move_step h
  refine ⟨fun client hold => ?_, fun hpost client hold id hlookup => ?_⟩
  · obtain ⟨id, hid⟩ := hs.called client hold
    exact ⟨id, hm.called hid⟩
  rcases hm.atPost hpost with hbefore | hempty
  · rcases hm.entry hlookup with hentry | ⟨-, hphase, -⟩
    · exact hs.out hbefore client hold id hentry
    · obtain ⟨id', hid⟩ := hs.called client hold
      rw [hphase] at hid
      cases hid
  · rw [hempty, Finmap.lookup_empty] at hlookup
    cases hlookup

/-- Before the flag, nobody is at the post. -/
theorem Inv.gone {s : St} (hs : Inv s) (hflag : s.readyStop = false) :
    Gone (fun client => ∃ id, s.phase client = .called id) s := by
  refine ⟨fun _ hold => hold, fun hpost => ?_⟩
  have hraised : s.readyStop = true := by
    rcases hpost with hposted | ⟨tid, caller, hphase⟩
    · exact hs.postedFlag hposted
    · exact hs.flag tid (by rw [hphase]; rfl)
  rw [hflag] at hraised
  cases hraised

/-! ## Liveness -/

/-- Where all connections are detached, nobody has yet to look. -/
theorem Inv.posted {s : St} (hs : Inv s)
    (hdetached : ∀ client id, s.phase client = .called id → ∃ tid, s.phase tid = .detached client) {tid : Nat}
    (hlooked : (s.phase tid).looked) : s.posted = true := by
  rcases hs.pending tid hlooked with hposted | hconnections | ⟨client, ⟨id, hid⟩, hnot⟩
  · exact hposted
  · obtain ⟨id, client, hlookup⟩ := exists_entry hconnections
    obtain ⟨hcalled, hnot⟩ := hs.entries id client hlookup
    obtain ⟨u, hu⟩ := hdetached client id hcalled
    exact absurd (by rw [hu]; rfl) (hnot u)
  · obtain ⟨u, hu⟩ := hdetached client id hid
    exact absurd hu (hnot u)

/-- No wake-up is lost. -/
theorem no_wake_up_lost :
    (∀ es s es' t, run step {} es = some s → s.readyStop = false → run step s es' = some t → t.posted = true →
      ∀ client id, s.phase client = .called id → ∀ id', t.connections.lookup id' ≠ some client) ∧
    ∀ es s, run step {} es = some s →
      (∀ client id, s.phase client = .called id → ∃ tid, s.phase tid = .detached client) →
      ∀ tid, (s.phase tid).looked →
        s.posted = true ∧ (s.phase tid = .waiting → (step s (.proceed tid)).isSome) := by
  refine ⟨fun es s es' t hs hflag ht hposted client id hid => ?_, fun es s hs hdetached tid hlooked => ?_⟩
  · have hgone := run_invariant step (Gone _) (fun _ _ _ hs ht => hs.step ht) ((inv_run hs).gone hflag) ht
    exact hgone.out (.inl hposted) client ⟨id, hid⟩
  · have hposted := (inv_run hs).posted hdetached hlooked
    refine ⟨hposted, fun hwaiting => ?_⟩
    simp only [step, hwaiting, if_pos hposted, Option.isSome_some]

/-- A connection that is detached while the stop waits. -/
theorem no_wake_up_lost_one_connection :
    ∃ s t, run step {} [.call 0, .proceed 0] = some s ∧
      run step s [.stop 1, .proceed 1, .detach 2 0, .proceed 2, .proceed 2, .proceed 2, .proceed 2] = some t ∧
      t.connections.lookup 0 ≠ some 0 ∧ t.posted = true ∧ (step t (.proceed 1)).isSome := by
  obtain ⟨s, hs, t, ht, hphase⟩ : ∃ s, run step {} [.call 0, .proceed 0] = some s ∧
      ∃ t, run step s [.stop 1, .proceed 1, .detach 2 0, .proceed 2, .proceed 2, .proceed 2, .proceed 2] = some t ∧
        s.readyStop = false ∧ s.phase 0 = .called 0 ∧ t.phase 1 = .waiting ∧ t.phase 2 = .detached 0 ∧
        ∀ client id, t.phase client = .called id → client = 0 := by
    refine ⟨_, rfl, _, rfl, rfl, rfl, rfl, rfl, fun client id hid => ?_⟩
    rcases client with _ | _ | _ | n
    · rfl
    · have hother : Phase.waiting = .called id := hid
      cases hother
    · have hother : Phase.detached 0 = .called id := hid
      cases hother
    · have hother : Phase.idle = .called id := hid
      cases hother
  obtain ⟨hflag, hcalled, hwaiting, hdetached, honly⟩ := hphase
  have hlive := no_wake_up_lost.2 _ t ((run_append_some step).mpr ⟨s, hs, ht⟩)
    (fun client id hid => ⟨2, by rw [honly client id hid]; exact hdetached⟩) 1 (by rw [hwaiting]; rfl)
  exact ⟨s, t, hs, ht, no_wake_up_lost.1 _ s _ t hs hflag ht hlive.1 0 0 hcalled 0, hlive.1, hlive.2 hwaiting⟩

end PredictorService.ServiceFramework.HttpClientManager
