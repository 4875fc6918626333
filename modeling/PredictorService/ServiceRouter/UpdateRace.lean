/-
  PredictorService.ServiceRouter.UpdateRace — two `RouterDb::updateServers` calls at once
  (service_router/router.cc). The discover callbacks run on `router_callback_threads`
  threads, so two services can be updated at the same time.

  A call has four locked sections: it copies the table under the shared lock, cleans its
  old partition lists and adds its new ones under the lock of `last_partition_keys_`, and
  publishes its copy under the exclusive lock. What it does between two locks is local to
  it and belongs to the section before or after. A schedule is the order in which the two
  calls take their sections.

  - `tracks_run`: whatever the other call does, a call publishes its lists laid over the
    table it copied.
  - `noLoss_iff`: when both have returned, each service is as its own call would have left
    it iff the calls ran one after the other, or the one that published first had nothing
    new to say. Otherwise the second publication puts the table back to where it was
    before the first (`discover_update_lost`).
-/

import PredictorService.Lib.Runs
import PredictorService.ServiceRouter.RouterDbProofs

namespace PredictorService.ServiceRouter

open PredictorService.Lib (FinMap)
open PredictorService.Thirdparty (cityHash64WithSeed)

namespace UpdateRace

inductive Who where
  | a
  | b
  deriving DecidableEq, Repr

def Who.other : Who → Who
  | .a => .b
  | .b => .a

/-- The arguments of one `updateServers` call and the clock it reads. -/
structure Call where
  serviceName : String
  list : List Server
  now : UInt64

/-- Where a call is, with its built lists and its copy of the table. -/
inductive Pc where
  | start
  | copied (built : RouterDb.Built) (currentServices : Services)
  | cleaned (built : RouterDb.Built) (currentServices : Services)
  | merged (built : RouterDb.Built) (currentServices : Services)
  | done
  | threw

structure St where
  db : RouterDb
  pc : Who → Pc := fun _ => .start

variable (H : Hash64)

/-- The next section of a call; `none` when it has returned or thrown. -/
def takeSection (call : Call) (db : RouterDb) : Pc → Option (RouterDb × Pc)
  | .start =>
    match RouterDb.buildServers H call.serviceName (db.pickServers call.serviceName call.list call.now) with
    | none => some (db, .threw)
    | some built => some (db, .copied built db.serviceRegistry)
  | .copied built currentServices =>
    let (partitionKeys, currentServices) :=
      RouterDb.cleanPartitions call.serviceName db.lastPartitionKeys currentServices
    some ({ db with lastPartitionKeys := partitionKeys }, .cleaned built currentServices)
  | .cleaned built currentServices =>
    let currentServices := built.shardServers ∪ currentServices
    let (partitionKeys, currentServices) :=
      RouterDb.addPartitions call.serviceName built.partitionServers db.lastPartitionKeys currentServices
    some ({ db with lastPartitionKeys := partitionKeys }, .merged built currentServices)
  | .merged _ currentServices => some ({ db with serviceRegistry := currentServices }, .done)
  | .done => none
  | .threw => none

def step (calls : Who → Call) (s : St) (w : Who) : Option St :=
  (takeSection H (calls w) s.db (s.pc w)).map fun (db, pc) => ⟨db, Function.update s.pc w pc⟩

/-- Both calls have returned. -/
def Returned (s : St) : Prop := ∀ w, s.pc w = .done

/-- Every lookup in play of the call's service gives what the call alone would have
    published. -/
def Kept (K : Set Route) (db0 : RouterDb) (call : Call) (s : St) : Prop :=
  ∀ r ∈ K, r.serviceName = call.serviceName →
    s.db.selectServers H r =
      (db0.apply H (.updateServers call.serviceName call.list call.now)).selectServers H r

def NoLoss (K : Set Route) (db0 : RouterDb) (calls : Who → Call) (s : St) : Prop :=
  ∀ w, Kept H K db0 (calls w) s

/-- One call after the other. -/
def Serial (sched : List Who) : Prop :=
  ∃ w : Who, sched = List.replicate 4 w ++ List.replicate 4 w.other

/-- The call has nothing new to say: the table already holds every list its picked servers
    give, and no remembered partition list that they no longer give. -/
def NoNews (K : Set Route) (db : RouterDb) (call : Call) : Prop :=
  ∀ ts, (db.pickServers call.serviceName call.list call.now).mapM RouterDb.withHostLong = some ts →
    ∀ r ∈ K, r.serviceName = call.serviceName →
      (∀ l, RouterDb.given call.serviceName ts r = some l → db.selectServers H r = some l) ∧
      (RouterDb.given call.serviceName ts r = none → getServiceKey H r ∈ db.partitionKeysOf call.serviceName →
        db.selectServers H r = none)

/-! ## Schedules -/

@[simp] theorem Who.other_other (w : Who) : w.other.other = w := by cases w <;> rfl

theorem Who.other_ne (w : Who) : w.other ≠ w := by cases w <;> decide

theorem Who.eq_other_of_ne {v w : Who} (h : v ≠ w) : v = w.other := by
  cases v <;> cases w <;> first | rfl | exact absurd rfl h

/-- Sections taken so far. -/
def Pc.rank : Pc → Nat
  | .start => 0
  | .copied _ _ => 1
  | .cleaned _ _ => 2
  | .merged _ _ => 3
  | .done => 4
  | .threw => 1

theorem Pc.eq_done_of_rank {pc : Pc} (h : pc.rank = 4) : pc = .done := by
  cases pc <;> simp only [Pc.rank] at h <;> first | rfl | omega

theorem takeSection_rank {call : Call} {db db' : RouterDb} {pc pc' : Pc}
    (h : takeSection H call db pc = some (db', pc')) : pc ≠ .threw ∧ pc'.rank = pc.rank + 1 := by
  cases pc with
  | start =>
    simp only [takeSection] at h
    split at h <;> cases h <;> exact ⟨by simp, rfl⟩
  | copied built cur => cases h; exact ⟨by simp, rfl⟩
  | cleaned built cur => cases h; exact ⟨by simp, rfl⟩
  | merged built cur => cases h; exact ⟨by simp, rfl⟩
  | done => cases h
  | threw => cases h

theorem step_some {calls : Who → Call} {s t : St} {w : Who} (h : step H calls s w = some t) :
    takeSection H (calls w) s.db (s.pc w) = some (t.db, t.pc w) ∧ t.pc w.other = s.pc w.other := by
  obtain ⟨⟨db, pc⟩, hsec, rfl⟩ := Option.map_eq_some_iff.mp h
  refine ⟨?_, ?_⟩
  · simpa using hsec
  · simp [Function.update_of_ne (Who.other_ne w)]

/-- A call has taken as many sections as it has turns in the schedule. -/
theorem rank_run {calls : Who → Call} {db0 : RouterDb} {sched : List Who} {t : St}
    (hr : Lib.run (step H calls) ⟨db0, fun _ => .start⟩ sched = some t) (w : Who) :
    (t.pc w).rank = sched.count w := by
  have hstep : ∀ (hist : List Who) (s t : St) (v : Who), (s.pc w).rank = hist.count w → True →
      step H calls s v = some t → (t.pc w).rank = (hist ++ [v]).count w := by
    intro hist s t v hs _ hv
    obtain ⟨hsec, hother⟩ := step_some H hv
    rw [List.count_append, List.count_singleton]
    by_cases hvw : v = w
    · subst hvw
      rw [(takeSection_rank H hsec).2, hs]
      simp
    · have hw : w = v.other := Who.eq_other_of_ne (Ne.symm hvw)
      rw [hw] at hs ⊢
      rw [hother, hs]
      simp [Ne.symm (Who.other_ne v)]
  have := Lib.run_history (step H calls) (fun _ _ => True) (fun hist s => (s.pc w).rank = hist.count w) hstep []
    (by rfl) (Lib.meets_true _ _ sched) hr
  simpa using this

/-! ## What a call publishes -/

/-- Lists laid over a table from which the old partition keys are dropped. -/
def overlay (keys : Finset UInt64) (built : RouterDb.Built) (table : Services) : Services :=
  built.partitionServers ∪ (built.shardServers ∪ FinMap.eraseAll table keys)

theorem cleanPartitions_table (name : String) (partitionKeys : FinMap String (Finset UInt64)) (table : Services) :
    (RouterDb.cleanPartitions name partitionKeys table).2 =
      FinMap.eraseAll table (RouterDb.keysAt partitionKeys name) := by
  unfold RouterDb.cleanPartitions RouterDb.keysAt
  split <;> rename_i h <;> rw [h] <;> rfl

theorem publish_serviceRegistry (db : RouterDb) (name : String) (built : RouterDb.Built) :
    (db.publish name built).serviceRegistry = overlay (db.partitionKeysOf name) built db.serviceRegistry := by
  rw [overlay, RouterDb.partitionKeysOf, ← cleanPartitions_table]
  rfl

/-- The lists a call builds when it starts from `db0`. -/
def Builds (db0 : RouterDb) (call : Call) (built : RouterDb.Built) : Prop :=
  RouterDb.buildServers H call.serviceName (db0.pickServers call.serviceName call.list call.now) = some built

/-- Where a call is, when it copied the table `table`: its copy so far, and the remembered
    keys of its service for as long as it still needs them. -/
def TracksPc (db0 : RouterDb) (call : Call) (table : Services) (db : RouterDb) : Pc → Prop
  | .start => db.partitionKeysOf call.serviceName = db0.partitionKeysOf call.serviceName
  | .copied built cur => Builds H db0 call built ∧ cur = table ∧
      db.partitionKeysOf call.serviceName = db0.partitionKeysOf call.serviceName
  | .cleaned built cur => Builds H db0 call built ∧
      cur = FinMap.eraseAll table (db0.partitionKeysOf call.serviceName)
  | .merged built cur => Builds H db0 call built ∧ cur = overlay (db0.partitionKeysOf call.serviceName) built table
  | .done => ∃ built, Builds H db0 call built
  | .threw => True

structure Tracks (db0 : RouterDb) (calls : Who → Call) (w : Who) (table : Services) (s : St) : Prop where
  configs : s.db.configs = db0.configs
  pc : TracksPc H db0 (calls w) table s.db (s.pc w)

/-- A section leaves the configs as they are, and only the last one writes the table. -/
theorem takeSection_frame {call : Call} {db db' : RouterDb} {pc pc' : Pc}
    (h : takeSection H call db pc = some (db', pc')) :
    db'.configs = db.configs ∧ (pc' ≠ .done → db'.serviceRegistry = db.serviceRegistry) ∧
      ∀ name, name ≠ call.serviceName → db'.partitionKeysOf name = db.partitionKeysOf name := by
  cases pc with
  | start =>
    simp only [takeSection] at h
    split at h <;> cases h <;> exact ⟨rfl, fun _ => rfl, fun _ _ => rfl⟩
  | copied built cur =>
    cases h
    refine ⟨rfl, fun _ => rfl, fun name hne => ?_⟩
    exact (RouterDb.keysAt_cleanPartitions _ _ _ _).trans (if_neg hne)
  | cleaned built cur =>
    cases h
    refine ⟨rfl, fun _ => rfl, fun name hne => ?_⟩
    exact (RouterDb.keysAt_addPartitions _ _ _ (built.shardServers ∪ cur) _).trans (if_neg hne)
  | merged built cur =>
    cases h
    exact ⟨rfl, fun hne => absurd rfl hne, fun _ _ => rfl⟩
  | done => cases h
  | threw => cases h

/-- A call's own section. Its first one copies the table of the moment. -/
theorem tracksPc_own {db0 : RouterDb} {call : Call} {table : Services} {db db' : RouterDb} {pc pc' : Pc}
    (hc : db.configs = db0.configs) (hpc : TracksPc H db0 call table db pc)
    (hstart : pc = .start → db.serviceRegistry = table) (h : takeSection H call db pc = some (db', pc')) :
    TracksPc H db0 call table db' pc' := by
  cases pc with
  | start =>
    have hpick : db.pickServers call.serviceName call.list call.now =
        db0.pickServers call.serviceName call.list call.now := by
      have hconf : db.getRouterConfig call.serviceName = db0.getRouterConfig call.serviceName := by
        simp only [RouterDb.getRouterConfig, RouterDb.getConfig, hc]
      rw [RouterDb.pickServers, hconf, RouterDb.pickServers]
    simp only [takeSection] at h
    split at h
    · cases h
      trivial
    · rename_i built hb
      cases h
      rw [hpick] at hb
      exact ⟨hb, hstart rfl, hpc⟩
  | copied built cur =>
    cases h
    obtain ⟨hb, hcur, hkeys⟩ := hpc
    refine ⟨hb, (cleanPartitions_table _ _ _).trans ?_⟩
    rw [hcur]
    exact congrArg _ hkeys
  | cleaned built cur =>
    cases h
    obtain ⟨hb, hcur⟩ := hpc
    refine ⟨hb, ?_⟩
    rw [hcur]
    rfl
  | merged built cur =>
    cases h
    exact ⟨built, hpc.1⟩
  | done => cases h
  | threw => cases h

/-- A section of the call for another service. -/
theorem tracksPc_other {db0 : RouterDb} {call : Call} {table : Services} {db db' : RouterDb} {pc : Pc}
    (hpc : TracksPc H db0 call table db pc)
    (hkeys : db'.partitionKeysOf call.serviceName = db.partitionKeysOf call.serviceName) :
    TracksPc H db0 call table db' pc := by
  cases pc with
  | start => exact hkeys.trans hpc
  | copied built cur => exact ⟨hpc.1, hpc.2.1, hkeys.trans hpc.2.2⟩
  | cleaned built cur => exact hpc
  | merged built cur => exact hpc
  | done => exact hpc
  | threw => trivial

theorem tracks_step {db0 : RouterDb} {calls : Who → Call} (hne : (calls .a).serviceName ≠ (calls .b).serviceName)
    {w : Who} {table : Services} {s t : St} {v : Who} (hs : Tracks H db0 calls w table s)
    (hstart : v = w → s.pc w = .start → s.db.serviceRegistry = table) (h : step H calls s v = some t) :
    Tracks H db0 calls w table t := by
  obtain ⟨hsec, hother⟩ := step_some H h
  obtain ⟨hconf, -, hkeys⟩ := takeSection_frame H hsec
  refine ⟨hconf.trans hs.configs, ?_⟩
  by_cases hvw : v = w
  · subst hvw
    exact tracksPc_own H hs.configs hs.pc (hstart rfl) hsec
  · have hw : w = v.other := Who.eq_other_of_ne (Ne.symm hvw)
    have hname : (calls w).serviceName ≠ (calls v).serviceName := by
      cases v <;> cases w <;> first | exact absurd rfl hvw | exact hne | exact hne.symm
    rw [hw, hother, ← hw]
    exact tracksPc_other H hs.pc (hkeys _ hname)

/-- Before a call starts, any table may be the one it copies. -/
theorem Tracks.of_start {db0 : RouterDb} {calls : Who → Call} {w : Who} {table table' : Services} {s : St}
    (hs : Tracks H db0 calls w table s) (hstart : s.pc w = .start) : Tracks H db0 calls w table' s := by
  have hpc := hs.pc
  refine ⟨hs.configs, ?_⟩
  rw [hstart] at hpc ⊢
  exact hpc

theorem exists_tracks_run {db0 : RouterDb} {calls : Who → Call}
    (hne : (calls .a).serviceName ≠ (calls .b).serviceName) (w : Who) {sched : List Who} {t : St}
    (hr : Lib.run (step H calls) ⟨db0, fun _ => .start⟩ sched = some t) : ∃ table, Tracks H db0 calls w table t := by
  have hinit : ∃ table, Tracks H db0 calls w table ⟨db0, fun _ => .start⟩ := ⟨db0.serviceRegistry, rfl, rfl⟩
  refine Lib.run_invariant (step H calls) (fun s => ∃ table, Tracks H db0 calls w table s) ?_ hinit hr
  intro s t v hs h
  obtain ⟨table, hs⟩ := hs
  by_cases hstart : s.pc w = .start
  · exact ⟨s.db.serviceRegistry, tracks_step H hne (hs.of_start H hstart) (fun _ _ => rfl) h⟩
  · exact ⟨table, tracks_step H hne hs (fun _ hpc => absurd hpc hstart) h⟩

/-- Once a call has copied the table, it goes on from that copy whatever the other does. -/
theorem tracks_run {db0 : RouterDb} {calls : Who → Call} (hne : (calls .a).serviceName ≠ (calls .b).serviceName)
    {w : Who} {table : Services} {s t : St} (hs : Tracks H db0 calls w table s) (hstart : s.pc w ≠ .start)
    {sched : List Who} (hr : Lib.run (step H calls) s sched = some t) :
    Tracks H db0 calls w table t ∧ t.pc w ≠ .start := by
  refine Lib.run_invariant (step H calls) (fun s => Tracks H db0 calls w table s ∧ s.pc w ≠ .start) ?_ ⟨hs, hstart⟩ hr
  intro s t v hs h
  refine ⟨tracks_step H hne hs.1 (fun _ hpc => absurd hpc hs.2) h, fun hpc => ?_⟩
  obtain ⟨hsec, hother⟩ := step_some H h
  by_cases hvw : v = w
  · subst hvw
    have hrank := (takeSection_rank H hsec).2
    rw [hpc] at hrank
    simp [Pc.rank] at hrank
  · rw [Who.eq_other_of_ne (Ne.symm hvw), hother, ← Who.eq_other_of_ne (Ne.symm hvw)] at hpc
    exact hs.2 hpc

/-- While one call waits, the other keeps the table until it publishes. -/
structure Alone (db0 : RouterDb) (calls : Who → Call) (w : Who) (s : St) : Prop where
  other : s.pc w.other = .start
  tracks : ∀ v, Tracks H db0 calls v db0.serviceRegistry s
  before : s.pc w ≠ .done → s.db.serviceRegistry = db0.serviceRegistry
  after : s.pc w = .done → ∃ built, Builds H db0 (calls w) built ∧
    s.db.serviceRegistry = overlay (db0.partitionKeysOf (calls w).serviceName) built db0.serviceRegistry

theorem takeSection_done {call : Call} {db db' : RouterDb} {pc : Pc}
    (h : takeSection H call db pc = some (db', .done)) : ∃ built, pc = .merged built db'.serviceRegistry := by
  cases pc with
  | start =>
    simp only [takeSection] at h
    split at h <;> cases h
  | copied built cur => cases h
  | cleaned built cur => cases h
  | merged built cur =>
    cases h
    exact ⟨built, rfl⟩
  | done => cases h
  | threw => cases h

theorem alone_run {db0 : RouterDb} {calls : Who → Call} (hne : (calls .a).serviceName ≠ (calls .b).serviceName)
    (w : Who) (n : Nat) {t : St}
    (hr : Lib.run (step H calls) ⟨db0, fun _ => .start⟩ (List.replicate n w) = some t) : Alone H db0 calls w t := by
  induction n generalizing t with
  | zero =>
    cases hr
    exact ⟨rfl, fun v => ⟨rfl, rfl⟩, fun _ => rfl, fun h => by cases h⟩
  | succ n ih =>
    rw [List.replicate_succ'] at hr
    obtain ⟨s, hs, hr⟩ := (Lib.run_append_some _).mp hr
    obtain ⟨t', ht, hnil⟩ := (Lib.run_cons_some _).mp hr
    cases hnil
    have hal := ih hs
    obtain ⟨hsec, hother⟩ := step_some H ht
    -- a call that still runs has not published yet
    have hrun : s.pc w ≠ .done := by
      intro hd
      rw [hd] at hsec
      cases hsec
    refine ⟨hother.trans hal.other, fun v => ?_, fun hd => ?_, fun hd => ?_⟩
    · exact tracks_step H hne (hal.tracks v) (fun _ _ => hal.before hrun) ht
    · exact ((takeSection_frame H hsec).2.1 hd).trans (hal.before hrun)
    · rw [hd] at hsec
      obtain ⟨built, hpc⟩ := takeSection_done H hsec
      have htr := (hal.tracks w).pc
      rw [hpc] at htr
      exact ⟨built, htr.1, htr.2⟩

/-- The one that takes the last section publishes over the table of its first section. -/
theorem table_of_last {db0 : RouterDb} {calls : Who → Call} (hne : (calls .a).serviceName ≠ (calls .b).serviceName)
    {w : Who} {s t : St} (hs : Alone H db0 calls w s) {rest : List Who}
    (hr : Lib.run (step H calls) s (w.other :: rest) = some t) (hlast : (w.other :: rest).getLast? = some w.other)
    (hd : t.pc w.other = .done) :
    ∃ built, Builds H db0 (calls w.other) built ∧ t.db.serviceRegistry =
      overlay (db0.partitionKeysOf (calls w.other).serviceName) built s.db.serviceRegistry := by
  obtain ⟨front, hfront⟩ := List.getLast?_eq_some_iff.mp hlast
  rw [hfront] at hr
  obtain ⟨s2, hs2, hr2⟩ := (Lib.run_append_some _).mp hr
  obtain ⟨t', ht, hnil⟩ := (Lib.run_cons_some _).mp hr2
  cases hnil
  have hsec := (step_some H ht).1
  rw [hd] at hsec
  obtain ⟨built, hpc⟩ := takeSection_done H hsec
  cases front with
  | nil =>
    -- its first section is not its last
    cases hs2
    rw [hs.other] at hpc
    cases hpc
  | cons v front =>
    obtain ⟨rfl, -⟩ := List.cons.inj hfront
    obtain ⟨s1, hs1, hs2⟩ := (Lib.run_cons_some _).mp hs2
    have htr1 := tracks_step H hne ((hs.tracks w.other).of_start H hs.other) (fun _ _ => rfl) hs1
    have hstarted : s1.pc w.other ≠ .start := by
      intro h
      have hrank := (takeSection_rank H (step_some H hs1).1).2
      rw [h] at hrank
      simp [Pc.rank] at hrank
    have htr2 := (tracks_run H hne htr1 hstarted hs2).1.pc
    rw [hpc] at htr2
    exact ⟨built, htr2.1, htr2.2⟩

/-! ## No lost update -/

theorem builds_some {db0 : RouterDb} {call : Call} {built : RouterDb.Built} (h : Builds H db0 call built) :
    ∃ ts, (db0.pickServers call.serviceName call.list call.now).mapM RouterDb.withHostLong = some ts ∧
      built = RouterDb.builtOf H call.serviceName ts := by
  unfold Builds at h
  rw [RouterDb.buildServers_eq] at h
  obtain ⟨ts, hts, hb⟩ := Option.map_eq_some_iff.mp h
  exact ⟨ts, hts, hb.symm⟩

theorem apply_of_builds {db0 : RouterDb} {call : Call} {built : RouterDb.Built} (h : Builds H db0 call built) :
    db0.apply H (.updateServers call.serviceName call.list call.now) = db0.publish call.serviceName built := by
  unfold Builds at h
  simp only [RouterDb.apply, RouterDb.updateServers, h]
  rfl

def Call.InPlay (K : Set Route) (call : Call) : Prop :=
  (RouterDb.Ev.updateServers call.serviceName call.list call.now).InPlay K

/-- A call has nothing new to say iff it would leave its service as it is. -/
theorem noNews_iff {K : Set Route} (hK : CollisionFree H K) {db : RouterDb} {call : Call} {built : RouterDb.Built}
    (hin : call.InPlay K) (hb : Builds H db call built) :
    NoNews H K db call ↔ ∀ r ∈ K, r.serviceName = call.serviceName →
      db.selectServers H r = (db.publish call.serviceName built).selectServers H r := by
  obtain ⟨ts, hts, rfl⟩ := builds_some H hb
  have hroutes := RouterDb.routes_inPlay hin hts
  constructor
  · intro h r hr hname
    obtain ⟨hsome, hnone⟩ := h ts hts r hr hname
    rw [RouterDb.select_publish H hK hroutes hr]
    cases hg : RouterDb.given call.serviceName ts r with
    | some l => rw [Option.some_or, hsome l hg]
    | none =>
      rw [Option.none_or]
      split
      · exact hnone hg ‹_›
      · rfl
  · intro h ts' hts' r hr hname
    rw [hts] at hts'
    cases hts'
    have hsel := h r hr hname
    rw [RouterDb.select_publish H hK hroutes hr] at hsel
    refine ⟨fun l hg => ?_, fun hg hkey => ?_⟩
    · rw [hsel, hg, Option.some_or]
    · rw [hsel, hg, Option.none_or, if_pos hkey]

theorem exists_first_turn (w : Who) {sched : List Who} (h : w.other ∈ sched) :
    ∃ n rest, sched = List.replicate n w ++ w.other :: rest := by
  induction sched with
  | nil => cases h
  | cons v sched ih =>
    by_cases hv : v = w.other
    · exact ⟨0, sched, by rw [hv]; rfl⟩
    · have hvw : v = w := by
        rw [Who.eq_other_of_ne hv, Who.other_other]
      obtain ⟨n, rest, hrest⟩ := ih ((List.mem_cons.mp h).resolve_left (Ne.symm hv))
      exact ⟨n + 1, rest, by rw [hvw, hrest, List.replicate_succ, List.cons_append]⟩

/-- With four turns each and the last one known, a schedule is serial iff the call that
    does not come last has all its turns first. -/
theorem serial_iff {w : Who} {n : Nat} {rest : List Who}
    (hw : (List.replicate n w ++ w.other :: rest).count w = 4)
    (ho : (List.replicate n w ++ w.other :: rest).count w.other = 4)
    (hlast : (List.replicate n w ++ w.other :: rest).getLast? = some w.other) :
    n ≤ 4 ∧ (Serial (List.replicate n w ++ w.other :: rest) ↔ n = 4) := by
  have hcw : n + rest.count w = 4 := by simpa [List.count_cons, Who.other_ne w] using hw
  have hco : rest.count w.other = 3 := by
    simpa [List.count_cons, List.count_replicate, Ne.symm (Who.other_ne w)] using ho
  refine ⟨by omega, fun h => ?_, fun h => ?_⟩
  · obtain ⟨v, hv⟩ := h
    by_cases hvw : v = w
    · subst hvw
      by_contra hn
      have hn4 : n < 4 := by omega
      have hat : (List.replicate n v ++ v.other :: rest)[n]? = some v := by
        rw [hv, List.getElem?_append_left (by simpa using hn4), List.getElem?_replicate_of_lt hn4]
      rw [List.getElem?_append_right (by simp)] at hat
      simp [Who.other_ne] at hat
    · rw [hv, Who.eq_other_of_ne hvw] at hlast
      simp [List.replicate, Ne.symm (Who.other_ne w)] at hlast
  · subst h
    have hnot : w ∉ rest := List.count_eq_zero.mp (by omega)
    have hall : ∀ v ∈ rest, v = w.other := fun v hv => Who.eq_other_of_ne fun h => hnot (h ▸ hv)
    have hrest := List.eq_replicate_of_mem hall
    have hlen : rest.length = 3 := by
      rw [hrest, List.count_replicate_self] at hco
      exact hco
    refine ⟨w, ?_⟩
    rw [hrest, hlen]
    rfl

/-- One call after the other: the second one publishes over what the first one published,
    and both services are as their own calls would have left them. -/
theorem kept_of_publish_publish {K : Set Route} (hK : CollisionFree H K) {db0 : RouterDb}
    (hown : RouterDb.Owned H K db0) {call call' : Call} (hne : call.serviceName ≠ call'.serviceName)
    (hin : call.InPlay K) (hin' : call'.InPlay K) {built built' : RouterDb.Built} (hb : Builds H db0 call built)
    (hb' : Builds H db0 call' built') {t : St}
    (ht : t.db.serviceRegistry =
      ((db0.publish call.serviceName built).publish call'.serviceName built').serviceRegistry) :
    Kept H K db0 call t ∧ Kept H K db0 call' t := by
  have hown1 : RouterDb.Owned H K (db0.publish call.serviceName built) := by
    rw [← apply_of_builds H hb]
    exact RouterDb.owned_apply H hown hin
  unfold Kept
  rw [apply_of_builds H hb, apply_of_builds H hb']
  obtain ⟨ts, hts, rfl⟩ := builds_some H hb
  obtain ⟨ts', hts', rfl⟩ := builds_some H hb'
  have hroutes := RouterDb.routes_inPlay hin hts
  have hroutes' := RouterDb.routes_inPlay hin' hts'
  have hsel : ∀ r, t.db.selectServers H r = ((db0.publish call.serviceName (RouterDb.builtOf H call.serviceName ts)).publish
      call'.serviceName (RouterDb.builtOf H call'.serviceName ts')).selectServers H r := by
    intro r
    rw [RouterDb.selectServers, ht, RouterDb.selectServers]
  refine ⟨fun r hr hname => ?_, fun r hr hname => ?_⟩
  · rw [hsel, RouterDb.select_publish_of_ne H hK hown1 hroutes' hr (hname ▸ hne)]
  · rw [hsel, RouterDb.select_publish H hK hroutes' hr, RouterDb.select_publish H hK hroutes' hr,
      RouterDb.select_publish_of_ne H hK hown hroutes hr (hname ▸ hne.symm), RouterDb.partitionKeysOf_publish,
      if_neg hne.symm]

/-- Both copied the same table: what is published last is kept, and the other call only if it
    had nothing new to say. -/
theorem kept_of_publish {K : Set Route} (hK : CollisionFree H K) {db0 : RouterDb}
    (hown : RouterDb.Owned H K db0) {call call' : Call} (hne : call.serviceName ≠ call'.serviceName)
    (hin : call.InPlay K) (hin' : call'.InPlay K) {built built' : RouterDb.Built} (hb : Builds H db0 call built)
    (hb' : Builds H db0 call' built') {t : St}
    (ht : t.db.serviceRegistry = (db0.publish call'.serviceName built').serviceRegistry) :
    Kept H K db0 call' t ∧ (Kept H K db0 call t ↔ NoNews H K db0 call) := by
  have hsel : ∀ r, t.db.selectServers H r = (db0.publish call'.serviceName built').selectServers H r := by
    intro r
    rw [RouterDb.selectServers, ht, RouterDb.selectServers]
  constructor
  · intro r _ _
    rw [hsel, apply_of_builds H hb']
  · rw [noNews_iff H hK hin hb, Kept, apply_of_builds H hb]
    obtain ⟨ts', hts', rfl⟩ := builds_some H hb'
    have hroutes' := RouterDb.routes_inPlay hin' hts'
    refine forall₃_congr fun r hr hname => ?_
    rw [hsel, RouterDb.select_publish_of_ne H hK hown hroutes' hr (hname ▸ hne)]

theorem noLoss_iff_kept {K : Set Route} {db0 : RouterDb} {calls : Who → Call} {t : St} (w : Who) :
    NoLoss H K db0 calls t ↔ Kept H K db0 (calls w) t ∧ Kept H K db0 (calls w.other) t := by
  refine ⟨fun h => ⟨h w, h w.other⟩, fun h v => ?_⟩
  by_cases hv : v = w
  · exact hv ▸ h.1
  · exact Who.eq_other_of_ne hv ▸ h.2

/-- When both calls have returned, no update is lost iff they ran one after the other or the
    first to publish had nothing new to say. -/
theorem noLoss_iff {K : Set Route} (hK : CollisionFree H K) (evs : List RouterDb.Ev) (hevs : ∀ e ∈ evs, e.InPlay K)
    (calls : Who → Call) (hne : (calls .a).serviceName ≠ (calls .b).serviceName) (hcalls : ∀ w, (calls w).InPlay K)
    {sched : List Who} {t : St}
    (hr : Lib.run (step H calls) ⟨RouterDb.run H {} evs, fun _ => .start⟩ sched = some t) (hret : Returned t) :
    NoLoss H K (RouterDb.run H {} evs) calls t ↔
      Serial sched ∨ ∃ w : Who, sched.getLast? = some w.other ∧ NoNews H K (RouterDb.run H {} evs) (calls w) := by
  have hown : RouterDb.Owned H K (RouterDb.run H {} evs) := RouterDb.owned_run H hevs (RouterDb.owned_empty H K)
  generalize RouterDb.run H {} evs = db0 at hr hown ⊢
  have hcount : ∀ w, sched.count w = 4 := by
    intro w
    rw [← rank_run H hr w, hret w]
    rfl
  have hnames : ∀ w : Who, (calls w).serviceName ≠ (calls w.other).serviceName := by
    intro w
    cases w
    · exact hne
    · exact hne.symm
  -- the call that comes last is `w.other`, so `w` publishes first
  obtain ⟨w, hlast⟩ : ∃ w : Who, sched.getLast? = some w.other := by
    cases hl : sched.getLast? with
    | none =>
      have := hcount .a
      rw [List.getLast?_eq_none_iff.mp hl] at this
      cases this
    | some v => exact ⟨v.other, by rw [Who.other_other]⟩
  obtain ⟨built, hb⟩ : ∃ built, Builds H db0 (calls w) built := by
    obtain ⟨table, htr⟩ := exists_tracks_run H hne w hr
    have hpc := htr.pc
    rw [hret w] at hpc
    exact hpc
  obtain ⟨n, rest, rfl⟩ := exists_first_turn w (List.mem_of_getLast? hlast)
  obtain ⟨hn, hserial⟩ := serial_iff (hcount w) (hcount w.other) hlast
  obtain ⟨s, hs, hrest⟩ := (Lib.run_append_some _).mp hr
  have hal := alone_run H hne w n hs
  have hlast' : (w.other :: rest).getLast? = some w.other := by
    rwa [List.getLast?_append_of_ne_nil _ (List.cons_ne_nil _ _)] at hlast
  obtain ⟨built', hb', htable⟩ := table_of_last H hne hal hrest hlast' (hret w.other)
  have hrank : (s.pc w).rank = n := by
    rw [rank_run H hs w, List.count_replicate_self]
  rw [noLoss_iff_kept H w, hserial]
  by_cases hn4 : n = 4
  · have hd : s.pc w = .done := Pc.eq_done_of_rank (hrank.trans hn4)
    obtain ⟨built1, hb1, hs1⟩ := hal.after hd
    refine iff_of_true ?_ (Or.inl hn4)
    refine kept_of_publish_publish H hK hown (hnames w) (hcalls w) (hcalls w.other) hb1 hb' ?_
    rw [htable, hs1, publish_serviceRegistry, RouterDb.partitionKeysOf_publish, if_neg (hnames w).symm,
      publish_serviceRegistry]
  · -- both copied the same table, so the last publication does not know the first
    have hrun : s.pc w ≠ .done := by
      intro hd
      rw [hd] at hrank
      exact hn4 hrank.symm
    rw [hal.before hrun, ← publish_serviceRegistry] at htable
    obtain ⟨hkept', hkept⟩ :=
      kept_of_publish H hK hown (hnames w) (hcalls w) (hcalls w.other) hb hb' htable
    constructor
    · intro h
      exact Or.inr ⟨w, hlast, hkept.mp h.1⟩
    · intro h
      rcases h with h | ⟨v, hv, hnews⟩
      · exact absurd h hn4
      · rw [hlast] at hv
        have hvw : v = w := by
          rw [← Who.other_other v, ← Option.some.inj hv, Who.other_other]
        exact ⟨hkept.mpr (hvw ▸ hnews), hkept'⟩

/-! ## Two services -/

def twoCalls : Who → Call
  | .a => ⟨"predictor", [availableServer "predictor" "10.0.0.1"], 0⟩
  | .b => ⟨"model_service", [availableServer "model_service" "10.0.0.2"], 0⟩

def twoServices : Set Route :=
  {r | r ∈ RouterDb.shardRoutes "predictor" (availableServer "predictor" "10.0.0.1") ++
    RouterDb.shardRoutes "model_service" (availableServer "model_service" "10.0.0.2")}

theorem twoServices_collisionFree : CollisionFree cityHash64WithSeed twoServices :=
  RouterDb.collisionFree_list cityHash64WithSeed (by decide +kernel)

theorem twoCalls_inPlay (w : Who) : (twoCalls w).InPlay twoServices := by
  intro t ht
  cases w <;> rw [twoCalls, List.mem_singleton] at ht <;> subst ht
  · exact ⟨fun r hr => List.mem_append_left _ hr, fun r hr => by cases hr⟩
  · exact ⟨fun r hr => List.mem_append_right _ hr, fun r hr => by cases hr⟩

/-- A run over a schedule with four turns each that ends with both calls returned. -/
theorem returned_of_ranks (calls : Who → Call) (db0 : RouterDb) (sched : List Who)
    (h : ∀ w, (Lib.run (step H calls) ⟨db0, fun _ => .start⟩ sched).map (fun t => (t.pc w).rank) = some 4) :
    ∃ t, Lib.run (step H calls) ⟨db0, fun _ => .start⟩ sched = some t ∧ Returned t := by
  obtain ⟨t, ht, -⟩ := Option.map_eq_some_iff.mp (h .a)
  refine ⟨t, ht, fun w => Pc.eq_done_of_rank ?_⟩
  have := h w
  rw [ht] at this
  exact Option.some.inj this

/-- One after the other, nothing is lost. -/
theorem noLoss_iff_serial :
    ∃ t, Lib.run (step cityHash64WithSeed twoCalls) ⟨RouterDb.run cityHash64WithSeed {} [], fun _ => .start⟩
        [.a, .a, .a, .a, .b, .b, .b, .b] = some t ∧
      NoLoss cityHash64WithSeed twoServices (RouterDb.run cityHash64WithSeed {} []) twoCalls t := by
  obtain ⟨t, ht, hret⟩ := returned_of_ranks cityHash64WithSeed twoCalls (RouterDb.run cityHash64WithSeed {} [])
    [.a, .a, .a, .a, .b, .b, .b, .b] (by intro w; cases w <;> decide +kernel)
  refine ⟨t, ht, ?_⟩
  exact (noLoss_iff cityHash64WithSeed twoServices_collisionFree [] (by simp) twoCalls (by decide) twoCalls_inPlay ht
    hret).mpr (Or.inl ⟨.a, rfl⟩)

/-- Both calls copy the empty table; "predictor" is published and then forgotten when
    "model_service" publishes its own copy. -/
theorem discover_update_lost :
    CollisionFree cityHash64WithSeed twoServices ∧ (∀ w, (twoCalls w).InPlay twoServices) ∧
    ∃ t, Lib.run (step cityHash64WithSeed twoCalls) ⟨{}, fun _ => .start⟩ [.a, .b, .a, .a, .a, .b, .b, .b] = some t ∧
      Returned t ∧ ¬ NoLoss cityHash64WithSeed twoServices {} twoCalls t := by
  refine ⟨twoServices_collisionFree, twoCalls_inPlay, ?_⟩
  obtain ⟨t, ht, hret⟩ := returned_of_ranks cityHash64WithSeed twoCalls {} [.a, .b, .a, .a, .a, .b, .b, .b]
    (by intro w; cases w <;> decide +kernel)
  refine ⟨t, ht, hret, fun h => ?_⟩
  have hr : RouterDb.lookupRoute "predictor" .thrift ROUTER_DEFAULT_SHARD_ID .leader "default" ∈ twoServices := by
    show _ ∈ RouterDb.shardRoutes "predictor" (availableServer "predictor" "10.0.0.1") ++
      RouterDb.shardRoutes "model_service" (availableServer "model_service" "10.0.0.2")
    decide
  have hlost : (Lib.run (step cityHash64WithSeed twoCalls) ⟨{}, fun _ => .start⟩ [.a, .b, .a, .a, .a, .b, .b, .b]).map
      (fun t => (t.db.selectServers cityHash64WithSeed
        (RouterDb.lookupRoute "predictor" .thrift ROUTER_DEFAULT_SHARD_ID .leader "default")).isSome) = some false := by
    decide +kernel
  rw [ht, Option.map_some, h .a _ hr rfl] at hlost
  exact absurd (Option.some.inj hlost) (by decide +kernel)

end UpdateRace

end PredictorService.ServiceRouter
