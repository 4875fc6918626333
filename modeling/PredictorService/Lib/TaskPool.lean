/-
  PredictorService.Lib.TaskPool — tasks that work on one shared store.

  A task is the list of atomic actions that a thread has left. Executing its first action
  changes the store, puts actions in front of what is left of the task, and spawns new
  tasks (`Effect`). `work` lets one task take one step, so a run over any choice of tasks
  is any interleaving. `work_some` says once what a step can do.

  The rules:
  - reconciliation (`Declares`, `Converging`): each action declares which keys of the
    store it may still add and which it may still drop. When everything pending adds only
    wanted keys and drops only unwanted ones, an idle pool holds no unwanted key, and no
    wanted key is lost on the way. `Complete` is the other inclusion.
  - progress (`reaches_idle`): when some step of every busy pool takes weight away, the
    pool can always become idle.
  - appending (`append`): tasks that only append to one vector. Whatever the interleaving,
    an idle pool holds what every action appends, in some order (`idle_append`).
-/

import Mathlib.Algebra.BigOperators.Group.List.Basic
import Mathlib.Algebra.Ring.Nat
import PredictorService.Lib.Runs

namespace PredictorService.Lib.TaskPool

structure Effect (M A : Type*) where
  store : M
  /-- What the task does next, before the rest of it. -/
  next : List A := []
  spawned : List (List A) := []

structure Pool (M A : Type*) where
  store : M
  tasks : List (List A)

variable {M A X K : Type*}

/-- The actions an effect brings into the pool. -/
def Effect.fresh (e : Effect M A) : List A := e.next ++ e.spawned.flatten

def Pool.pending (p : Pool M A) : List A := p.tasks.flatten

/-- Every task has finished. -/
def Pool.Idle (p : Pool M A) : Prop := ∀ task ∈ p.tasks, task = []

instance (p : Pool M A) : Decidable p.Idle :=
  decidable_of_iff (∀ task ∈ p.tasks, task.isEmpty) (by simp [Pool.Idle])

theorem Pool.Idle.pending {p : Pool M A} (h : p.Idle) : p.pending = [] := List.flatten_eq_nil_iff.mpr h

theorem Pool.Idle.not_mem {p : Pool M A} (h : p.Idle) (a : A) : a ∉ p.pending := by simp [h.pending]

theorem Pool.mem_pending {p : Pool M A} {a : A} : a ∈ p.pending ↔ ∃ task ∈ p.tasks, a ∈ task := List.mem_flatten

variable (exec : X → M → A → Effect M A)

/-- The action that task `i` executes next. -/
def Pool.next? (p : Pool M A) (i : Nat) : Option A := p.tasks[i]?.bind (·.head?)

/-- Task `i` executes its first action, `x` being what the world answers to it. -/
def work (p : Pool M A) (i : Nat) (x : X) : Option (Pool M A) :=
  match p.tasks[i]? with
  | some (a :: rest) =>
    let e := exec x p.store a
    some ⟨e.store, p.tasks.set i (e.next ++ rest) ++ e.spawned⟩
  | _ => none

theorem work_some {p q : Pool M A} {i : Nat} {x : X} (h : work exec p i x = some q) :
    ∃ (before after : List (List A)) (a : A) (rest : List A),
      p.next? i = some a ∧ p.tasks = before ++ (a :: rest) :: after ∧
      q = ⟨(exec x p.store a).store,
        before ++ ((exec x p.store a).next ++ rest) :: after ++ (exec x p.store a).spawned⟩ := by
  unfold work at h
  split at h
  · rename_i a rest hi
    obtain ⟨hlt, hget⟩ := List.getElem?_eq_some_iff.mp hi
    refine ⟨p.tasks.take i, p.tasks.drop (i + 1), a, rest, by simp [Pool.next?, hi], ?_, ?_⟩
    · rw [← hget, List.getElem_cons_drop, List.take_append_drop]
    · rw [← Option.some.inj h, List.set_eq_take_append_cons_drop, if_pos hlt]
  · cases h

/-- The first task with something to do can take a step. -/
theorem work_of_tasks {p : Pool M A} {before after : List (List A)} {a : A} {rest : List A}
    (h : p.tasks = before ++ (a :: rest) :: after) (x : X) :
    work exec p before.length x = some ⟨(exec x p.store a).store,
      before ++ ((exec x p.store a).next ++ rest) :: after ++ (exec x p.store a).spawned⟩ := by
  have hget : p.tasks[before.length]? = some (a :: rest) := by simp [h]
  simp only [work, hget]
  rw [h, List.set_append_right _ _ (Nat.le_refl _), Nat.sub_self, List.set_cons_zero]

/-- What a step does to the store and to the pending actions. -/
theorem work_pending {p q : Pool M A} {i : Nat} {x : X} (h : work exec p i x = some q) :
    ∃ (before : List A) (a : A) (after : List A), p.next? i = some a ∧ p.pending = before ++ a :: after ∧
      q.store = (exec x p.store a).store ∧ q.pending.Perm (before ++ after ++ (exec x p.store a).fresh) := by
  obtain ⟨before, after, a, rest, hnext, hp, rfl⟩ := work_some exec h
  refine ⟨before.flatten, a, rest ++ after.flatten, hnext, ?_, rfl, ?_⟩
  · simp [Pool.pending, hp]
  · have hq : (before ++ ((exec x p.store a).next ++ rest) :: after ++ (exec x p.store a).spawned).flatten =
        before.flatten ++ (((exec x p.store a).next ++ (rest ++ after.flatten)) ++
          (exec x p.store a).spawned.flatten) := by
      simp
    have hperm := List.Perm.append_right (exec x p.store a).spawned.flatten
      (@List.perm_append_comm _ (exec x p.store a).next (rest ++ after.flatten))
    rw [Pool.pending, hq, Effect.fresh, List.append_assoc before.flatten, ← List.append_assoc (rest ++ after.flatten)]
    exact hperm.append_left _

theorem work_next {p q : Pool M A} {i : Nat} {x : X} (h : work exec p i x = some q) :
    ∃ a, p.next? i = some a ∧ a ∈ p.pending ∧ q.store = (exec x p.store a).store ∧
      (∀ b ∈ q.pending, b ∈ p.pending ∨ b ∈ (exec x p.store a).fresh) ∧
      (∀ b ∈ p.pending, b = a ∨ b ∈ q.pending) ∧ ∀ b ∈ (exec x p.store a).fresh, b ∈ q.pending := by
  obtain ⟨before, a, after, hnext, hp, hs, hq⟩ := work_pending exec h
  have hmem : ∀ b, b ∈ q.pending ↔ b ∈ before ++ after ++ (exec x p.store a).fresh := fun b => hq.mem_iff
  refine ⟨a, hnext, by simp [hp], hs, ?_, ?_, ?_⟩
  · intro b hb
    rw [hmem] at hb
    simp only [List.mem_append] at hb
    rcases hb with (hb | hb) | hb
    · exact .inl (by simp [hp, hb])
    · exact .inl (by simp [hp, hb])
    · exact .inr hb
  · intro b hb
    rw [hp] at hb
    rw [hmem]
    simp only [List.mem_append, List.mem_cons] at hb ⊢
    rcases hb with hb | hb | hb
    · exact .inr (.inl (.inl hb))
    · exact .inl hb
    · exact .inr (.inl (.inr hb))
  · intro b hb
    rw [hmem]
    exact List.mem_append_right _ hb

theorem mem_pending_of_work {p q : Pool M A} {i : Nat} {x : X} (h : work exec p i x = some q) :
    ∃ a ∈ p.pending, q.store = (exec x p.store a).store ∧
      (∀ b ∈ q.pending, b ∈ p.pending ∨ b ∈ (exec x p.store a).fresh) ∧
      (∀ b ∈ p.pending, b = a ∨ b ∈ q.pending) ∧ ∀ b ∈ (exec x p.store a).fresh, b ∈ q.pending := by
  obtain ⟨a, -, h⟩ := work_next exec h
  exact ⟨a, h⟩

theorem mem_or_split {next rest before after : List A} {b : A} (h : next ++ rest = before ++ b :: after) :
    b ∈ next ∨ ∃ mid, before = next ++ mid ∧ rest = mid ++ b :: after := by
  rcases List.append_eq_append_iff.mp h with ⟨mid, hb, hr⟩ | ⟨mid, hn, hm⟩
  · exact .inr ⟨mid, hb, hr⟩
  · cases mid with
    | nil => exact .inr ⟨[], by simpa using hn.symm, by simpa using hm.symm⟩
    | cons c mid =>
      obtain ⟨rfl, -⟩ := List.cons.inj hm
      exact .inl (by simp [hn])

/-- Where an action stands after the step: where it stood, in what the effect brought, or
    behind that in the task that took the step. -/
theorem work_position {p q : Pool M A} {i : Nat} {x : X} (h : work exec p i x = some q) :
    ∃ (a : A) (rest : List A), (a :: rest) ∈ p.tasks ∧ q.store = (exec x p.store a).store ∧
      (∀ b ∈ (exec x p.store a).fresh, b ∈ q.pending) ∧
      ∀ task ∈ q.tasks, ∀ before b after, task = before ++ b :: after →
        task ∈ p.tasks ∨ b ∈ (exec x p.store a).fresh ∨
          ∃ mid, before = (exec x p.store a).next ++ mid ∧ a :: rest = (a :: mid) ++ b :: after := by
  obtain ⟨tasks₁, tasks₂, a, rest, -, hp, rfl⟩ := work_some exec h
  refine ⟨a, rest, by simp [hp], rfl, ?_, ?_⟩
  · intro b hb
    simp only [Effect.fresh, Pool.pending, List.flatten_append, List.flatten_cons, List.mem_append] at hb ⊢
    rcases hb with hb | hb
    · exact .inl (.inr (.inl (.inl hb)))
    · exact .inr hb
  · intro task htask before b after heq
    simp only [List.mem_append, List.mem_cons] at htask
    rcases htask with (htask | rfl | htask) | htask
    · exact .inl (by simp [hp, htask])
    · rcases mem_or_split heq with hb | ⟨mid, hbefore, hrest⟩
      · exact .inr (.inl (List.mem_append_left _ hb))
      · exact .inr (.inr ⟨mid, hbefore, by rw [hrest]; rfl⟩)
    · exact .inl (by simp [hp, htask])
    · refine .inr (.inl (List.mem_append_right _ ?_))
      exact List.mem_flatten.mpr ⟨task, htask, by simp [heq]⟩

/-! ## Reconciliation -/

section Reconciliation

variable (keys : M → K → Prop) (adds drops : A → List K)

/-- The actions keep to what they declare. -/
structure Declares : Prop where
  adds_fresh : ∀ x m a, ∀ b ∈ (exec x m a).fresh, ∀ k ∈ adds b, k ∈ adds a
  drops_fresh : ∀ x m a, ∀ b ∈ (exec x m a).fresh, ∀ k ∈ drops b, k ∈ drops a
  grows : ∀ x m a k, keys (exec x m a).store k → keys m k ∨ k ∈ adds a
  keeps : ∀ x m a k, keys m k → keys (exec x m a).store k ∨ k ∈ drops a
  /-- A key to drop is gone, or is still to be dropped. -/
  dropped : ∀ x m a, ∀ k ∈ drops a, keys (exec x m a).store k → ∃ b ∈ (exec x m a).fresh, k ∈ drops b

structure Converging (want : K → Prop) (p : Pool M A) : Prop where
  adds_wanted : ∀ a ∈ p.pending, ∀ k ∈ adds a, want k
  drops_unwanted : ∀ a ∈ p.pending, ∀ k ∈ drops a, ¬ want k
  rest_dropped : ∀ k, keys p.store k → want k ∨ ∃ a ∈ p.pending, k ∈ drops a

variable {exec keys adds drops} {want : K → Prop} {p q : Pool M A} {i : Nat} {x : X}

/-- A new task among pending work: it drops what is there and unwanted. -/
theorem Converging.spawn {task : List A} (hadds : ∀ a, a ∈ p.pending ∨ a ∈ task → ∀ k ∈ adds a, want k)
    (hdrops : ∀ a, a ∈ p.pending ∨ a ∈ task → ∀ k ∈ drops a, ¬ want k)
    (hrest : ∀ k, keys p.store k → want k ∨ ∃ a ∈ task, k ∈ drops a) :
    Converging keys adds drops want { p with tasks := p.tasks ++ [task] } := by
  have hmem : ∀ a, a ∈ Pool.pending { p with tasks := p.tasks ++ [task] } ↔ a ∈ p.pending ∨ a ∈ task := by
    simp [Pool.pending]
  refine ⟨fun a ha => hadds a ((hmem a).mp ha), fun a ha => hdrops a ((hmem a).mp ha), ?_⟩
  intro k hk
  rcases hrest k hk with hw | ⟨a, ha, hka⟩
  · exact .inl hw
  · exact .inr ⟨a, (hmem a).mpr (.inr ha), hka⟩

theorem Converging.work (hd : Declares exec keys adds drops) (hc : Converging keys adds drops want p)
    (h : work exec p i x = some q) : Converging keys adds drops want q := by
  obtain ⟨a, ha, hs, hold, hkeep, hnew⟩ := mem_pending_of_work exec h
  refine ⟨?_, ?_, ?_⟩
  · intro b hb k hk
    rcases hold b hb with hb | hb
    · exact hc.adds_wanted b hb k hk
    · exact hc.adds_wanted a ha k (hd.adds_fresh x p.store a b hb k hk)
  · intro b hb k hk
    rcases hold b hb with hb | hb
    · exact hc.drops_unwanted b hb k hk
    · exact hc.drops_unwanted a ha k (hd.drops_fresh x p.store a b hb k hk)
  · intro k hk
    rw [hs] at hk
    rcases hd.grows x p.store a k hk with hkp | hka
    · rcases hc.rest_dropped k hkp with hw | ⟨b, hb, hkb⟩
      · exact .inl hw
      · rcases hkeep b hb with rfl | hbq
        · obtain ⟨c, hcf, hkc⟩ := hd.dropped x p.store b k hkb hk
          exact .inr ⟨c, hnew c hcf, hkc⟩
        · exact .inr ⟨b, hbq, hkb⟩
    · exact .inl (hc.adds_wanted a ha k hka)

/-- No wanted key is lost. -/
theorem Converging.keeps (hd : Declares exec keys adds drops) (hc : Converging keys adds drops want p)
    (h : TaskPool.work exec p i x = some q) {k : K} (hw : want k) (hk : keys p.store k) : keys q.store k := by
  obtain ⟨a, ha, hs, -⟩ := mem_pending_of_work exec h
  rw [hs]
  rcases hd.keeps x p.store a k hk with hk | hk
  · exact hk
  · exact absurd hw (hc.drops_unwanted a ha k hk)

theorem Converging.idle (hc : Converging keys adds drops want p) (hi : p.Idle) {k : K} (hk : keys p.store k) :
    want k := by
  rcases hc.rest_dropped k hk with hw | ⟨a, ha, -⟩
  · exact hw
  · exact absurd ha (hi.not_mem a)

/-- Every wanted key is there or still to be added. -/
def Complete (keys : M → K → Prop) (adds : A → List K) (want : K → Prop) (p : Pool M A) : Prop :=
  ∀ k, want k → keys p.store k ∨ ∃ a ∈ p.pending, k ∈ adds a

theorem Complete.work (hd : Declares exec keys adds drops)
    (hadd : ∀ x m a, ∀ k ∈ adds a, keys (exec x m a).store k ∨ ∃ b ∈ (exec x m a).fresh, k ∈ adds b)
    (hv : Converging keys adds drops want p) (hc : Complete keys adds want p)
    (h : TaskPool.work exec p i x = some q) : Complete keys adds want q := by
  intro k hw
  rcases hc k hw with hk | ⟨b, hb, hk⟩
  · exact .inl (hv.keeps hd h hw hk)
  · obtain ⟨a, -, hs, -, hkeep, hnew⟩ := mem_pending_of_work exec h
    rcases hkeep b hb with rfl | hbq
    · rw [hs]
      rcases hadd x p.store b k hk with hk | ⟨c, hc, hk⟩
      · exact .inl hk
      · exact .inr ⟨c, hnew c hc, hk⟩
    · exact .inr ⟨b, hbq, hk⟩

theorem Complete.idle (hc : Complete keys adds want p) (hi : p.Idle) {k : K} (hw : want k) : keys p.store k := by
  rcases hc k hw with hk | ⟨a, ha, -⟩
  · exact hk
  · exact absurd ha (hi.not_mem a)

end Reconciliation

/-! ## Progress -/

section Progress

variable (cost : A → Nat)

def Pool.weight (p : Pool M A) : Nat := (p.pending.map cost).sum

theorem weight_work {before after : List (List A)} {a : A} {rest : List A} {p : Pool M A} {e : Effect M A}
    (hp : p.tasks = before ++ (a :: rest) :: after) (he : (e.fresh.map cost).sum < cost a) :
    (Pool.mk e.store (before ++ (e.next ++ rest) :: after ++ e.spawned)).weight cost < p.weight cost := by
  simp only [Pool.weight, Pool.pending, hp, Effect.fresh, List.flatten_append, List.flatten_cons, List.map_append,
    List.map_cons, List.sum_append, List.sum_cons, List.cons_append] at he ⊢
  omega

/-- A pool some step of which always takes weight away can always become idle. -/
theorem reaches_idle (Inv : Pool M A → Prop)
    (hprog : ∀ p, Inv p → ¬ p.Idle → ∃ i x q, work exec p i x = some q ∧ Inv q ∧ q.weight cost < p.weight cost)
    {p : Pool M A} (hp : Inv p) :
    ∃ (ws : List (Nat × X)) (q : Pool M A),
      run (fun p (w : Nat × X) => work exec p w.1 w.2) p ws = some q ∧ q.Idle := by
  by_cases hi : p.Idle
  · exact ⟨[], p, rfl, hi⟩
  · obtain ⟨i, x, q, hq, hinv, hlt⟩ := hprog p hp hi
    obtain ⟨ws, r, hr, hri⟩ := reaches_idle Inv hprog hinv
    exact ⟨(i, x) :: ws, r, (run_cons_some _).mpr ⟨q, hq, hr⟩, hri⟩
termination_by p.weight cost

end Progress

/-! ## Appending -/

section Appending

variable {P : Type*} (out : A → List P)

/-- An action that appends `out a` to the vector that the tasks share. -/
def append (_ : Unit) (m : List P) (a : A) : Effect (List P) A := { store := m ++ out a }

/-- One step of such a pool, task `i`'s. -/
def appendStep (p : Pool (List P) A) (i : Nat) : Option (Pool (List P) A) := work (append out) p i ()

/-- What is in the vector, and what is still to come. -/
def Pool.appended (p : Pool (List P) A) : List P := p.store ++ p.pending.flatMap out

theorem appended_step {p q : Pool (List P) A} {i : Nat} (h : appendStep out p i = some q) :
    (q.appended out).Perm (p.appended out) := by
  obtain ⟨before, a, after, -, hp, hs, hq⟩ := work_pending (append out) h
  have hfresh : (append out () p.store a).fresh = [] := rfl
  rw [hfresh, List.append_nil] at hq
  have hnow : (out a ++ (before ++ after).flatMap out).Perm (p.pending.flatMap out) := by
    rw [hp, List.flatMap_append, List.flatMap_append, List.flatMap_cons]
    exact List.perm_append_comm_assoc _ _ _
  rw [Pool.appended, Pool.appended, hs]
  show ((p.store ++ out a) ++ q.pending.flatMap out).Perm _
  rw [List.append_assoc]
  exact (((hq.flatMap_right out).append_left (out a)).trans hnow).append_left p.store

theorem appended_run {p q : Pool (List P) A} {is : List Nat} (h : run (appendStep out) p is = some q) :
    (q.appended out).Perm (p.appended out) :=
  run_invariant (appendStep out) (fun r => (r.appended out).Perm (p.appended out))
    (fun _ _ _ hs ht => (appended_step out ht).trans hs) (List.Perm.refl _) h

theorem idle_append {p q : Pool (List P) A} {is : List Nat} (h : run (appendStep out) p is = some q) (hq : q.Idle) :
    q.store.Perm (p.appended out) := by
  have hperm := appended_run out h
  rwa [Pool.appended, hq.pending, List.flatMap_nil, List.append_nil] at hperm

theorem append_reaches_idle (p : Pool (List P) A) :
    ∃ (is : List Nat) (q : Pool (List P) A), run (appendStep out) p is = some q ∧ q.Idle := by
  have hprog : ∀ p : Pool (List P) A, True → ¬ p.Idle → ∃ i x q, work (append out) p i x = some q ∧ True ∧
      q.weight (fun _ => 1) < p.weight (fun _ => 1) := by
    intro p _ hbusy
    simp only [Pool.Idle, not_forall] at hbusy
    obtain ⟨task, htask, hne⟩ := hbusy
    obtain ⟨before, after, hp⟩ := List.append_of_mem htask
    obtain ⟨a, rest, rfl⟩ := List.exists_cons_of_ne_nil hne
    exact ⟨before.length, (), _, work_of_tasks (append out) hp (), trivial, weight_work (fun _ => 1) hp Nat.one_pos⟩
  obtain ⟨ws, q, hrun, hq⟩ := reaches_idle (append out) (fun _ => 1) (fun _ => True) hprog (p := p) trivial
  refine ⟨ws.map (·.1), q, ?_, hq⟩
  rw [run, List.foldlM_map]
  exact hrun

end Appending

end PredictorService.Lib.TaskPool
