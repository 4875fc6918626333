/-
  PredictorService.Lib.Outbox — writes to a store that may fail and are sent again.

  A write `r` gives the store the value `value r` under `key r`. It waits until the store
  applies it or refuses it; a refused write is kept in a slot (`slot r`) until it is sent
  again. `last k` is the write issued last for `k`.

  Nothing orders the writes by itself. The discipline under which they do not overtake each
  other is `Disciplined`: a write is issued only when none with its slot or key is kept as
  refused, those of one key are applied in the order they were sent, and one is refused
  only when no other with its slot or key waits. `Inv` is kept by every disciplined act, and
  when nothing waits or is kept, the store holds the value of the last write of every key
  (`Inv.settled`).
-/

import Mathlib.Data.List.Basic
import Mathlib.Logic.Function.Basic

namespace PredictorService.Lib.Outbox

variable {R K M V : Type*}

structure Box (R K M V : Type*) where
  waiting : List R
  failed : M → List R
  store : K → Option V
  last : K → Option R

inductive Act (R : Type*) where
  | send (r : R)
  | apply (r : R)
  | fail (r : R)
  | resend (r : R)

variable [DecidableEq K] (key : R → K) (slot : R → M) (value : R → Option V)

/-- The writes that wait for a key, oldest first. -/
def waitingFor (b : Box R K M V) (k : K) : List R := b.waiting.filter fun r => key r = k

structure Inv (b : Box R K M V) : Prop where
  /-- A slot keeps one write. -/
  one : ∀ m, (b.failed m).length ≤ 1
  /-- While a write is kept, no other with its slot or key waits. -/
  clear : ∀ m, ∀ f ∈ b.failed m, slot f = m ∧ ∀ r ∈ b.waiting, slot r ≠ m ∧ key r ≠ key f
  keys : ∀ m, ∀ f ∈ b.failed m, ∀ m', ∀ f' ∈ b.failed m', key f = key f' → m = m'
  /-- What a key will hold: the value of the last write that waits for it, else of the one
      kept for it, else what the store holds. -/
  waits : ∀ k r, b.last k = some r → ∀ r', (waitingFor key b k).getLast? = some r' → value r' = value r
  kept : ∀ k r, b.last k = some r → waitingFor key b k = [] → ∀ m, ∀ f ∈ b.failed m, key f = k → value f = value r
  held : ∀ k r, b.last k = some r → waitingFor key b k = [] → (∀ m, ∀ f ∈ b.failed m, key f ≠ k) →
    b.store k = value r

theorem Inv.settled {b : Box R K M V} (h : Inv key slot value b) (hw : b.waiting = []) (hf : ∀ m, b.failed m = [])
    {k : K} {r : R} (hl : b.last k = some r) : b.store k = value r := by
  refine h.held k r hl ?_ fun m f hm => ?_
  · rw [waitingFor, hw]
    rfl
  · rw [hf m] at hm
    cases hm

theorem mem_waitingFor {b : Box R K M V} {r : R} {k : K} : r ∈ waitingFor key b k ↔ r ∈ b.waiting ∧ key r = k := by
  simp [waitingFor]

theorem filter_append_key (l : List R) (r : R) (k : K) :
    (l ++ [r]).filter (fun r => key r = k) = l.filter (fun r => key r = k) ++ if key r = k then [r] else [] := by
  rw [List.filter_append]
  by_cases hk : key r = k <;> simp [hk]

theorem eq_singleton_of_mem {l : List R} {r : R} (hr : r ∈ l) (hl : l.length ≤ 1) : l = [r] := by
  obtain ⟨x, hx⟩ := List.length_eq_one_iff.mp (Nat.le_antisymm hl (List.length_pos_of_mem hr))
  rw [hx, List.mem_singleton] at hr
  rw [hx, hr]

/-! ## Acts -/

variable [DecidableEq R]

theorem filter_erase_key (l : List R) (r : R) (k : K) :
    (l.erase r).filter (fun r => key r = k) =
      if key r = k then (l.filter fun r => key r = k).erase r else l.filter fun r => key r = k := by
  rw [← List.erase_filter]
  by_cases hk : key r = k
  · rw [if_pos hk]
  · have hnot : r ∉ l.filter fun r => key r = k := by
      intro h
      exact hk (by simpa using (List.mem_filter.mp h).2)
    rw [if_neg hk, List.erase_of_not_mem hnot]

/-- A write that no longer waits is missing for its own key only. -/
theorem waitingFor_erase_of_ne {b b' : Box R K M V} {r : R} (hb : b'.waiting = b.waiting.erase r) {k : K}
    (hk : key r ≠ k) : waitingFor key b' k = waitingFor key b k := by
  rw [waitingFor, hb]
  exact (filter_erase_key key b.waiting r k).trans (if_neg hk)

variable [DecidableEq M]

def act (b : Box R K M V) : Act R → Box R K M V
  | .send r => { b with waiting := b.waiting ++ [r], last := Function.update b.last (key r) (some r) }
  | .apply r => { b with waiting := b.waiting.erase r, store := Function.update b.store (key r) (value r) }
  | .fail r =>
    { b with waiting := b.waiting.erase r, failed := Function.update b.failed (slot r) (r :: b.failed (slot r)) }
  | .resend r =>
    { b with waiting := b.waiting ++ [r],
             failed := Function.update b.failed (slot r) ((b.failed (slot r)).erase r) }

def Disciplined (b : Box R K M V) : Act R → Prop
  | .send r => b.failed (slot r) = [] ∧ ∀ m, ∀ f ∈ b.failed m, key f ≠ key r
  | .apply r => (waitingFor key b (key r)).head? = some r
  | .fail r => r ∈ b.waiting ∧ ∀ r' ∈ b.waiting.erase r, slot r' ≠ slot r ∧ key r' ≠ key r
  | .resend r => r ∈ b.failed (slot r)

variable {key slot value}

/-- A refused write is kept beside what was kept before. -/
theorem mem_failed_fail {b : Box R K M V} {r : R} (hempty : b.failed (slot r) = []) {m : M} {f : R} :
    f ∈ (act key slot value b (.fail r)).failed m ↔ (m = slot r ∧ f = r) ∨ f ∈ b.failed m := by
  by_cases hm : m = slot r
  · subst hm
    simp [act, hempty]
  · simp [act, hm]

/-- A write that is sent again is no longer kept. -/
theorem mem_failed_resend {b : Box R K M V} {r : R} (hsingle : b.failed (slot r) = [r]) {m : M} {f : R} :
    f ∈ (act key slot value b (.resend r)).failed m ↔ m ≠ slot r ∧ f ∈ b.failed m := by
  by_cases hm : m = slot r
  · subst hm
    simp [act, hsingle]
  · simp [act, hm]

theorem inv_send {b : Box R K M V} (h : Inv key slot value b) {r : R} (hd : Disciplined key slot b (.send r)) :
    Inv key slot value (act key slot value b (.send r)) := by
  obtain ⟨hslot, hkey⟩ := hd
  have hwait : ∀ k, waitingFor key (act key slot value b (.send r)) k =
      waitingFor key b k ++ if key r = k then [r] else [] := fun k => filter_append_key key b.waiting r k
  refine ⟨h.one, fun m f hf => ⟨(h.clear m f hf).1, fun r' hr' => ?_⟩, h.keys, fun k l hl r' hr' => ?_,
    fun k l hl hnil => ?_, fun k l hl hnil => ?_⟩
  · rcases List.mem_append.mp hr' with hr' | hr'
    · exact (h.clear m f hf).2 r' hr'
    · rw [List.mem_singleton.mp hr']
      refine ⟨fun hm => ?_, fun hk => hkey m f hf hk.symm⟩
      have hf' : f ∈ b.failed (slot r) := hm ▸ hf
      rw [hslot] at hf'
      cases hf'
  · rw [hwait] at hr'
    by_cases hk : key r = k
    · have hl' : some r = some l := by simpa [act, hk] using hl
      rw [if_pos hk, List.getLast?_concat] at hr'
      rw [← Option.some.inj hr', Option.some.inj hl']
    · rw [if_neg hk, List.append_nil] at hr'
      exact h.waits k l (by simpa [act, Function.update_of_ne (Ne.symm hk)] using hl) r' hr'
  all_goals
    rw [hwait] at hnil
    have hk : key r ≠ k := by
      intro hk
      simp [hk] at hnil
    have hl' : b.last k = some l := by simpa [act, Function.update_of_ne (Ne.symm hk)] using hl
    rw [if_neg hk, List.append_nil] at hnil
  · exact h.kept k l hl' hnil
  · exact h.held k l hl' hnil

theorem inv_apply {b : Box R K M V} (h : Inv key slot value b) {r : R} (hd : Disciplined key slot b (.apply r)) :
    Inv key slot value (act key slot value b (.apply r)) := by
  obtain ⟨rest, hrest⟩ := List.head?_eq_some_iff.mp hd
  have hmem : r ∈ b.waiting := ((mem_waitingFor key).mp (hrest ▸ List.mem_cons_self)).1
  have hself : waitingFor key (act key slot value b (.apply r)) (key r) = rest := by
    show (b.waiting.erase r).filter _ = rest
    rw [filter_erase_key, if_pos rfl]
    show (waitingFor key b (key r)).erase r = rest
    rw [hrest, List.erase_cons_head]
  have hne : ∀ k, key r ≠ k → waitingFor key (act key slot value b (.apply r)) k = waitingFor key b k :=
    fun _ hk => waitingFor_erase_of_ne key rfl hk
  refine ⟨h.one, fun m f hf => ⟨(h.clear m f hf).1, fun r' hr' => ?_⟩, h.keys, fun k l hl r' hr' => ?_,
    fun k l hl hnil m f hf hfk => ?_, fun k l hl hnil hno => ?_⟩
  · exact (h.clear m f hf).2 r' (List.mem_of_mem_erase hr')
  · by_cases hk : key r = k
    · subst hk
      rw [hself] at hr'
      refine h.waits _ l hl r' ?_
      rw [hrest, List.getLast?_cons, hr']
      rfl
    · rw [hne k hk] at hr'
      exact h.waits k l hl r' hr'
  · by_cases hk : key r = k
    · exact absurd (hk.trans hfk.symm) ((h.clear m f hf).2 r hmem).2
    · rw [hne k hk] at hnil
      exact h.kept k l hl hnil m f hf hfk
  · by_cases hk : key r = k
    · subst hk
      rw [hself] at hnil
      have hval := h.waits _ l hl r (by rw [hrest, hnil]; rfl)
      simpa [act] using hval
    · rw [hne k hk] at hnil
      have := h.held k l hl hnil hno
      simpa [act, Function.update_of_ne (Ne.symm hk)] using this

theorem inv_fail {b : Box R K M V} (h : Inv key slot value b) {r : R} (hd : Disciplined key slot b (.fail r)) :
    Inv key slot value (act key slot value b (.fail r)) := by
  obtain ⟨hmem, hothers⟩ := hd
  have hempty : b.failed (slot r) = [] := by
    refine List.eq_nil_iff_forall_not_mem.mpr fun f hf => ?_
    exact ((h.clear _ f hf).2 r hmem).1 rfl
  have hself : waitingFor key (act key slot value b (.fail r)) (key r) = [] := by
    refine List.filter_eq_nil_iff.mpr fun r' hr' => ?_
    simpa using (hothers r' hr').2
  have honly : (waitingFor key b (key r)).erase r = [] := by
    rw [← hself]
    exact ((filter_erase_key key b.waiting r (key r)).trans (if_pos rfl)).symm
  have hne : ∀ k, key r ≠ k → waitingFor key (act key slot value b (.fail r)) k = waitingFor key b k :=
    fun _ hk => waitingFor_erase_of_ne key rfl hk
  refine ⟨fun m => ?_, fun m f hf => ?_, fun m f hf m' f' hf' hkk => ?_, fun k l hl r' hr' => ?_,
    fun k l hl hnil m f hf hfk => ?_, fun k l hl hnil hno => ?_⟩
  · by_cases hm : m = slot r
    · simp [act, hm, hempty]
    · simpa [act, Function.update_of_ne hm] using h.one m
  · rcases (mem_failed_fail hempty).mp hf with ⟨rfl, rfl⟩ | hf
    · exact ⟨rfl, hothers⟩
    · exact ⟨(h.clear m f hf).1, fun r' hr' => (h.clear m f hf).2 r' (List.mem_of_mem_erase hr')⟩
  · rcases (mem_failed_fail hempty).mp hf with ⟨hm, hfr⟩ | hfb <;>
      rcases (mem_failed_fail hempty).mp hf' with ⟨hm', hfr'⟩ | hfb'
    · rw [hm, hm']
    · exact absurd (hfr ▸ hkk) ((h.clear m' f' hfb').2 r hmem).2
    · exact absurd (hfr' ▸ hkk.symm) ((h.clear m f hfb).2 r hmem).2
    · exact h.keys m f hfb m' f' hfb' hkk
  · by_cases hk : key r = k
    · subst hk
      rw [hself] at hr'
      cases hr'
    · rw [hne k hk] at hr'
      exact h.waits k l hl r' hr'
  · rcases (mem_failed_fail hempty).mp hf with ⟨rfl, rfl⟩ | hf
    · -- it was the only one that waited for its key
      subst hfk
      refine h.waits _ l hl f ?_
      have hperm := List.perm_cons_erase ((mem_waitingFor key).mpr ⟨hmem, rfl⟩ : f ∈ waitingFor key b (key f))
      rw [honly] at hperm
      rw [hperm.eq_singleton]
      rfl
    · have hk : key r ≠ k := fun hk => ((h.clear m f hf).2 r hmem).2 (hk.trans hfk.symm)
      rw [hne k hk] at hnil
      exact h.kept k l hl hnil m f hf hfk
  · have hk : key r ≠ k := hno (slot r) r (by simp [act])
    rw [hne k hk] at hnil
    exact h.held k l hl hnil fun m f hf => hno m f ((mem_failed_fail hempty).mpr (.inr hf))

theorem inv_resend {b : Box R K M V} (h : Inv key slot value b) {r : R} (hd : Disciplined key slot b (.resend r)) :
    Inv key slot value (act key slot value b (.resend r)) := by
  have hd : r ∈ b.failed (slot r) := hd
  have hsingle : b.failed (slot r) = [r] := eq_singleton_of_mem hd (h.one (slot r))
  have hwait : ∀ k, waitingFor key (act key slot value b (.resend r)) k =
      waitingFor key b k ++ if key r = k then [r] else [] := fun k => filter_append_key key b.waiting r k
  refine ⟨fun m => ?_, fun m f hf => ?_, fun m f hf m' f' hf' => ?_, fun k l hl r' hr' => ?_,
    fun k l hl hnil m f hf => ?_, fun k l hl hnil hno => ?_⟩
  · by_cases hm : m = slot r
    · simp [act, hm, hsingle]
    · simpa [act, Function.update_of_ne hm] using h.one m
  · obtain ⟨hm, hf⟩ := (mem_failed_resend hsingle).mp hf
    refine ⟨(h.clear m f hf).1, fun r' hr' => ?_⟩
    rcases List.mem_append.mp hr' with hr' | hr'
    · exact (h.clear m f hf).2 r' hr'
    · rw [List.mem_singleton.mp hr']
      exact ⟨Ne.symm hm, fun hk => hm (h.keys m f hf (slot r) r hd hk.symm)⟩
  · exact h.keys m f ((mem_failed_resend hsingle).mp hf).2 m' f' ((mem_failed_resend hsingle).mp hf').2
  · rw [hwait] at hr'
    by_cases hk : key r = k
    · subst hk
      have hnone : waitingFor key b (key r) = [] := by
        refine List.filter_eq_nil_iff.mpr fun x hx => ?_
        simpa using ((h.clear _ r hd).2 x hx).2
      rw [if_pos rfl, List.getLast?_concat] at hr'
      rw [← Option.some.inj hr']
      exact h.kept _ l hl hnone _ r hd rfl
    · rw [if_neg hk, List.append_nil] at hr'
      exact h.waits k l hl r' hr'
  all_goals
    rw [hwait] at hnil
    have hk : key r ≠ k := by
      intro hk
      simp [hk] at hnil
    rw [if_neg hk, List.append_nil] at hnil
  · exact h.kept k l hl hnil m f ((mem_failed_resend hsingle).mp hf).2
  · refine h.held k l hl hnil fun m f hf => ?_
    by_cases hm : m = slot r
    · rw [hm, hsingle, List.mem_singleton] at hf
      rw [hf]
      exact hk
    · exact hno m f ((mem_failed_resend hsingle).mpr ⟨hm, hf⟩)

/-- Every disciplined act keeps the invariant. -/
theorem inv_act {b : Box R K M V} (h : Inv key slot value b) {a : Act R} (hd : Disciplined key slot b a) :
    Inv key slot value (act key slot value b a) := by
  cases a with
  | send r => exact inv_send h hd
  | apply r => exact inv_apply h hd
  | fail r => exact inv_fail h hd
  | resend r => exact inv_resend h hd

end PredictorService.Lib.Outbox
