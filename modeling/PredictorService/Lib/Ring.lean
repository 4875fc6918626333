/-
  PredictorService.Lib.Ring — circular doubly linked buffers on a heap.

  A buffer has a next and a previous one and some data. `IsRing h p xs` says that from `p`
  the buffers are `xs`, in this order, and that the last one leads back to `p`. `splice`
  hooks one ring in before another's head, by four assignments; `walk` goes round once,
  collecting the data, and stops where it began.
  - `IsRing.splice`: the ring after a splice is the one, then the other.
  - `IsRing.splice_all`: so are the rings spliced in one after another (`Rings`: those that
    share no buffer), since a splice leaves the others as they are (`IsRing.splice_frame`).
  - `IsRing.walk`: a walk ends, with the data of every buffer in order.
-/

import Mathlib.Data.List.Chain
import Mathlib.Data.List.Nodup
import Mathlib.Logic.Function.Basic

namespace PredictorService.Lib.Ring

structure Heap (A B : Type*) where
  next : A → A
  prev : A → A
  data : A → List B

variable {A B : Type*}

def Heap.Linked (h : Heap A B) (a b : A) : Prop := h.next a = b ∧ h.prev b = a

/-- The buffers from `p` on are `xs`, and then `p` again. -/
structure IsRing (h : Heap A B) (p : A) (xs : List A) : Prop where
  head : xs.head? = some p
  nodup : xs.Nodup
  linked : xs.IsChain h.Linked
  closed : ∀ t ∈ xs.getLast?, h.Linked t p

variable {h h' : Heap A B} {p q : A} {xs ys zs : List A}

theorem IsRing.mem_head (hx : IsRing h p xs) : p ∈ xs := List.mem_of_mem_head? hx.head

/-- The buffer before the head is the last one. -/
theorem IsRing.last (hx : IsRing h p xs) : xs.getLast? = some (h.prev p) := by
  cases hl : xs.getLast? with
  | none =>
    have hhead := hx.head
    rw [List.getLast?_eq_none_iff.mp hl] at hhead
    cases hhead
  | some t => rw [(hx.closed t hl).2]

/-- Inside a list without repetitions a link survives where only the last next and the
    first previous change. -/
theorem isChain_linked (hnodup : xs.Nodup) (hchain : xs.IsChain h.Linked)
    (hnext : ∀ a ∈ xs, xs.getLast? ≠ some a → h'.next a = h.next a)
    (hprev : ∀ b ∈ xs, xs.head? ≠ some b → h'.prev b = h.prev b) : xs.IsChain h'.Linked := by
  rw [List.isChain_iff_getElem] at hchain ⊢
  intro i hi
  obtain ⟨h1, h2⟩ := hchain i hi
  have hlast : xs.getLast? ≠ some xs[i] := by
    rw [List.getLast?_eq_getElem?, List.getElem?_eq_getElem (by omega)]
    intro heq
    have hi' := (hnodup.getElem_inj_iff).mp (Option.some.inj heq)
    omega
  have hfirst : xs.head? ≠ some xs[i + 1] := by
    rw [List.head?_eq_getElem?, List.getElem?_eq_getElem (by omega)]
    intro heq
    have hi' := (hnodup.getElem_inj_iff).mp (Option.some.inj heq)
    omega
  exact ⟨by rw [hnext _ (List.getElem_mem _) hlast, h1], by rw [hprev _ (List.getElem_mem _) hfirst, h2]⟩

theorem IsRing.congr (hx : IsRing h p xs) (hnext : ∀ a ∈ xs, h'.next a = h.next a)
    (hprev : ∀ a ∈ xs, h'.prev a = h.prev a) : IsRing h' p xs := by
  refine ⟨hx.head, hx.nodup, isChain_linked hx.nodup hx.linked (fun a ha _ => hnext a ha) (fun a ha _ => hprev a ha),
    fun t ht => ?_⟩
  obtain ⟨h1, h2⟩ := hx.closed t ht
  exact ⟨by rw [hnext t (List.mem_of_mem_getLast? ht), h1], by rw [hprev p hx.mem_head, h2]⟩

/-! ## Splicing -/

variable [DecidableEq A]

def Heap.setNext (h : Heap A B) (a b : A) : Heap A B := { h with next := Function.update h.next a b }

def Heap.setPrev (h : Heap A B) (a b : A) : Heap A B := { h with prev := Function.update h.prev a b }

@[simp] theorem Heap.setNext_prev (h : Heap A B) (a b : A) : (h.setNext a b).prev = h.prev := rfl
@[simp] theorem Heap.setNext_data (h : Heap A B) (a b : A) : (h.setNext a b).data = h.data := rfl
@[simp] theorem Heap.setPrev_next (h : Heap A B) (a b : A) : (h.setPrev a b).next = h.next := rfl
@[simp] theorem Heap.setPrev_data (h : Heap A B) (a b : A) : (h.setPrev a b).data = h.data := rfl

@[simp] theorem Heap.setNext_next (h : Heap A B) (a b c : A) : (h.setNext a b).next c = if c = a then b else h.next c := by
  simp [Heap.setNext, Function.update_apply]

@[simp] theorem Heap.setPrev_prev (h : Heap A B) (a b c : A) : (h.setPrev a b).prev c = if c = a then b else h.prev c := by
  simp [Heap.setPrev, Function.update_apply]

/-- The ring of `other` goes in before `this`, behind everything else of its ring. -/
def splice (h : Heap A B) (this other : A) : Heap A B :=
  let otherTail := h.prev other
  let h := h.setNext (h.prev this) other
  let h := h.setPrev other (h.prev this)
  let h := h.setNext otherTail this
  h.setPrev this otherTail

@[simp] theorem splice_data (h : Heap A B) (p q : A) : (splice h p q).data = h.data := rfl

theorem splice_next (h : Heap A B) (p q a : A) :
    (splice h p q).next a = if a = h.prev q then p else if a = h.prev p then q else h.next a := by
  simp [splice]

theorem splice_prev (h : Heap A B) (p q a : A) :
    (splice h p q).prev a = if a = p then h.prev q else if a = q then h.prev p else h.prev a := by
  simp [splice]

theorem IsRing.splice (hx : IsRing h p xs) (hy : IsRing h q ys) (hd : xs.Disjoint ys) :
    IsRing (splice h p q) p (xs ++ ys) := by
  have hxl := List.mem_of_mem_getLast? hx.last
  have hyl := List.mem_of_mem_getLast? hy.last
  -- the four places that change
  have hnextx : (Ring.splice h p q).next (h.prev p) = q := by
    rw [splice_next, if_neg (fun heq => hd hxl (by rw [heq]; exact hyl)), if_pos rfl]
  have hprevq : (Ring.splice h p q).prev q = h.prev p := by
    rw [splice_prev, if_neg (fun heq => hd hx.mem_head (by rw [← heq]; exact hy.mem_head)), if_pos rfl]
  have hnexty : (Ring.splice h p q).next (h.prev q) = p := by rw [splice_next, if_pos rfl]
  have hprevp : (Ring.splice h p q).prev p = h.prev q := by rw [splice_prev, if_pos rfl]
  refine ⟨?_, List.nodup_append'.mpr ⟨hx.nodup, hy.nodup, hd⟩, List.isChain_append.mpr ⟨?_, ?_, ?_⟩, ?_⟩
  · rw [List.head?_append, hx.head]
    rfl
  · refine isChain_linked hx.nodup hx.linked (fun a ha hne => ?_) (fun b hb hne => ?_)
    · rw [splice_next, if_neg (fun heq => hd ha (by rw [heq]; exact hyl)), if_neg (fun heq => hne (by rw [heq, hx.last]))]
    · rw [splice_prev, if_neg (fun heq => hne (by rw [heq, hx.head])),
        if_neg (fun heq => hd hb (by rw [heq]; exact hy.mem_head))]
  · refine isChain_linked hy.nodup hy.linked (fun a ha hne => ?_) (fun b hb hne => ?_)
    · rw [splice_next, if_neg (fun heq => hne (by rw [heq, hy.last])), if_neg (fun heq => hd hxl (by rw [← heq]; exact ha))]
    · rw [splice_prev, if_neg (fun heq => hd hx.mem_head (by rw [← heq]; exact hb)),
        if_neg (fun heq => hne (by rw [heq, hy.head]))]
  · intro a ha b hb
    rw [hx.last] at ha
    rw [hy.head] at hb
    cases ha
    cases hb
    exact ⟨hnextx, hprevq⟩
  · intro t ht
    rw [List.getLast?_append, hy.last] at ht
    cases ht
    exact ⟨hnexty, hprevp⟩

theorem IsRing.splice_frame {r : A} (hx : IsRing h p xs) (hy : IsRing h q ys) (hz : IsRing h r zs)
    (hxz : xs.Disjoint zs) (hyz : ys.Disjoint zs) : IsRing (Ring.splice h p q) r zs := by
  have hxl := List.mem_of_mem_getLast? hx.last
  have hyl := List.mem_of_mem_getLast? hy.last
  refine hz.congr (fun a ha => ?_) (fun a ha => ?_)
  · rw [splice_next, if_neg (fun heq => hyz hyl (by rw [← heq]; exact ha)),
      if_neg (fun heq => hxz hxl (by rw [← heq]; exact ha))]
  · rw [splice_prev, if_neg (fun heq => hxz hx.mem_head (by rw [← heq]; exact ha)),
      if_neg (fun heq => hyz hy.mem_head (by rw [← heq]; exact ha))]

/-- Rings that share no buffer, each with its head. -/
def Rings (h : Heap A B) (rs : List (A × List A)) : Prop :=
  (∀ r ∈ rs, IsRing h r.1 r.2) ∧ rs.Pairwise fun r r' => r.2.Disjoint r'.2

theorem IsRing.splice_all {rs : List (A × List A)} (hx : IsRing h p xs) (hrs : Rings h rs)
    (hd : ∀ r ∈ rs, xs.Disjoint r.2) :
    IsRing (rs.foldl (fun h r => Ring.splice h p r.1) h) p (xs ++ rs.flatMap (·.2)) := by
  induction rs generalizing h xs with
  | nil => simpa using hx
  | cons r rs ih =>
    obtain ⟨hrings, hpair⟩ := hrs
    rw [List.pairwise_cons] at hpair
    have hr := hrings r List.mem_cons_self
    have hxr := hd r List.mem_cons_self
    have hframe : ∀ r' ∈ rs, IsRing (Ring.splice h p r.1) r'.1 r'.2 := fun r' hr' =>
      hx.splice_frame hr (hrings r' (List.mem_cons_of_mem _ hr')) (hd r' (List.mem_cons_of_mem _ hr')) (hpair.1 r' hr')
    have hrest := ih (hx.splice hr hxr) ⟨hframe, hpair.2⟩ fun r' hr' =>
      List.disjoint_append_left.mpr ⟨hd r' (List.mem_cons_of_mem _ hr'), hpair.1 r' hr'⟩
    simpa using hrest

theorem splice_all_data (h : Heap A B) (p : A) (rs : List (A × List A)) :
    (rs.foldl (fun h r => Ring.splice h p r.1) h).data = h.data := by
  induction rs generalizing h with
  | nil => rfl
  | cons r rs ih => rw [List.foldl_cons, ih, splice_data]

/-! ## Walking -/

/-- The data from `p` on until `start` comes round again; `none` while it has not. -/
def walk (h : Heap A B) (start : A) : Nat → A → List B → Option (List B)
  | 0, _, _ => none
  | fuel + 1, p, body =>
    let body := body ++ h.data p
    let p := h.next p
    if p = start then some body else walk h start fuel p body

theorem walk_from {start : A} (tail : List A) (p : A) (body : List B) (fuel : Nat)
    (hchain : (p :: tail).IsChain h.Linked) (hclosed : ∀ t ∈ (p :: tail).getLast?, h.Linked t start)
    (hstart : start ∉ tail) (hfuel : tail.length < fuel) :
    walk h start fuel p body = some (body ++ (p :: tail).flatMap h.data) := by
  induction tail generalizing p body fuel with
  | nil =>
    cases fuel with
    | zero => omega
    | succ fuel =>
      have hnext := (hclosed p rfl).1
      simp [Ring.walk, hnext]
  | cons b tail ih =>
    cases fuel with
    | zero => omega
    | succ fuel =>
      rw [List.isChain_cons_cons] at hchain
      have hnext : h.next p = b := hchain.1.1
      have hb : b ≠ start := fun heq => hstart (by rw [heq]; exact List.mem_cons_self)
      have hrest := ih b (body ++ h.data p) fuel hchain.2 (fun t ht => hclosed t (by rwa [List.getLast?_cons_cons]))
        (fun hmem => hstart (List.mem_cons_of_mem _ hmem)) (by simpa using hfuel)
      simp only [Ring.walk]
      rw [hnext, if_neg hb, hrest]
      simp

/-- A walk from the head ends where it began. -/
theorem IsRing.walk (hx : IsRing h p xs) {fuel : Nat} (hfuel : xs.length ≤ fuel) :
    walk h p fuel p [] = some (xs.flatMap h.data) := by
  cases xs with
  | nil => cases hx.head
  | cons a tail =>
    cases hx.head
    have hnodup := List.nodup_cons.mp hx.nodup
    have hwalk := walk_from tail p [] fuel hx.linked hx.closed hnodup.1 hfuel
    rwa [List.nil_append] at hwalk

end PredictorService.Lib.Ring
