/-
  PredictorService.Lib.Normpath — `os.path.normpath` of Python, on POSIX.

  A path is cut at its slashes. Empty components and `.` are dropped, and `..` takes the
  component before it away where there is one; two slashes at the front stay two, and any
  other number becomes one. Components so made are `Normal`, and a path made of such
  components stays as it is (`normpathChars_join`), so doing it twice is doing it once
  (`normpath_idem`).
-/

import Mathlib.Data.List.Basic
import Mathlib.Data.List.Induction

namespace PredictorService.Lib

abbrev Comp := List Char

def DOTDOT : Comp := ['.', '.']

def initialSlashes : List Char → Nat
  | '/' :: '/' :: '/' :: _ => 1
  | '/' :: '/' :: _ => 2
  | '/' :: _ => 1
  | _ => 0

/-- One round of the loop over the components. -/
def addComp (rooted : Bool) (newComps : List Comp) (comp : Comp) : List Comp :=
  if comp = [] ∨ comp = ['.'] then newComps
  else if comp ≠ DOTDOT ∨ (rooted = false ∧ newComps = []) ∨ newComps.getLast? = some DOTDOT then newComps ++ [comp]
  else newComps.dropLast

def normComps (rooted : Bool) (comps : List Comp) : List Comp := comps.foldl (addComp rooted) []

/-- The components after so many slashes. -/
def joinComps (slashes : Nat) (comps : List Comp) : List Char :=
  if slashes = 0 ∧ comps = [] then ['.'] else List.replicate slashes '/' ++ ['/'].intercalate comps

def normpathChars (path : List Char) : List Char :=
  joinComps (initialSlashes path) (normComps (0 < initialSlashes path) (path.splitOn '/'))

def normpath (path : String) : String := String.ofList (normpathChars path.toList)

/-! ## Normal components -/

structure Normal (rooted : Bool) (comps : List Comp) : Prop where
  plain : ∀ c ∈ comps, c ≠ [] ∧ c ≠ ['.'] ∧ '/' ∉ c
  /-- `..` stands only at the front, and only without a root. -/
  dots : ∀ before after, comps = before ++ DOTDOT :: after → rooted = false ∧ ∀ c ∈ before, c = DOTDOT

variable {rooted : Bool} {comps : List Comp}

theorem normal_nil : Normal rooted [] where
  plain := nofun
  dots before after h := by
    have := congrArg List.length h
    simp at this

theorem Normal.of_append {front back : List Comp} (h : Normal rooted (front ++ back)) : Normal rooted front where
  plain c hc := h.plain c (List.mem_append_left _ hc)
  dots before after heq := h.dots before (after ++ back) (by rw [heq, List.append_assoc, List.cons_append])

theorem Normal.addComp (h : Normal rooted comps) {c : Comp} (hc : '/' ∉ c) :
    Normal rooted (addComp rooted comps c) := by
  unfold PredictorService.Lib.addComp
  split
  · exact h
  · rename_i hplain
    rw [not_or] at hplain
    split
    · rename_i hcond
      refine ⟨fun d hd => ?_, fun before after heq => ?_⟩
      · rcases List.mem_append.mp hd with hd | hd
        · exact h.plain d hd
        · rw [List.mem_singleton.mp hd]
          exact ⟨hplain.1, hplain.2, hc⟩
      · rcases List.eq_nil_or_concat after with rfl | ⟨after, last, rfl⟩
        · -- the new component is `..`, and stands behind others or nothing
          obtain ⟨rfl, hlast⟩ := List.append_inj' heq rfl
          cases hlast
          rcases hcond with hne | ⟨hrooted, rfl⟩ | hlast
          · exact absurd rfl hne
          · exact ⟨hrooted, nofun⟩
          · obtain ⟨front, hfront⟩ := List.getLast?_eq_some_iff.mp hlast
            obtain ⟨hrooted, hall⟩ := h.dots front [] hfront
            refine ⟨hrooted, fun d hd => ?_⟩
            rw [hfront] at hd
            rcases List.mem_append.mp hd with hd | hd
            · exact hall d hd
            · exact List.mem_singleton.mp hd
        · rw [List.concat_eq_append, ← List.cons_append, ← List.append_assoc] at heq
          exact h.dots before after (List.append_inj_left' heq rfl)
    · rename_i hcond
      rcases List.eq_nil_or_concat comps with rfl | ⟨front, last, rfl⟩
      · exact h
      · rw [List.concat_eq_append] at h ⊢
        rw [List.dropLast_concat]
        exact h.of_append

theorem normal_normComps (h : ∀ c ∈ comps, '/' ∉ c) : Normal rooted (normComps rooted comps) := by
  have hall : ∀ l acc : List Comp, (∀ c ∈ l, '/' ∉ c) → Normal rooted acc →
      Normal rooted (l.foldl (addComp rooted) acc) := by
    intro l
    induction l with
    | nil => exact fun acc _ hacc => hacc
    | cons c l ih =>
      exact fun acc hl hacc =>
        ih _ (fun d hd => hl d (List.mem_cons_of_mem _ hd)) (hacc.addComp (hl c List.mem_cons_self))
  exact hall comps [] h normal_nil

/-- Normal components stay. -/
theorem Normal.normComps (h : Normal rooted comps) : normComps rooted comps = comps := by
  induction comps using List.reverseRecOn with
  | nil => rfl
  | append_singleton comps c ih =>
    obtain ⟨hne, hdot, -⟩ := h.plain c (by simp)
    have hcond : c ≠ DOTDOT ∨ (rooted = false ∧ comps = []) ∨ comps.getLast? = some DOTDOT := by
      by_cases hc : c = DOTDOT
      · right
        obtain ⟨hrooted, hall⟩ := h.dots comps [] (by rw [hc])
        rcases List.eq_nil_or_concat comps with rfl | ⟨front, last, rfl⟩
        · exact .inl ⟨hrooted, rfl⟩
        · exact .inr (by simp [hall last (by simp)])
      · exact .inl hc
    rw [PredictorService.Lib.normComps, List.foldl_append, List.foldl_cons, List.foldl_nil]
    rw [show comps.foldl (PredictorService.Lib.addComp rooted) [] = comps from ih h.of_append]
    rw [PredictorService.Lib.addComp, if_neg (by simp [hne, hdot]), if_pos hcond]

/-! ## Paths of normal components -/

theorem normComps_replicate (n : Nat) (comps : List Comp) :
    normComps rooted (List.replicate n [] ++ comps) = normComps rooted comps := by
  induction n with
  | zero => rfl
  | succ n ih => exact ih

theorem splitOn_slashes (n : Nat) (l : List Char) :
    (List.replicate n '/' ++ l).splitOn '/' = List.replicate n [] ++ l.splitOn '/' := by
  induction n with
  | zero => rfl
  | succ n ih =>
    rw [List.replicate_succ, List.cons_append, List.splitOn_cons_eq_if_modifyHead, if_pos (by decide), ih]
    rfl

/-- Without components only the slashes count. -/
theorem normComps_splitOn (h : Normal rooted comps) (n : Nat) :
    normComps rooted ((List.replicate n '/' ++ ['/'].intercalate comps).splitOn '/') = comps := by
  rw [splitOn_slashes, normComps_replicate]
  by_cases hne : comps = []
  · rw [hne]
    rfl
  · rw [List.splitOn_intercalate '/' (fun c hc => (h.plain c hc).2.2) hne, h.normComps]

theorem initialSlashes_join {n : Nat} (hn : n ≤ 2) (h : Normal rooted comps) :
    initialSlashes (List.replicate n '/' ++ ['/'].intercalate comps) = n := by
  -- the components do not begin with a slash
  have hhead : ∀ c l, ['/'].intercalate comps = c :: l → c ≠ '/' := by
    intro c l heq
    cases comps with
    | nil => cases heq
    | cons first rest =>
      obtain ⟨hne, -, hslash⟩ := h.plain first List.mem_cons_self
      cases first with
      | nil => exact absurd rfl hne
      | cons d first =>
        have hc : d = c := by
          cases rest with
          | nil => simpa using congrArg List.head? heq
          | cons next rest =>
            rw [List.intercalate_cons_cons] at heq
            exact (List.cons.inj heq).1
        exact fun hcs => hslash (by rw [← hcs, ← hc]; exact List.mem_cons_self)
  generalize hj : ['/'].intercalate comps = joined
  rw [hj] at hhead
  obtain rfl | rfl | rfl : n = 0 ∨ n = 1 ∨ n = 2 := by omega
  all_goals
    cases joined with
    | nil => rfl
    | cons c l =>
      have hc := hhead c l rfl
      simp [initialSlashes, hc, List.replicate]

theorem normpathChars_join {n : Nat} (hn : n ≤ 2) (h : Normal (decide (0 < n)) comps) :
    normpathChars (joinComps n comps) = joinComps n comps := by
  by_cases hdot : n = 0 ∧ comps = []
  · obtain ⟨rfl, rfl⟩ := hdot
    decide
  · have hjoin : joinComps n comps = List.replicate n '/' ++ ['/'].intercalate comps := if_neg hdot
    rw [normpathChars, hjoin, initialSlashes_join hn h, normComps_splitOn h, ← hjoin]

theorem initialSlashes_le (path : List Char) : initialSlashes path ≤ 2 := by
  unfold initialSlashes
  split <;> decide

theorem not_mem_splitOn {l : List Char} {c : Comp} (h : c ∈ l.splitOn '/') : '/' ∉ c := by
  induction l generalizing c with
  | nil =>
    rw [List.splitOn_nil, List.mem_singleton] at h
    rw [h]
    exact List.not_mem_nil
  | cons a l ih =>
    rw [List.splitOn_cons_eq_if_modifyHead] at h
    split at h
    · rcases List.mem_cons.mp h with rfl | h
      · exact List.not_mem_nil
      · exact ih h
    · rename_i ha
      cases hl : l.splitOn '/' with
      | nil => exact absurd hl (List.splitOn_ne_nil _ _)
      | cons first rest =>
        rw [hl, List.modifyHead_cons] at h
        rcases List.mem_cons.mp h with rfl | h
        · have hfirst := ih (c := first) (by rw [hl]; exact List.mem_cons_self)
          simp only [beq_iff_eq] at ha
          simp [hfirst, Ne.symm ha]
        · exact ih (by rw [hl]; exact List.mem_cons_of_mem _ h)

theorem normpath_idem (path : String) : normpath (normpath path) = normpath path := by
  rw [normpath, normpath, String.toList_ofList]
  congr 1
  exact normpathChars_join (initialSlashes_le _) (normal_normComps fun c hc => not_mem_splitOn hc)

end PredictorService.Lib
