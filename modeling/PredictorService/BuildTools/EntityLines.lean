/-
  PredictorService.BuildTools.EntityLines — what the generator reads of a member's line.

  The name and the type are found between spaces or quotes (`infosOf_shown`), and the flags
  of the type's text lead back to the type (`Noted.memberType`). Every `const` in the line is
  erased, so a name that has one in it is read as another (`memberInfo_line`).
-/

import PredictorService.BuildTools.EntityConfig

namespace PredictorService.BuildTools

open PredictorService.Lib

/-! ## Words -/

/-- The letters of an identifier. -/
def isWordChar (c : Char) : Bool := c.isAlphanum || c = '_'

def Word (s : Text) : Prop := ∀ c ∈ s, isWordChar c = true

theorem Word.not_mem {s : Text} (h : Word s) {c : Char} (hc : isWordChar c = false) : c ∉ s := by
  intro hmem
  rw [h c hmem] at hc
  cases hc

theorem isBlank_of_isWordChar {c : Char} (h : isWordChar c = true) : isBlank c = false := by
  by_contra hblank
  rw [Bool.not_eq_false, isBlank, List.contains_iff_mem] at hblank
  simp only [List.mem_cons, List.not_mem_nil, or_false] at hblank
  rcases hblank with rfl | rfl | rfl | rfl | rfl | rfl <;> revert h <;> decide

theorem Word.ends {s : Text} (h : Word s) : Ends isBlank s := .of_forall fun c hc => isBlank_of_isWordChar (h c hc)

theorem identifier_word {name : String} (h : identifier name = true) : Word name.toList ∧ name.toList ≠ [] := by
  unfold identifier at h
  split at h
  · cases h
  · rename_i c cs hname
    simp only [Bool.and_eq_true, List.all_eq_true] at h
    rw [hname]
    refine ⟨fun x hx => ?_, List.cons_ne_nil _ _⟩
    rcases List.mem_cons.mp hx with rfl | hx
    · have hc := h.1.1
      simp only [Bool.or_eq_true, decide_eq_true_eq] at hc
      simp only [isWordChar, Char.isAlphanum, Bool.or_eq_true, decide_eq_true_eq]
      exact hc.imp .inl id
    · exact h.1.2 x hx

theorem spaces_blank {s : Text} (h : Spaces s) : ∀ c ∈ s, isBlank c = true := by
  intro c hc
  rw [h c hc]
  decide

theorem space_blank : ∀ c ∈ [' '], isBlank c = true := List.all_eq_true.mp (by decide)

/-! ## Erasing `const` -/

theorem removeConst_cons {c : Char} {s : Text} (h : ¬ "const".toList <+: c :: s) :
    removeConst (c :: s) = c :: removeConst s := by
  rw [removeConst]
  intro s' hc hs
  subst hc hs
  exact h ⟨s', rfl⟩

theorem removeConst_append_cons {x : Char} (hx : x ∉ "const".toList) (before after : Text) :
    removeConst (before ++ x :: after) = removeConst before ++ x :: removeConst after := by
  induction before using removeConst.induct with
  | case1 s ih => simpa only [List.cons_append, removeConst] using ih
  | case2 c s h ih =>
    have hpre : ¬ "const".toList <+: c :: s := by
      rintro ⟨s', hs⟩
      obtain ⟨rfl, rfl⟩ := List.cons.inj hs
      exact h s' rfl rfl
    have hpre' : ¬ "const".toList <+: c :: (s ++ x :: after) := fun hp => hpre (prefix_append_cons hx hp)
    rw [removeConst_cons hpre, List.cons_append, removeConst_cons hpre', ih, List.cons_append]
  | case3 => exact removeConst_cons fun hp => absurd (@prefix_append_cons _ _ _ [] _ hx hp) (by decide)

theorem length_removeConst_le (s : Text) : (removeConst s).length ≤ s.length := by
  induction s using removeConst.induct with
  | case1 s ih =>
    simp only [removeConst, List.length_cons]
    omega
  | case2 c s h ih =>
    rw [removeConst, List.length_cons, List.length_cons]
    · omega
    · exact h
  | case3 => exact Nat.le_refl _

theorem mem_of_mem_removeConst {c : Char} {s : Text} (h : c ∈ removeConst s) : c ∈ s := by
  induction s using removeConst.induct with
  | case1 s ih =>
    rw [removeConst] at h
    simp [ih h]
  | case2 d s hd ih =>
    rw [removeConst] at h
    · rcases List.mem_cons.mp h with rfl | h
      · exact List.mem_cons_self
      · exact List.mem_cons_of_mem _ (ih h)
    · exact hd
  | case3 => exact absurd h List.not_mem_nil

theorem removeConst_eq_self_iff {s : Text} : removeConst s = s ↔ includes s "const" = false := by
  rw [includes, decide_eq_false_iff_not]
  induction s using removeConst.induct with
  | case1 s ih =>
    refine iff_of_false (fun h => ?_) (fun h => h ⟨[], s, rfl⟩)
    have hlen := length_removeConst_le s
    rw [removeConst] at h
    have := congrArg List.length h
    simp only [List.length_cons] at this
    omega
  | case2 c s h ih =>
    have hpre : ¬ "const".toList <+: c :: s := by
      rintro ⟨s', hs⟩
      obtain ⟨rfl, rfl⟩ := List.cons.inj hs
      exact h s' rfl rfl
    rw [removeConst_cons hpre, List.cons.injEq, List.infix_cons_iff]
    simp only [true_and, ih, hpre, false_or]
  | case3 => simp [removeConst]

theorem Word.removeConst {s : Text} (h : Word s) : Word (removeConst s) := fun c hc => h c (mem_of_mem_removeConst hc)

/-! ## The parts of a member's line -/

theorem getD_splitOn_zero (c : Char) (s : Text) : (s.splitOn c).getD 0 [] = s.takeWhile (· ≠ c) := by
  induction s with
  | nil => rfl
  | cons x s ih =>
    rw [List.splitOn_cons_eq_if_modifyHead]
    by_cases hx : x = c
    · simp [hx]
    · obtain ⟨piece, pieces, hs⟩ := List.exists_cons_of_ne_nil (List.splitOn_ne_nil c s)
      rw [hs] at ih ⊢
      simpa [hx] using ih

section Line

variable {decl init : Text} {text : String}

theorem declOf_append (hdecl : '=' ∉ decl) (hends : Ends isBlank decl) (hinit : InitText text init) :
    declOf (decl ++ init) = decl ∧ initOf (decl ++ init) = initRead text := by
  cases hinit with
  | none =>
    have hnone : (decl ++ []).contains '=' = false := by simpa using hdecl
    rw [declOf, initOf, hnone, List.append_nil]
    exact ⟨rfl, rfl⟩
  | @some _ a b ha hb =>
    have hsome : (decl ++ (a ++ '=' :: (b ++ text.toList))).contains '=' = true := by simp
    have hsplit : (decl ++ (a ++ '=' :: (b ++ text.toList))).splitOn '=' =
        (decl ++ a) :: (b ++ text.toList).splitOn '=' := by
      rw [← List.append_assoc]
      refine List.splitOn_append_cons_self_of_not_mem (fun hmem => ?_) _
      rcases List.mem_append.mp hmem with hmem | hmem
      · exact hdecl hmem
      · exact absurd (ha '=' hmem) (by decide)
    rw [declOf, initOf, hsome, if_pos rfl, if_pos rfl, hsplit]
    constructor
    · exact trimBy_around (a := []) (by simp) (spaces_blank ha) hends
    · show trim (((b ++ text.toList).splitOn '=').getD 0 []) = initRead text
      have hspaces : ∀ c ∈ b, decide (c ≠ '=') = true := by
        intro c hc
        rw [hb c hc]
        decide
      rw [getD_splitOn_zero, List.takeWhile_append_of_pos hspaces, initRead, trim, trim,
        trimBy_append_left (spaces_blank hb)]

/-- A leading `const` goes with every other. -/
theorem withoutConst_append (isconst : Bool) (hends : Ends isBlank decl) :
    withoutConst ((if isconst then "const ".toList else []) ++ decl) = trim (removeConst decl) := by
  cases isconst with
  | true =>
    have hconst : includes ("const ".toList ++ decl) "const" = true := decide_eq_true ⟨[], ' ' :: decl, rfl⟩
    have hrest : removeConst ("const ".toList ++ decl) = [' '] ++ removeConst decl := by
      show removeConst ('c' :: 'o' :: 'n' :: 's' :: 't' :: ' ' :: decl) = _
      rw [removeConst]
      exact removeConst_append_cons (x := ' ') (by decide) [] decl
    rw [if_pos rfl, withoutConst, hconst, if_pos rfl, hrest, trim, trimBy_append_left space_blank, trim]
  | false =>
    rw [if_neg (by simp), List.nil_append, withoutConst]
    split
    · rfl
    · rename_i h
      rw [removeConst_eq_self_iff.mpr (by simpa using h), trim, trimBy_of_ends hends]

end Line

section Infos

variable {type name : Text}

theorem contains_quote_false {s : Text} (h : quote ∉ s) : s.contains quote = false := by simpa using h

theorem infosOf_bare (hspace : ' ' ∉ type) (hquote : quote ∉ type) (hends : Ends isBlank type) (hname : Word name) :
    (type ≠ [] → name ≠ [] → infosOf (trim (type ++ ' ' :: name)) = [type, name]) ∧
      (type = [] ∨ name = [] → (infosOf (trim (type ++ ' ' :: name))).getD 1 [] = []) := by
  have hsplit : ∀ s : Text, ' ' ∉ s → quote ∉ s → infosOf s = [s] := by
    intro s hs hq
    rw [infosOf, contains_quote_false hq, if_neg (by simp), List.splitOn_eq_singleton hs]
  have hnameSpace : ' ' ∉ name := hname.not_mem (by decide)
  have hnameQuote : quote ∉ name := hname.not_mem (by decide)
  refine ⟨fun hne hne' => ?_, fun h => ?_⟩
  · have hwhole : Ends isBlank (type ++ ' ' :: name) := by
      intro c hc
      rcases hc with hc | hc
      · rw [List.head?_append_of_ne_nil _ hne] at hc
        exact hends c (.inl hc)
      · rw [List.getLast?_append_of_ne_nil _ (List.cons_ne_nil _ _), List.getLast?_cons_of_ne_nil hne'] at hc
        exact hname.ends c (.inr hc)
    have hwholeQuote : quote ∉ type ++ ' ' :: name := by
      simp only [List.mem_append, List.mem_cons, not_or]
      exact ⟨hquote, by decide, hnameQuote⟩
    rw [trim, trimBy_of_ends hwhole, infosOf, contains_quote_false hwholeQuote, if_neg (by simp),
      List.splitOn_append_cons_self_of_not_mem hspace, List.splitOn_eq_singleton hnameSpace]
  · rcases h with rfl | rfl
    · have htrim : trim ([' '] ++ name) = name := by rw [trim, trimBy_append_left space_blank, trimBy_of_ends hname.ends]
      rw [List.nil_append, ← List.singleton_append, htrim, hsplit name hnameSpace hnameQuote]
      rfl
    · have htrim : trim ([] ++ type ++ [' ']) = type := trimBy_around (by simp) space_blank hends
      rw [List.nil_append] at htrim
      rw [htrim, hsplit type hspace hquote]
      rfl

theorem dropWhile_quote (hquote : quote ∉ type) (hne : type ≠ []) (rest : Text) :
    (quote :: (type ++ rest)).dropWhile (· = quote) = type ++ rest := by
  obtain ⟨c, type, rfl⟩ := List.exists_cons_of_ne_nil hne
  have hc : c ≠ quote := fun h => hquote (h ▸ List.mem_cons_self)
  simp [hc]

theorem infosOf_quoted (hquote : quote ∉ type) (hname : Word name) :
    (type ≠ [] → name ≠ [] → infosOf (trim (quote :: type ++ quote :: ' ' :: name)) = [type, ' ' :: name]) ∧
      (type = [] ∨ name = [] → (infosOf (trim (quote :: type ++ quote :: ' ' :: name))).getD 1 [] = []) := by
  have hnameQuote : quote ∉ ' ' :: name := by
    rw [List.mem_cons, not_or]
    exact ⟨by decide, hname.not_mem (by decide)⟩
  by_cases hne' : name = []
  · subst hne'
    refine ⟨fun _ h => absurd rfl h, fun _ => ?_⟩
    have hends : Ends isBlank (quote :: type ++ [quote]) := .between (by decide) (by decide) type
    have htrim : trim (quote :: type ++ [quote, ' ']) = quote :: type ++ [quote] := by
      rw [show quote :: type ++ [quote, ' '] = [] ++ (quote :: type ++ [quote]) ++ [' '] by simp]
      exact trimBy_around (by simp) space_blank hends
    rw [htrim, infosOf, if_pos (by simp)]
    by_cases hne : type = []
    · subst hne
      rfl
    · rw [List.cons_append, dropWhile_quote hquote hne, List.splitOn_append_cons_self_of_not_mem hquote]
      rfl
  · have hends : Ends isBlank (quote :: type ++ quote :: ' ' :: name) := by
      intro c hc
      rcases hc with hc | hc
      · obtain rfl : quote = c := by simpa using hc
        decide
      · rw [List.getLast?_append_of_ne_nil _ (List.cons_ne_nil _ _), List.getLast?_cons_of_ne_nil (List.cons_ne_nil _ _),
          List.getLast?_cons_of_ne_nil hne'] at hc
        exact hname.ends c (.inr hc)
    rw [trim, trimBy_of_ends hends, infosOf, if_pos (by simp)]
    refine ⟨fun hne _ => ?_, fun h => ?_⟩
    · rw [List.cons_append, dropWhile_quote hquote hne, List.splitOn_append_cons_self_of_not_mem hquote,
        List.splitOn_eq_singleton hnameQuote]
    · obtain rfl := h.resolve_right hne'
      have hdrop : (quote :: [] ++ quote :: ' ' :: name).dropWhile (· = quote) = ' ' :: name := by
        have hspace : ' ' ≠ quote := by decide
        simp [hspace]
      rw [hdrop, List.splitOn_eq_singleton hnameQuote]
      rfl

end Infos

/-! ## Types -/

def MemberType.withElem : MemberType → TypeName → MemberType
  | .plain _, t => .plain t
  | .vector _, t => .vector t
  | .map key _, t => .map key t

theorem MemberType.withElem_elem (t : MemberType) : t.withElem t.elem = t := by cases t <;> rfl

theorem MemberType.withElem_injective (t : MemberType) : Function.Injective t.withElem := by
  intro a b h
  cases t <;> cases h <;> rfl

theorem podOf_text (p : Pod) : podOf p.text.toList = some p := by cases p <;> decide

theorem typeNameOf_text {t : TypeName} (h : t.worded = true) : typeNameOf t.text.toList = some t := by
  cases t with
  | pod p =>
    have hdouble : p.text.toList ≠ "double".toList := by cases p <;> decide
    rw [typeNameOf, TypeName.text, if_neg hdouble, podOf_text]
  | named n =>
    simp only [TypeName.worded, Bool.and_eq_true, Bool.not_eq_true', List.contains_eq_mem, decide_eq_false_iff_not] at h
    obtain ⟨hid, hpod⟩ := h
    have hdouble : n.toList ≠ "double".toList := by
      intro hn
      rw [String.toList_inj.mp hn] at hid
      exact absurd hid (by decide)
    have hnone : podOf n.toList = none := by
      rw [podOf, List.find?_eq_none]
      intro p hp heq
      exact hpod (List.mem_map.mpr ⟨p, hp, String.toList_inj.mp (by simpa using heq)⟩)
    rw [typeNameOf, TypeName.text, if_neg hdouble, hnone, String.ofList_toList]

/-- A class or an enum is found under its own name only. -/
theorem typeNameOf_named {t : Text} {n : String} (h : typeNameOf t = some (.named n)) : t = n.toList := by
  unfold typeNameOf at h
  split at h
  · cases h
  · cases hp : podOf t with
    | some p =>
      rw [hp] at h
      cases h
    | none =>
      rw [hp] at h
      cases h
      simp

theorem typeNameOf_pod {t : Text} {p : Pod} (h : podOf t = some p) : typeNameOf t = some (.pod p) := by
  have hdouble : t ≠ "double".toList := by
    rintro rfl
    have hnone : podOf "double".toList = none := by decide
    rw [hnone] at h
    cases h
  rw [typeNameOf, if_neg hdouble, h]

/-- What stands in a type's text for its elements. -/
structure ElemText (t : Text) : Prop where
  comma : ',' ∉ t
  quote : quote ∉ t
  space : ' ' ∉ t
  equals : '=' ∉ t
  bracket : '<' ∉ t
  ends : Ends isBlank t
  container : ¬ "std::vector".toList <:+: t ∧ ¬ "std::map".toList <:+: t ∧ ¬ "std::unordered_map".toList <:+: t
  string : "std::string".toList <:+: t → (podOf t).isSome = true

theorem Word.elemText {t : Text} (h : Word t) : ElemText t := by
  have hpart : ∀ w : Text, ':' ∈ w → ¬ w <:+: t := fun w hw hinf => h.not_mem (by decide) (hinf.mem hw)
  exact ⟨h.not_mem (by decide), h.not_mem (by decide), h.not_mem (by decide), h.not_mem (by decide),
    h.not_mem (by decide), h.ends, ⟨hpart _ (by decide), hpart _ (by decide), hpart _ (by decide)⟩,
    fun hs => absurd hs (hpart _ (by decide))⟩

theorem Pod.elemText (p : Pod) : ElemText p.text.toList := by
  have hblank : p.text.toList.all (!isBlank ·) = true := by cases p <;> decide
  simp only [List.all_eq_true, Bool.not_eq_true'] at hblank
  refine ⟨?_, ?_, ?_, ?_, ?_, .of_forall hblank, ?_, fun _ => by rw [podOf_text]; rfl⟩ <;> cases p <;> decide

theorem spaces_not_mem {s : Text} (h : Spaces s) {c : Char} (hc : c ≠ ' ') : c ∉ s := fun hmem => hc (h c hmem)

section TypeText

variable {type : MemberType} {elem text : Text}

theorem TypeText.ends (h : TypeText type elem text) (helem : Ends isBlank elem) : Ends isBlank text := by
  have hlast : ∀ (c : Char) (s rest : Text), isBlank c = false → Ends isBlank (c :: s ++ '<' :: (rest ++ ['>'])) := by
    intro c s rest hc
    rw [← List.cons_append, ← List.append_assoc]
    exact .between hc (by decide) (s ++ '<' :: rest)
  cases h with
  | plain => exact helem
  | vector ha hb => exact hlast 's' _ _ (by decide)
  | map hcontainer ha hb hc hd =>
    have hassoc : ∀ s rest : Text, s ++ ',' :: (rest ++ ['>']) = s ++ ',' :: rest ++ ['>'] := by simp
    rw [hassoc]
    rcases hcontainer with rfl | rfl
    · exact hlast 's' _ _ (by decide)
    · exact hlast 's' _ _ (by decide)

theorem TypeText.not_mem (h : TypeText type elem text) {c : Char} (hc : c ∉ elem) (hpods : ∀ p : Pod, c ∉ p.text.toList)
    (hother : c ∉ "std::vector< std::unordered_map<,>".toList) : c ∉ text := by
  have hletter : ∀ x ∈ "std::vector< std::unordered_map<,>".toList, c ≠ x := fun x hx heq => hother (heq ▸ hx)
  have hspace : c ≠ ' ' := hletter ' ' (by decide)
  cases h with
  | plain => exact hc
  | vector ha hb =>
    have hvector : "std::vector".toList ⊆ "std::vector< std::unordered_map<,>".toList := by decide
    simp only [List.mem_append, List.mem_cons, List.not_mem_nil, or_false, not_or]
    exact ⟨fun h => hother (hvector h), hletter '<' (by decide), ⟨⟨spaces_not_mem ha hspace, hc⟩,
      spaces_not_mem hb hspace⟩, hletter '>' (by decide)⟩
  | @map key _ _ container _ _ _ _ hcontainer ha hb hc' hd =>
    have hmap : "std::map".toList ⊆ "std::vector< std::unordered_map<,>".toList := by decide
    have hunordered : "std::unordered_map".toList ⊆ "std::vector< std::unordered_map<,>".toList := by decide
    have hhead : c ∉ container.toList := by
      rcases hcontainer with rfl | rfl
      · exact fun h => hother (hmap h)
      · exact fun h => hother (hunordered h)
    simp only [List.mem_append, List.mem_cons, List.not_mem_nil, or_false, not_or]
    exact ⟨hhead, hletter '<' (by decide), ⟨⟨spaces_not_mem ha hspace, hpods key⟩, spaces_not_mem hb hspace⟩,
      hletter ',' (by decide), ⟨⟨spaces_not_mem hc' hspace, hc⟩, spaces_not_mem hd hspace⟩, hletter '>' (by decide)⟩

end TypeText

theorem removeConst_spaces {s : Text} (hs : Spaces s) : removeConst s = s := by
  refine removeConst_eq_self_iff.mpr (decide_eq_false fun h => ?_)
  exact absurd (hs 'c' (h.mem (by decide))) (by decide)

theorem removeConst_around {a b : Text} (ha : Spaces a) (hb : Spaces b) (s : Text) :
    removeConst (a ++ s ++ b) = a ++ removeConst s ++ b := by
  have hleft : ∀ s : Text, removeConst (a ++ s) = a ++ removeConst s := by
    intro s
    induction a with
    | nil => rfl
    | cons c a ih =>
      obtain rfl : c = ' ' := ha c List.mem_cons_self
      rw [List.cons_append, List.cons_append, ← ih fun c hc => ha c (List.mem_cons_of_mem _ hc)]
      exact removeConst_append_cons (by decide) [] (a ++ s)
  have hright : removeConst (s ++ b) = removeConst s ++ b := by
    cases b with
    | nil => rw [List.append_nil, List.append_nil]
    | cons c b =>
      obtain rfl : c = ' ' := hb c List.mem_cons_self
      rw [removeConst_append_cons (by decide), removeConst_spaces fun c hc => hb c (List.mem_cons_of_mem _ hc)]
  rw [List.append_assoc, hleft, hright, List.append_assoc]

theorem removeConst_pod (p : Pod) : removeConst p.text.toList = p.text.toList := by cases p <;> decide

section TypeText

variable {type : MemberType} {elem text : Text}

theorem TypeText.removeConst (h : TypeText type elem text) : TypeText type (removeConst elem) (removeConst text) := by
  cases h with
  | plain => exact .plain
  | vector ha hb =>
    rw [removeConst_append_cons (by decide), removeConst_append_cons (by decide), removeConst_around ha hb]
    exact .vector ha hb
  | @map key _ _ container _ _ _ _ hcontainer ha hb hc hd =>
    have hhead : BuildTools.removeConst container.toList = container.toList := by
      rcases hcontainer with rfl | rfl <;> decide
    rw [removeConst_append_cons (by decide), removeConst_append_cons (by decide), removeConst_append_cons (by decide),
      removeConst_around ha hb, removeConst_around hc hd, removeConst_pod, hhead]
    exact .map hcontainer ha hb hc hd

end TypeText

/-! ## What is noted of a type -/

theorem enclosed_append (left : String) (right : Char) (inner : Text) :
    enclosed left right (left.toList ++ inner ++ [right]) = some inner := by
  have hprefix : left.toList <+: left.toList ++ inner ++ [right] := ⟨inner ++ [right], by rw [List.append_assoc]⟩
  rw [enclosed, if_pos hprefix, List.append_assoc, List.drop_left]
  simp

theorem enclosed_eq_none {left : String} {s : Text} (h : ¬ left.toList <+: s) (right : Char) :
    enclosed left right s = none := if_neg h

theorem trim_around {a b s : Text} (ha : Spaces a) (hb : Spaces b) (hs : Ends isBlank s) : trim (a ++ s ++ b) = s :=
  trimBy_around (spaces_blank ha) (spaces_blank hb) hs

theorem infix_around {a b s word : Text} (ha : Spaces a) (hb : Spaces b) (hword : ' ' ∉ word) (hne : word ≠ [])
    (h : word <:+: a ++ s ++ b) : word <:+: s := by
  have hright : word <:+: a ++ s := by
    cases b with
    | nil => rwa [List.append_nil] at h
    | cons c b =>
      obtain rfl : c = ' ' := hb c List.mem_cons_self
      rcases (infix_append_cons_iff hword hne).mp h with h | h
      · exact h
      · obtain ⟨c, hc⟩ := List.exists_mem_of_ne_nil word hne
        exact absurd (hb c (List.mem_cons_of_mem _ (h.mem hc)) ▸ hc) hword
  clear h
  induction a with
  | nil => exact hright
  | cons c a ih =>
    obtain rfl : c = ' ' := ha c List.mem_cons_self
    refine ih (fun c hc => ha c (List.mem_cons_of_mem _ hc)) ?_
    rw [List.cons_append, ← List.nil_append (' ' :: (a ++ s))] at hright
    exact ((infix_append_cons_iff hword hne).mp hright).resolve_left fun h => hne (List.infix_nil.mp h)

/-- A member's info has the flags of this type's text. -/
structure Noted (info : MemberInfo) (text : Text) : Prop where
  type : info.type = text
  isvector : info.isvector = includes text "std::vector"
  ismap : info.ismap = (includes text "std::unordered_map" || includes text "std::map")
  isstring : info.isstring = (includes text "std::string" && !info.isvector && !info.ismap)
  container : info.containerType = containerType text

theorem podOf_eq_none {text : Text} (h : '<' ∈ text) : podOf text = none := by
  rw [podOf, List.find?_eq_none]
  intro p _ hp
  have htext : p.text.toList = text := by simpa using hp
  have hnot : ∀ p : Pod, '<' ∉ p.text.toList := by
    intro p
    cases p <;> decide
  exact hnot p (htext ▸ h)

theorem containerType_vector {t : TypeName} {elem text : Text} (h : TypeText (.vector t) elem text)
    (helem : ElemText elem) : containerType text = .text elem := by
  cases h with
  | @vector _ _ a b ha hb =>
    have hunordered : ¬ "std::unordered_map<".toList <+: "std::vector".toList ++ '<' :: (a ++ elem ++ b ++ ['>']) := by
      simp
    have hmap : ¬ "std::map<".toList <+: "std::vector".toList ++ '<' :: (a ++ elem ++ b ++ ['>']) := by simp
    have hvector : enclosed "std::vector<" '>' ("std::vector".toList ++ '<' :: (a ++ elem ++ b ++ ['>'])) =
        some (a ++ elem ++ b) := enclosed_append "std::vector<" '>' (a ++ elem ++ b)
    rw [containerType, enclosed_eq_none hunordered, enclosed_eq_none hmap, hvector]
    exact congrArg ContainerType.text (trim_around ha hb helem.ends)

theorem containerType_pair {text inner key value : Text}
    (hinner : (enclosed "std::unordered_map<" '>' text).or (enclosed "std::map<" '>' text) = some inner)
    (hlast : splitLast ',' inner = some (key, value)) : containerType text = .pair (trim key) (trim value) := by
  simp only [containerType, hinner, Option.bind_some, hlast]

theorem containerType_map {key : Pod} {t : TypeName} {elem text : Text} (h : TypeText (.map key t) elem text)
    (helem : ElemText elem) : containerType text = .pair key.text.toList elem := by
  cases h with
  | @map _ _ _ container a b c d hcontainer ha hb hc hd =>
    have hlast : splitLast ',' (a ++ key.text.toList ++ b ++ ',' :: (c ++ elem ++ d)) =
        some (a ++ key.text.toList ++ b, c ++ elem ++ d) := by
      refine splitLast_append_cons ?_
      simp only [List.mem_append, not_or]
      exact ⟨⟨spaces_not_mem hc (by decide), helem.comma⟩, spaces_not_mem hd (by decide)⟩
    have hassoc : a ++ key.text.toList ++ b ++ ',' :: (c ++ elem ++ d ++ ['>']) =
        a ++ key.text.toList ++ b ++ ',' :: (c ++ elem ++ d) ++ ['>'] := by simp
    have hpair : ∀ text, (enclosed "std::unordered_map<" '>' text).or (enclosed "std::map<" '>' text) =
        some (a ++ key.text.toList ++ b ++ ',' :: (c ++ elem ++ d)) →
        containerType text = .pair key.text.toList elem := by
      intro text hinner
      rw [containerType_pair hinner hlast, trim_around ha hb key.elemText.ends, trim_around hc hd helem.ends]
    rw [hassoc]
    refine hpair _ ?_
    rcases hcontainer with rfl | rfl
    · have hunordered : ¬ "std::unordered_map<".toList <+:
          "std::map".toList ++ '<' :: (a ++ key.text.toList ++ b ++ ',' :: (c ++ elem ++ d) ++ ['>']) := by simp
      rw [enclosed_eq_none hunordered, Option.none_or]
      exact enclosed_append "std::map<" '>' _
    · refine Option.or_eq_some_iff.mpr (.inl ?_)
      exact enclosed_append "std::unordered_map<" '>' _

/-- The flags lead to the type that the text is of, with what its elements are found to be. -/
theorem Noted.memberType {info : MemberInfo} {type : MemberType} {elem text : Text} (hn : Noted info text)
    (h : TypeText type elem text) (helem : ElemText elem) : info.memberType = (typeNameOf elem).map type.withElem := by
  rw [MemberInfo.memberType, hn.type, hn.isstring, hn.container]
  cases type with
  | plain t =>
    cases h
    have hvector : info.isvector = false := by rw [hn.isvector]; exact decide_eq_false helem.container.1
    have hmap : info.ismap = false := by
      rw [hn.ismap, Bool.or_eq_false_iff]
      exact ⟨decide_eq_false helem.container.2.2, decide_eq_false helem.container.2.1⟩
    rw [hvector, hmap]
    cases hpod : podOf elem with
    | some p =>
      rw [typeNameOf_pod hpod]
      rfl
    | none =>
      have hstring : includes elem "std::string" = false :=
        decide_eq_false fun hs => by simpa [hpod] using helem.string hs
      rw [hstring]
      rfl
  | vector t =>
    rw [containerType_vector h helem]
    cases h with
    | vector ha hb =>
      have hvector : info.isvector = true := by rw [hn.isvector]; exact decide_eq_true (List.prefix_append _ _).isInfix
      rw [hvector, podOf_eq_none (by simp)]
      simp
      rfl
  | map key t =>
    rw [containerType_map h helem]
    cases h with
    | @map _ _ _ container a b c d hcontainer ha hb hc hd =>
      have hvector : info.isvector = false := by
        rw [hn.isvector]
        refine decide_eq_false fun hinf => ?_
        have hhead : ¬ "std::vector".toList <:+: container.toList := by rcases hcontainer with rfl | rfl <;> decide
        rcases (infix_append_cons_iff (by decide) (by decide)).mp hinf with hinf | hinf
        · exact hhead hinf
        rcases (infix_append_cons_iff (by decide) (by decide)).mp hinf with hinf | hinf
        · exact key.elemText.container.1 (infix_around ha hb (by decide) (by decide) hinf)
        rcases (infix_append_cons_iff (by decide) (by decide)).mp hinf with hinf | hinf
        · exact helem.container.1 (infix_around hc hd (by decide) (by decide) hinf)
        · exact absurd (List.infix_nil.mp hinf) (by decide)
      have hmap : info.ismap = true := by
        rw [hn.ismap, Bool.or_eq_true]
        rcases hcontainer with rfl | rfl
        · exact .inr (decide_eq_true (List.prefix_append _ _).isInfix)
        · exact .inl (decide_eq_true (List.prefix_append _ _).isInfix)
      rw [hvector, hmap, podOf_eq_none (by simp)]
      simp only [podOf_text]
      simp
      rfl

/-! ## A member's lines -/

theorem TypeName.not_mem {t : TypeName} (ht : t.worded = true) {c : Char} (hc : isWordChar c = false)
    (hcolon : c ≠ ':') : c ∉ t.text.toList := by
  cases t with
  | pod p =>
    have hpods : p.text.toList.all (fun x => isWordChar x || x = ':') = true := by cases p <;> decide
    intro hmem
    have hchar := List.all_eq_true.mp hpods c hmem
    rw [hc, Bool.false_or, decide_eq_true_eq] at hchar
    exact hcolon hchar
  | named n =>
    simp only [TypeName.worded, Bool.and_eq_true] at ht
    exact (identifier_word ht.1).1.not_mem hc

theorem TypeName.text_ne_nil {t : TypeName} (ht : t.worded = true) : t.text.toList ≠ [] := by
  cases t with
  | pod p => cases p <;> decide
  | named n =>
    simp only [TypeName.worded, Bool.and_eq_true] at ht
    exact (identifier_word ht.1).2

theorem elemText_removeConst {t : TypeName} (ht : t.worded = true) : ElemText (removeConst t.text.toList) := by
  cases t with
  | pod p =>
    rw [TypeName.text, removeConst_pod]
    exact p.elemText
  | named n =>
    simp only [TypeName.worded, Bool.and_eq_true] at ht
    exact (identifier_word ht.1).1.removeConst.elemText

theorem Shown.not_mem {type shown : Text} (h : Shown type shown) {c : Char} (hc : c ∉ type) (hquote : c ≠ quote)
    (hspace : c ≠ ' ') : c ∉ shown := by
  cases h with
  | bare => simp [hc, hspace]
  | quoted => simp [hc, hquote, hspace]

theorem TypeText.ne_nil {type : MemberType} {elem text : Text} (h : TypeText type elem text) (helem : elem ≠ []) :
    text ≠ [] := by
  cases h with
  | plain => exact helem
  | vector => simp
  | map => simp

section MemberLine

variable {m : Member} {line : Text}

/-- The line of a member without its initializer. -/
theorem MemberLine.decl (h : MemberLine m line) (hname : identifier m.name = true) (htype : m.type.elem.worded = true) :
    ∃ (isconst : Bool) (type shown init : Text), TypeText m.type m.type.elem.text.toList type ∧ Shown type shown ∧
      InitText m.init init ∧ line = ((if isconst then "const ".toList else []) ++ (shown ++ m.name.toList)) ++ init ∧
      Ends isBlank (shown ++ m.name.toList) ∧
      Ends isBlank ((if isconst then "const ".toList else []) ++ (shown ++ m.name.toList)) ∧
      ∀ c, isWordChar c = false → c ∉ "const :\x22<>,".toList →
        c ∉ (if isconst then "const ".toList else []) ++ (shown ++ m.name.toList) := by
  cases h with
  | @mk isconst type shown init htypetext hshown hinit =>
    obtain ⟨hword, hne⟩ := identifier_word hname
    have hends : Ends isBlank (shown ++ m.name.toList) := by
      have hlast : ∀ c, (shown ++ m.name.toList).getLast? = some c → isBlank c = false := by
        intro c hc
        rw [List.getLast?_append_of_ne_nil _ hne] at hc
        exact hword.ends c (.inr hc)
      have htypeEnds : Ends isBlank type := by
        refine htypetext.ends ?_
        cases helem : m.type.elem with
        | pod p => exact p.elemText.ends
        | named n =>
          rw [helem] at htype
          simp only [TypeName.worded, Bool.and_eq_true] at htype
          exact (identifier_word htype.1).1.ends
      intro c hc
      rcases hc with hc | hc
      · cases hshown with
        | bare hspace =>
          rw [List.append_assoc, List.head?_append_of_ne_nil _ (htypetext.ne_nil (TypeName.text_ne_nil htype))] at hc
          exact htypeEnds c (.inl hc)
        | quoted =>
          obtain rfl : quote = c := by simpa using hc
          decide
      · exact hlast c hc
    refine ⟨isconst, type, shown, init, htypetext, hshown, hinit, (List.append_assoc _ _ _).symm, hends, ?_, ?_⟩
    · cases isconst with
      | false => exact hends
      | true =>
        intro c hc
        rcases hc with hc | hc
        · obtain rfl : 'c' = c := by simpa using hc
          decide
        · rw [List.getLast?_append_of_ne_nil _ (List.append_ne_nil_of_right_ne_nil _ hne)] at hc
          exact hends c (.inr hc)
    · intro c hc hother
      have hletter : ∀ x ∈ "const :\x22<>,".toList, c ≠ x := fun x hx heq => hother (heq ▸ hx)
      have hconst : c ∉ (if isconst then "const ".toList else []) := by
        have hsub : "const ".toList ⊆ "const :\x22<>,".toList := by decide
        cases isconst with
        | false => exact List.not_mem_nil
        | true => exact fun h => hother (hsub h)
      have helem : c ∉ m.type.elem.text.toList := TypeName.not_mem htype hc (hletter ':' (by decide))
      have hpods : ∀ p : Pod, c ∉ p.text.toList := fun p =>
        TypeName.not_mem (t := .pod p) rfl hc (hletter ':' (by decide))
      have hthere : c ∉ "std::vector< std::unordered_map<,>".toList := by
        have hsub : "std::vector< std::unordered_map<,>".toList.all
            (fun x => isWordChar x || x ∈ "const :\x22<>,".toList) = true := by decide
        intro h
        have hchar := List.all_eq_true.mp hsub c h
        rw [hc, Bool.false_or, decide_eq_true_eq] at hchar
        exact hother hchar
      simp only [List.mem_append, not_or]
      exact ⟨hconst, hshown.not_mem (htypetext.not_mem helem hpods hthere) (hletter quote (by decide))
        (hletter ' ' (by decide)), hword.not_mem hc⟩

/-- A member's line is no annotation. -/
theorem annotationOf_line (h : MemberLine m line) (hname : identifier m.name = true)
    (htype : m.type.elem.worded = true) : annotationOf line = none := by
  obtain ⟨isconst, type, shown, init, -, -, -, rfl, -, -, hnot⟩ := h.decl hname htype
  have hne : (if isconst then "const ".toList else []) ++ (shown ++ m.name.toList) ≠ [] :=
    List.append_ne_nil_of_right_ne_nil _ (List.append_ne_nil_of_right_ne_nil _ (identifier_word hname).2)
  rw [annotationOf, enclosed_eq_none, Option.map_none]
  intro hprefix
  obtain ⟨c, rest, hc⟩ := List.exists_cons_of_ne_nil hne
  rw [hc, List.cons_append] at hprefix
  obtain ⟨hhead, -⟩ := List.cons_prefix_cons.mp hprefix
  exact hnot '@' (by decide) (by decide) (hc ▸ hhead ▸ List.mem_cons_self)

theorem noted_memberInfo (annot : Option AnnotationOption) {item text : Text}
    (h : trim ((infosOf (withoutConst (declOf item))).getD 0 []) = text) :
    Noted (memberInfo annot item).2 text := by
  subst h
  exact ⟨rfl, rfl, rfl, rfl, rfl⟩

theorem infosOf_shown {type shown name : Text} (h : Shown type shown) (hquote : quote ∉ removeConst type)
    (hends : Ends isBlank (removeConst type)) (hname : Word (removeConst name)) :
    (removeConst type ≠ [] → removeConst name ≠ [] →
      (infosOf (trim (removeConst (shown ++ name)))).getD 0 [] = removeConst type ∧
        trim ((infosOf (trim (removeConst (shown ++ name)))).getD 1 []) = removeConst name) ∧
    (removeConst type = [] ∨ removeConst name = [] → (infosOf (trim (removeConst (shown ++ name)))).getD 1 [] = []) := by
  cases h with
  | bare hspace =>
    have herase : removeConst (type ++ [' '] ++ name) = removeConst type ++ ' ' :: removeConst name := by
      rw [List.append_assoc]
      exact removeConst_append_cons (by decide) type name
    have hspace' : ' ' ∉ removeConst type := fun hmem => hspace (mem_of_mem_removeConst hmem)
    obtain ⟨hboth, hnone⟩ := infosOf_bare hspace' hquote hends hname
    rw [herase]
    refine ⟨fun hne hne' => ?_, hnone⟩
    rw [hboth hne hne']
    exact ⟨rfl, trimBy_of_ends hname.ends⟩
  | quoted =>
    have herase : removeConst (quote :: type ++ [quote, ' '] ++ name) =
        quote :: removeConst type ++ quote :: ' ' :: removeConst name := by
      have hparts : quote :: type ++ [quote, ' '] ++ name =
          [] ++ quote :: (type ++ quote :: ([] ++ ' ' :: name)) := by simp
      rw [hparts, removeConst_append_cons (by decide), removeConst_append_cons (by decide),
        removeConst_append_cons (by decide)]
      rfl
    obtain ⟨hboth, hnone⟩ := infosOf_quoted hquote hname
    rw [herase]
    refine ⟨fun hne hne' => ?_, hnone⟩
    rw [hboth hne hne']
    refine ⟨rfl, ?_⟩
    show trim ([' '] ++ removeConst name) = removeConst name
    rw [trim, trimBy_append_left space_blank, trimBy_of_ends hname.ends]

/-- What is read of a member's line: every `const` is gone, and there is no name if nothing
    else of it or of the type is left. -/
theorem memberInfo_line (annot : Option AnnotationOption) (h : MemberLine m line) (hname : identifier m.name = true)
    (htype : m.type.elem.worded = true) :
    (memberInfo annot line).2.init = initRead m.init ∧
    ((memberInfo annot line).1 = [] ∨
      (memberInfo annot line).1 = removeConst m.name.toList ∧ (memberInfo annot line).2.memberType =
        (typeNameOf (removeConst m.type.elem.text.toList)).map m.type.withElem) ∧
    (removeConst m.name.toList ≠ [] → removeConst m.type.elem.text.toList ≠ [] →
      (memberInfo annot line).1 = removeConst m.name.toList ∧ (memberInfo annot line).2.memberType =
        (typeNameOf (removeConst m.type.elem.text.toList)).map m.type.withElem) := by
  obtain ⟨isconst, type, shown, init, htypetext, hshown, hinit, hline, hends, hends', hnot⟩ := h.decl hname htype
  obtain ⟨hdecl, hinitOf⟩ := declOf_append (hnot '=' (by decide) (by decide)) hends' hinit
  have helem := elemText_removeConst htype
  have htext := htypetext.removeConst
  have hquote : quote ∉ removeConst type := htext.not_mem helem.quote (fun p => p.elemText.quote) (by decide)
  obtain ⟨hboth, hnone⟩ := infosOf_shown hshown hquote (htext.ends helem.ends) (identifier_word hname).1.removeConst
  have hinfos : infosOf (withoutConst (declOf line)) = infosOf (trim (removeConst (shown ++ m.name.toList))) := by
    rw [hline, hdecl, withoutConst_append isconst hends]
  -- both are left
  have hread : removeConst type ≠ [] → removeConst m.name.toList ≠ [] →
      (memberInfo annot line).1 = removeConst m.name.toList ∧ (memberInfo annot line).2.memberType =
        (typeNameOf (removeConst m.type.elem.text.toList)).map m.type.withElem := by
    intro hne hne'
    obtain ⟨htypeRead, hnameRead⟩ := hboth hne hne'
    refine ⟨?_, (noted_memberInfo annot ?_).memberType htext helem⟩
    · rw [memberInfo, hinfos, hnameRead]
    · rw [hinfos, htypeRead, trim, trimBy_of_ends (htext.ends helem.ends)]
  refine ⟨by rw [hline]; exact hinitOf, ?_, fun hne hne' => hread (htext.ne_nil hne') hne⟩
  by_cases hleft : removeConst type = [] ∨ removeConst m.name.toList = []
  · left
    rw [memberInfo, hinfos, hnone hleft]
    rfl
  · rw [not_or] at hleft
    exact .inr (hread hleft.1 hleft.2)

end MemberLine

end PredictorService.BuildTools
