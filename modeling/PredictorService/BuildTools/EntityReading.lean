/-
  PredictorService.BuildTools.EntityReading — what the generator makes of a file that is the
  text of a schema: one that `reads` is read as it is, but for initializers that are cut off
  (`parse_of_reads`).
-/

import PredictorService.BuildTools.EntityLines
import PredictorService.Lib.Loops

namespace PredictorService.BuildTools

open PredictorService.Lib

/-! ## The state while reading -/

def Block.name : Block → Text
  | .enumclass name _ _ => name
  | .cls name _ => name

def Block.isEmpty : Block → Bool
  | .enumclass _ _ items => items.isEmpty
  | .cls _ members => members.isEmpty

/-- These blocks are written, and this one is being read. -/
def holding (written : List Block) : Block → Reading
  | .enumclass name enumType items =>
    { className := name, enumType := some enumType, enums := items, written := written }
  | .cls name members => { className := name, members := members, written := written }

/-- What is held when the head is read. -/
def Decl.opened : Decl → Block
  | .enumclass e => .enumclass e.name.toList e.enumType.text.toList []
  | .cls c => .cls c.name.toList []

section Steps

variable {written : List Block} {r : Reading}

theorem dynamic_holding (written : List Block) (b : Block) : (holding written b).dynamic.written = written ++ [b] := by
  cases b <;> rfl

theorem flush_holding {b : Block} (hname : b.name ≠ []) (hne : b.isEmpty = false) :
    (holding written b).flush = { written := written ++ [b] } := by
  cases b with
  | enumclass name enumType items =>
    have hitems : items ≠ [] := by simpa [Block.isEmpty] using hne
    exact if_pos ⟨hname, .inr hitems⟩
  | cls name members =>
    have hmembers : members ≠ [] := by simpa [Block.isEmpty] using hne
    exact if_pos ⟨hname, .inl hmembers⟩

theorem trim_word {s : Text} (h : Word s) : trim s = s := trimBy_of_ends h.ends

theorem EnumType.text_word (t : EnumType) : Word t.text.toList := List.all_eq_true.mp (by cases t <;> decide)

theorem splitOn_head_enumclass {e : EnumDecl} (hname : identifier e.name = true) :
    (Decl.enumclass e).head.splitOn ' ' = ["enumclass".toList, e.enumType.text.toList, e.name.toList] := by
  have hword : Word e.name.toList := (identifier_word hname).1
  show ("enumclass".toList ++ ' ' :: (e.enumType.text.toList ++ ' ' :: e.name.toList)).splitOn ' ' = _
  rw [List.splitOn_append_cons_self_of_not_mem (by decide),
    List.splitOn_append_cons_self_of_not_mem (e.enumType.text_word.not_mem (by decide)),
    List.splitOn_eq_singleton (hword.not_mem (by decide))]

theorem splitOn_head_cls {c : ClassDecl} (hname : identifier c.name = true) :
    (Decl.cls c).head.splitOn ' ' = ["class".toList, c.name.toList] := by
  have hword : Word c.name.toList := (identifier_word hname).1
  show ("class".toList ++ ' ' :: c.name.toList).splitOn ' ' = _
  rw [List.splitOn_append_cons_self_of_not_mem (by decide), List.splitOn_eq_singleton (hword.not_mem (by decide))]

theorem includes_head (d : Decl) : includes d.head "class" = true := by
  cases d with
  | enumclass e => exact decide_eq_true ⟨"enum".toList, ' ' :: (e.enumType.text.toList ++ ' ' :: e.name.toList), rfl⟩
  | cls c => exact decide_eq_true ⟨[], ' ' :: c.name.toList, rfl⟩

/-- A head begins something new. -/
theorem parseLine_head (d : Decl) (hname : identifier d.name = true) (hr : r.flush = { written := written }) :
    r.parseLine d.head = holding written d.opened := by
  have htrim : trim d.name.toList = d.name.toList := trim_word (identifier_word hname).1
  rw [Reading.parseLine, includes_head, if_pos rfl, Reading.parseClass]
  cases d with
  | enumclass e =>
    rw [Decl.name] at htrim
    rw [splitOn_head_enumclass hname]
    dsimp only
    rw [if_pos rfl, hr, trim_word e.enumType.text_word, htrim]
    rfl
  | cls c =>
    rw [Decl.name] at htrim
    rw [splitOn_head_cls hname]
    dsimp only
    rw [if_neg (by decide), hr, htrim]
    rfl

theorem parseLine_item {name enumType item : Text} {items : List Text} (hclass : includes item "class" = false) :
    (holding written (.enumclass name enumType items)).parseLine item =
      holding written (.enumclass name enumType (items ++ [trim item])) := by
  rw [Reading.parseLine, hclass]
  rfl

theorem foldl_items {name enumType : Text} (lines items : List Text)
    (h : ∀ line ∈ lines, includes line "class" = false) :
    lines.foldl Reading.parseLine (holding written (.enumclass name enumType items)) =
      holding written (.enumclass name enumType (items ++ lines.map trim)) := by
  induction lines generalizing items with
  | nil => simp
  | cons line lines ih =>
    obtain ⟨hline, hlines⟩ := List.forall_mem_cons.mp h
    rw [List.foldl_cons, parseLine_item hline, ih _ hlines, List.map_cons, List.append_assoc, List.singleton_append]

end Steps

/-! ## Members -/

/-- What is noted of a member when its own line and its annotation are read. -/
def ReadAs (m : Member) (read : Text × MemberInfo) : Prop :=
  ∃ annot line, MemberLine m line ∧ read = memberInfo annot line ∧
    read.2.serializeName = m.serializeName.toList ∧ read.2.isoptional = m.isoptional

section Members

variable {m : Member} {lines : List Text}

theorem annotationOf_lines (h : AnnotationLines m lines) :
    lines = [] ∧ m.serializeName = "" ∧ m.isoptional = false ∨
      ∃ line, lines = [line] ∧ annotationOf line = some ⟨m.serializeName.toList, m.isoptional⟩ := by
  cases h with
  | none hname hopt => exact .inl ⟨rfl, hname, hopt⟩
  | some hname =>
    refine .inr ⟨_, rfl, ?_⟩
    have hinner := enclosed_append "@SR(" ')'
      (m.serializeName.toList ++ if m.isoptional then "|optional".toList else [])
    rw [annotationOf, hinner, Option.map_some]
    cases m.isoptional with
    | false =>
      rw [if_neg (by simp), List.append_nil, List.splitOn_eq_singleton hname]
      rfl
    | true =>
      have hsplit : (m.serializeName.toList ++ "|optional".toList).splitOn '|' =
          [m.serializeName.toList, "optional".toList] := by
        show (m.serializeName.toList ++ '|' :: "optional".toList).splitOn '|' = _
        rw [List.splitOn_append_cons_self_of_not_mem hname, List.splitOn_eq_singleton (by decide)]
      rw [if_pos rfl, hsplit]
      rfl

/-- A member's lines, if none is taken for a head, bring the member. -/
theorem foldl_member (hname : identifier m.name = true) (htype : m.type.elem.worded = true) (h : MemberLines m lines)
    (hclass : ∀ line ∈ lines, includes line "class" = false) :
    ∃ read, ReadAs m read ∧ ∀ written name members,
      lines.foldl Reading.parseLine (holding written (.cls name members)) =
        holding written (.cls name (setMember members read)) := by
  obtain ⟨annot, line, hannot, hline, rfl⟩ := h
  have hnone := annotationOf_line hline hname htype
  have hlineClass : includes line "class" = false := hclass line (by simp)
  rcases annotationOf_lines hannot with ⟨rfl, hser, hopt⟩ | ⟨text, rfl, htext⟩
  · refine ⟨memberInfo none line, ⟨none, line, hline, rfl, by rw [hser]; rfl, by rw [hopt]; rfl⟩, ?_⟩
    intro written name members
    show Reading.parseLine (holding written (.cls name members)) line = _
    rw [Reading.parseLine, hlineClass, holding]
    dsimp only
    rw [if_neg (by simp), if_neg (by simp), Reading.parseMember, hnone]
    rfl
  · refine ⟨memberInfo (some ⟨m.serializeName.toList, m.isoptional⟩) line, ⟨_, line, hline, rfl, rfl, rfl⟩, ?_⟩
    intro written name members
    have htextClass : includes text "class" = false := hclass text (by simp)
    show Reading.parseLine (Reading.parseLine (holding written (.cls name members)) text) line = _
    rw [Reading.parseLine.eq_def (holding written (.cls name members)), htextClass, holding]
    dsimp only
    rw [if_neg (by simp), if_neg (by simp), Reading.parseMember, htext]
    dsimp only
    rw [Reading.parseLine, hlineClass]
    dsimp only
    rw [if_neg (by simp), if_neg (by simp), Reading.parseMember, hnone]
    rfl

theorem foldl_members {ms : List Member} {parts : List (List Text)}
    (hms : ∀ m ∈ ms, identifier m.name = true ∧ m.type.elem.worded = true) (h : List.Forall₂ MemberLines ms parts)
    (hclass : ∀ line ∈ parts.flatten, includes line "class" = false) :
    ∃ reads, List.Forall₂ ReadAs ms reads ∧ ∀ written name members,
      parts.flatten.foldl Reading.parseLine (holding written (.cls name members)) =
        holding written (.cls name (reads.foldl setMember members)) := by
  induction h with
  | nil => exact ⟨[], .nil, fun _ _ _ => rfl⟩
  | @cons m part ms parts hpart _ ih =>
    obtain ⟨⟨hname, htype⟩, hrest⟩ := List.forall_mem_cons.mp hms
    rw [List.flatten_cons] at hclass
    obtain ⟨read, hread, hfold⟩ := foldl_member hname htype hpart fun line hline =>
      hclass line (List.mem_append_left _ hline)
    obtain ⟨reads, hreads, hfolds⟩ := ih hrest fun line hline => hclass line (List.mem_append_right _ hline)
    refine ⟨read :: reads, .cons hread hreads, fun written name members => ?_⟩
    rw [List.flatten_cons, List.foldl_append, hfold, hfolds, List.foldl_cons]

end Members

/-! ## Declarations -/

/-- The block is what the lines of the declaration are read as. -/
def BlockOf : Decl → Block → Prop
  | .enumclass e, b => b = .enumclass e.name.toList e.enumType.text.toList (e.items.map String.toList)
  | .cls c, b => ∃ reads, List.Forall₂ ReadAs c.members reads ∧ b = .cls c.name.toList (reads.foldl setMember [])

section Decls

variable {d : Decl} {body : List Text}

theorem foldl_decl (hd : d.worded = true) (h : BodyLines d body)
    (hclass : ∀ line ∈ body, includes line "class" = false) :
    ∃ b, BlockOf d b ∧ ∀ written r, r.flush = { written := written } →
      (d.head :: body).foldl Reading.parseLine r = holding written b := by
  cases d with
  | enumclass e =>
    simp only [Decl.worded, Bool.and_eq_true, List.all_eq_true] at hd
    refine ⟨_, rfl, fun written r hr => ?_⟩
    rw [List.foldl_cons, parseLine_head (.enumclass e) hd.1 hr]
    rw [BodyLines] at h
    subst h
    rw [Decl.opened, foldl_items _ _ hclass, List.nil_append, List.map_map]
    congr 2
    refine List.map_congr_left fun item hitem => ?_
    exact trim_word (identifier_word (hd.2 item hitem)).1
  | cls c =>
    simp only [Decl.worded, Bool.and_eq_true, List.all_eq_true] at hd
    obtain ⟨parts, hparts, rfl⟩ := h
    obtain ⟨reads, hreads, hfold⟩ := foldl_members hd.2 hparts hclass
    refine ⟨_, ⟨reads, hreads, rfl⟩, fun written r hr => ?_⟩
    rw [List.foldl_cons, parseLine_head (.cls c) hd.1 hr, Decl.opened, hfold]

theorem setMember_ne_nil (members : List (Text × MemberInfo)) (m : Text × MemberInfo) : setMember members m ≠ [] := by
  unfold setMember
  split
  · rename_i h
    simp only [ne_eq, List.map_eq_nil_iff]
    rintro rfl
    cases h
  · simp

theorem foldl_setMember_ne_nil (reads members : List (Text × MemberInfo)) (h : reads ≠ [] ∨ members ≠ []) :
    reads.foldl setMember members ≠ [] := by
  induction reads generalizing members with
  | nil => exact h.resolve_left (fun h => h rfl)
  | cons read reads ih => exact ih _ (.inr (setMember_ne_nil members read))

theorem BlockOf.name {b : Block} (h : BlockOf d b) : b.name = d.name.toList := by
  cases d with
  | enumclass e =>
    rw [BlockOf] at h
    subst h
    rfl
  | cls c =>
    obtain ⟨reads, -, rfl⟩ := h
    rfl

theorem BlockOf.isEmpty {b : Block} (h : BlockOf d b) (hne : d.isEmpty = false) : b.isEmpty = false := by
  cases d with
  | enumclass e =>
    rw [BlockOf] at h
    subst h
    simpa [Block.isEmpty, Decl.isEmpty] using hne
  | cls c =>
    obtain ⟨reads, hreads, rfl⟩ := h
    have hmembers : c.members ≠ [] := by simpa [Decl.isEmpty] using hne
    have hne' : reads ≠ [] := by
      rintro rfl
      exact hmembers (List.forall₂_nil_right_iff.mp hreads)
    simpa [Block.isEmpty] using foldl_setMember_ne_nil reads [] (.inl hne')

end Decls

/-! ## Files -/

theorem load_spread {config lines : List Text} (h : Spread config lines) : load config = lines.filter kept := by
  unfold load
  induction h with
  | nil => rfl
  | @noise line config lines hnoise _ ih =>
    rw [List.map_cons, List.filter_cons_of_neg, ih]
    simp only [kept, ne_eq, Bool.and_eq_true, decide_eq_true_eq, not_and, Bool.not_eq_true, Bool.not_eq_false',
      List.contains_iff_mem]
    intro hne
    exact List.mem_of_mem_head? (hnoise.resolve_left hne)
  | @line line config lines _ ih =>
    rw [List.map_cons, List.filter_cons, List.filter_cons, ih]

theorem kept_iff {line : Text} : kept line = true ↔ line ≠ [] ∧ '#' ∉ line := by
  rw [kept, Bool.and_eq_true, Bool.not_eq_true', decide_eq_true_eq, ← Bool.not_eq_true, List.contains_iff_mem]

theorem kept_head {d : Decl} (hname : identifier d.name = true) : kept d.head = true := by
  have hhash : '#' ∉ d.name.toList := (identifier_word hname).1.not_mem (by decide)
  rw [kept_iff]
  cases d with
  | enumclass e =>
    have htype : '#' ∉ e.enumType.text.toList := e.enumType.text_word.not_mem (by decide)
    have hhead : (Decl.enumclass e).head =
        "enumclass ".toList ++ (e.enumType.text.toList ++ ' ' :: e.name.toList) := rfl
    rw [hhead, List.mem_append, List.mem_append, List.mem_cons, not_or, not_or, not_or]
    exact ⟨List.append_ne_nil_of_left_ne_nil (by decide) _, by decide, htype, by decide, hhash⟩
  | cls c =>
    have hhead : (Decl.cls c).head = "class ".toList ++ c.name.toList := rfl
    rw [hhead, List.mem_append, not_or]
    exact ⟨List.append_ne_nil_of_left_ne_nil (by decide) _, by decide, hhash⟩

theorem Decl.identifier_name {d : Decl} (h : d.worded = true) : identifier d.name = true := by
  cases d <;> (simp only [Decl.worded, Bool.and_eq_true] at h; exact h.1)

section Schemas

variable {S : Schema} {bodies : List (List Text)} {config : List Text}

/-- The lines of the declarations. -/
def linesOf (S : Schema) (bodies : List (List Text)) : List Text :=
  (List.zipWith (fun d body => d.head :: body) S bodies).flatten

/-- No line is taken for a head or a comment. -/
def Clear (bodies : List (List Text)) : Prop :=
  ∀ body ∈ bodies, ∀ line ∈ body, includes line "class" = false ∧ kept line = true

theorem filter_linesOf (hS : ∀ d ∈ S, d.worded = true) (h : List.Forall₂ BodyLines S bodies) (hclear : Clear bodies) :
    (linesOf S bodies).filter kept = linesOf S bodies := by
  induction h with
  | nil => rfl
  | @cons d body S bodies _ _ ih =>
    obtain ⟨hd, hS⟩ := List.forall_mem_cons.mp hS
    obtain ⟨hbody, hclear⟩ := List.forall_mem_cons.mp hclear
    have hlines : linesOf (d :: S) (body :: bodies) = (d.head :: body) ++ linesOf S bodies := rfl
    rw [hlines, List.filter_append, ih hS hclear, List.filter_cons_of_pos (kept_head (Decl.identifier_name hd)),
      List.filter_eq_self.mpr fun line hline => (hbody line hline).2]

theorem foldl_schema (hworded : ∀ d ∈ S, d.worded = true) (h : List.Forall₂ BodyLines S bodies) (hclear : Clear bodies)
    (hne : ∀ d ∈ S.dropLast, d.isEmpty = false) (hS : S ≠ []) :
    ∃ blocks, List.Forall₂ BlockOf S blocks ∧ ∀ written r, r.flush = { written := written } →
      ((linesOf S bodies).foldl Reading.parseLine r).dynamic.written = written ++ blocks := by
  induction h with
  | nil => exact absurd rfl hS
  | @cons d body S bodies hbody hrest ih =>
    obtain ⟨hd, hworded⟩ := List.forall_mem_cons.mp hworded
    obtain ⟨hline, hclear⟩ := List.forall_mem_cons.mp hclear
    obtain ⟨b, hb, hfold⟩ := foldl_decl hd hbody fun line hmem => (hline line hmem).1
    have hlines : linesOf (d :: S) (body :: bodies) = (d.head :: body) ++ linesOf S bodies := rfl
    rw [hlines]
    cases S with
    | nil =>
      cases hrest
      refine ⟨[b], .cons hb .nil, fun written r hr => ?_⟩
      rw [linesOf, List.zipWith_nil_left, List.flatten_nil, List.append_nil, hfold written r hr, dynamic_holding]
    | cons d' S =>
      rw [List.dropLast_cons_of_ne_nil (List.cons_ne_nil _ _)] at hne
      obtain ⟨hdne, hne⟩ := List.forall_mem_cons.mp hne
      obtain ⟨blocks, hblocks, hfolds⟩ := ih hworded hclear hne (List.cons_ne_nil _ _)
      have hname : b.name ≠ [] := by
        rw [hb.name]
        exact (identifier_word (Decl.identifier_name hd)).2
      refine ⟨b :: blocks, .cons hb hblocks, fun written r hr => ?_⟩
      rw [List.foldl_append, hfold written r hr, hfolds _ _ (flush_holding hname (hb.isEmpty hdne)), List.append_assoc,
        List.singleton_append]

end Schemas

/-! ## Schemas that are read -/

theorem TypeText.infix_class {type : MemberType} {elem text : Text} (h : TypeText type elem text)
    (hinf : "class".toList <:+: text) : "class".toList <:+: elem := by
  cases h with
  | plain => exact hinf
  | vector ha hb =>
    rcases (infix_append_cons_iff (by decide) (by decide)).mp hinf with hinf | hinf
    · exact absurd hinf (by decide)
    rcases (infix_append_cons_iff (by decide) (by decide)).mp hinf with hinf | hinf
    · exact infix_around ha hb (by decide) (by decide) hinf
    · exact absurd (List.infix_nil.mp hinf) (by decide)
  | @map key _ _ container _ _ _ _ hcontainer ha hb hc hd =>
    have hhead : ¬ "class".toList <:+: container.toList := by rcases hcontainer with rfl | rfl <;> decide
    have hkey : ¬ "class".toList <:+: key.text.toList := by cases key <;> decide
    rcases (infix_append_cons_iff (by decide) (by decide)).mp hinf with hinf | hinf
    · exact absurd hinf hhead
    rcases (infix_append_cons_iff (by decide) (by decide)).mp hinf with hinf | hinf
    · exact absurd (infix_around ha hb (by decide) (by decide) hinf) hkey
    rcases (infix_append_cons_iff (by decide) (by decide)).mp hinf with hinf | hinf
    · exact infix_around hc hd (by decide) (by decide) hinf
    · exact absurd (List.infix_nil.mp hinf) (by decide)

theorem Shown.infix_class {type shown name : Text} (h : Shown type shown) (hinf : "class".toList <:+: shown ++ name) :
    "class".toList <:+: type ∨ "class".toList <:+: name := by
  cases h with
  | bare =>
    rw [List.append_assoc] at hinf
    exact (infix_append_cons_iff (by decide) (by decide)).mp hinf
  | quoted =>
    have hparts : quote :: type ++ [quote, ' '] ++ name =
        [] ++ quote :: (type ++ quote :: ([] ++ ' ' :: name)) := by simp
    rw [hparts] at hinf
    have hempty : ¬ "class".toList <:+: [] := fun h => absurd (List.infix_nil.mp h) (by decide)
    have hinf := ((infix_append_cons_iff (by decide) (by decide)).mp hinf).resolve_left hempty
    refine ((infix_append_cons_iff (by decide) (by decide)).mp hinf).imp id fun hinf => ?_
    exact ((infix_append_cons_iff (by decide) (by decide)).mp hinf).resolve_left hempty

theorem InitText.infix_class {text : String} {decl init : Text} (h : InitText text init)
    (hinf : "class".toList <:+: decl ++ init) : "class".toList <:+: decl ∨ "class".toList <:+: text.toList := by
  cases h with
  | none =>
    rw [List.append_nil] at hinf
    exact .inl hinf
  | some _ ha hb =>
    have hnil : Spaces [] := fun _ h => absurd h List.not_mem_nil
    rw [← List.append_assoc] at hinf
    refine ((infix_append_cons_iff (by decide) (by decide)).mp hinf).imp (fun hinf => ?_) fun hinf => ?_
    · exact infix_around hnil ha (by decide) (by decide) hinf
    · refine infix_around hb hnil (by decide) (by decide) ?_
      rwa [List.append_nil]

theorem InitText.not_mem {text : String} {init : Text} (h : InitText text init) {c : Char} (hc : c ∉ text.toList)
    (hspace : c ≠ ' ') (hequals : c ≠ '=') : c ∉ init := by
  cases h with
  | none => exact List.not_mem_nil
  | some _ ha hb =>
    rw [List.mem_append, List.mem_cons, List.mem_append, not_or, not_or, not_or]
    exact ⟨spaces_not_mem ha hspace, hequals, spaces_not_mem hb hspace, hc⟩

section Members

variable {m : Member}

theorem line_clear {line : Text} (hname : identifier m.name = true) (htype : m.type.elem.worded = true)
    (hreads : m.reads = true) (h : MemberLine m line) : includes line "class" = false ∧ kept line = true := by
  simp only [Member.reads, List.all_cons, List.all_nil, Bool.and_true, Bool.and_eq_true, Bool.not_eq_true', includes,
    decide_eq_false_iff_not, List.contains_eq_mem] at hreads
  obtain ⟨⟨⟨hnameClass, htypeClass, hinitClass⟩, hinitHash⟩, -⟩ := hreads
  obtain ⟨isconst, type, shown, init, htypetext, hshown, hinit, rfl, -, -, hnot⟩ := h.decl hname htype
  refine ⟨decide_eq_false fun hinf => ?_, kept_iff.mpr ⟨?_, ?_⟩⟩
  · rcases hinit.infix_class hinf with hinf | hinf
    · have hrest : "class".toList <:+: shown ++ m.name.toList := by
        cases isconst with
        | false => exact hinf
        | true =>
          have hconst : "class".toList <:+: "const".toList ++ ' ' :: (shown ++ m.name.toList) := hinf
          exact ((infix_append_cons_iff (by decide) (by decide)).mp hconst).resolve_left (by decide)
      rcases hshown.infix_class hrest with hinf | hinf
      · exact htypeClass (htypetext.infix_class hinf)
      · exact hnameClass hinf
    · exact hinitClass hinf
  · have hne : shown ++ m.name.toList ≠ [] := List.append_ne_nil_of_right_ne_nil _ (identifier_word hname).2
    exact List.append_ne_nil_of_left_ne_nil (List.append_ne_nil_of_right_ne_nil _ hne) _
  · rw [List.mem_append, not_or]
    exact ⟨hnot '#' (by decide) (by decide), hinit.not_mem hinitHash (by decide) (by decide)⟩

theorem annotation_clear {lines : List Text} (hclass : includes m.serializeName.toList "class" = false)
    (hhash : '#' ∉ m.serializeName.toList) (h : AnnotationLines m lines) :
    ∀ line ∈ lines, includes line "class" = false ∧ kept line = true := by
  cases h with
  | none => exact fun line hline => absurd hline List.not_mem_nil
  | some _ =>
    intro line hline
    obtain rfl := List.mem_singleton.mp hline
    have hopt : ∀ b : Bool, '#' ∉ (if b then "|optional".toList else []) := by decide
    refine ⟨decide_eq_false fun hinf => ?_,
      kept_iff.mpr ⟨List.append_ne_nil_of_right_ne_nil _ (List.cons_ne_nil _ _), ?_⟩⟩
    · have hparts : "class".toList <:+: "@SR".toList ++ '(' ::
          ((m.serializeName.toList ++ if m.isoptional then "|optional".toList else []) ++ ')' :: []) := hinf
      have hinner := ((infix_append_cons_iff (by decide) (by decide)).mp hparts).resolve_left (by decide)
      have hinner := ((infix_append_cons_iff (by decide) (by decide)).mp hinner).resolve_right fun h =>
        absurd (List.infix_nil.mp h) (by decide)
      rw [includes, decide_eq_false_iff_not] at hclass
      cases hb : m.isoptional with
      | false =>
        rw [hb, if_neg (by simp), List.append_nil] at hinner
        exact hclass hinner
      | true =>
        rw [hb, if_pos rfl] at hinner
        have hboth : "class".toList <:+: m.serializeName.toList ++ '|' :: "optional".toList := hinner
        rcases (infix_append_cons_iff (by decide) (by decide)).mp hboth with h | h
        · exact hclass h
        · exact absurd h (by decide)
    · rw [List.mem_append, List.mem_append, List.mem_append, not_or, not_or, not_or]
      exact ⟨⟨by decide, hhash, hopt m.isoptional⟩, by decide⟩

theorem memberOf_readAs {read : Text × MemberInfo} (hname : identifier m.name = true)
    (htype : m.type.elem.worded = true) (hreads : m.reads = true) (h : ReadAs m read) :
    read.1 = m.name.toList ∧ memberOf read = some m.asRead := by
  obtain ⟨annot, line, hline, rfl, hser, hopt⟩ := h
  simp only [Member.reads, List.all_cons, List.all_nil, Bool.and_true, Bool.and_eq_true, Bool.not_eq_true'] at hreads
  obtain ⟨-, hnameConst, htypeConst⟩ := hreads
  rw [← removeConst_eq_self_iff] at hnameConst htypeConst
  obtain ⟨hinit, -, hread⟩ := memberInfo_line annot hline hname htype
  rw [hnameConst, htypeConst, typeNameOf_text htype, Option.map_some, MemberType.withElem_elem] at hread
  obtain ⟨hnameRead, htypeRead⟩ := hread (identifier_word hname).2 (TypeName.text_ne_nil htype)
  refine ⟨hnameRead, ?_⟩
  rw [memberOf, htypeRead, hnameRead, hser, hopt, hinit, Option.map_some]
  simp only [String.ofList_toList]
  rfl

end Members

theorem setMember_of_not_mem {members : List (Text × MemberInfo)} {m : Text × MemberInfo}
    (h : m.1 ∉ members.map (·.1)) : setMember members m = members ++ [m] := by
  refine if_neg fun hany => ?_
  obtain ⟨n, hn, hname⟩ := List.any_eq_true.mp hany
  exact h (List.mem_map.mpr ⟨n, hn, by simpa using hname⟩)

/-- Different names are all kept. -/
theorem foldl_setMember_of_nodup (reads members : List (Text × MemberInfo))
    (h : ((members ++ reads).map (·.1)).Nodup) : reads.foldl setMember members = members ++ reads := by
  induction reads generalizing members with
  | nil => simp
  | cons read reads ih =>
    have hnot : read.1 ∉ members.map (·.1) := by
      rw [List.map_append, List.map_cons, List.nodup_append'] at h
      exact fun hmem => h.2.2 hmem List.mem_cons_self
    rw [List.foldl_cons, setMember_of_not_mem hnot, ih _ (by rwa [List.append_assoc]), List.append_assoc,
      List.singleton_append]

section Declarations

variable {d : Decl}

theorem block_decl {b : Block} (hworded : d.worded = true) (hreads : d.reads = true)
    (hnames : ∀ c, d = .cls c → (c.members.map (·.name)).Nodup) (h : BlockOf d b) : b.decl = some d.asRead := by
  cases d with
  | enumclass e =>
    rw [BlockOf] at h
    subst h
    have htype : (if e.enumType.text.toList = "string".toList then EnumType.string else EnumType.int) = e.enumType := by
      cases e.enumType <;> decide
    rw [Block.decl, htype, List.map_map]
    simp [Decl.asRead, Function.comp_def]
  | cls c =>
    obtain ⟨reads, hreadAs, rfl⟩ := h
    simp only [Decl.worded, Decl.reads, Bool.and_eq_true, List.all_eq_true] at hworded hreads
    have hread :
        List.Forall₂ (fun m read => read.1 = m.name.toList ∧ memberOf read = some m.asRead) c.members reads := by
      refine ((List.forall₂_and_left _ _).mpr ⟨fun m hm => hm, hreadAs⟩).imp fun m read h => ?_
      obtain ⟨hname, htype⟩ := hworded.2 m h.1
      exact memberOf_readAs hname htype (hreads m h.1) h.2
    have hnodup : (reads.map (·.1)).Nodup := by
      have hmap : List.Forall₂ (· = ·) (c.members.map (·.name.toList)) (reads.map (·.1)) := by
        rw [List.forall₂_map_left_iff, List.forall₂_map_right_iff]
        exact hread.imp fun m read h => h.1.symm
      have hinj : Function.Injective String.toList := fun a b h => String.toList_inj.mp h
      have hlist := (hnames c rfl).map hinj
      rw [List.forall₂_eq_eq_eq] at hmap
      rwa [List.map_map, ← hmap] at *
    have hmembers : reads.mapM memberOf = some (c.members.map Member.asRead) := by
      rw [mapM_eq_some_iff, List.forall₂_map_right_iff]
      exact hread.flip.imp fun read m h => h.2
    rw [foldl_setMember_of_nodup reads [] (by simpa using hnodup), List.nil_append, Block.decl, hmembers]
    simp [Decl.asRead, ClassDecl.asRead]

theorem headName_enumclass {e : EnumDecl} (hname : identifier e.name = true) :
    headName "enumclass" 3 (Decl.enumclass e).head = some e.name ∧
      headName "class" 2 (Decl.enumclass e).head = none := by
  have hword : Word e.name.toList := (identifier_word hname).1
  rw [headName, headName, includes_head, splitOn_head_enumclass hname]
  simp [trim_word hword]

theorem headName_cls {c : ClassDecl} (hname : identifier c.name = true) :
    headName "enumclass" 3 (Decl.cls c).head = none ∧ headName "class" 2 (Decl.cls c).head = some c.name := by
  have hword : Word c.name.toList := (identifier_word hname).1
  rw [headName, headName, includes_head, splitOn_head_cls hname]
  simp [trim_word hword]

end Declarations

theorem body_clear {d : Decl} {body : List Text} (hworded : d.worded = true) (hreads : d.reads = true)
    (hkeys : d.keysRead = true) (h : BodyLines d body) :
    ∀ line ∈ body, includes line "class" = false ∧ kept line = true := by
  cases d with
  | enumclass e =>
    simp only [Decl.worded, Decl.reads, Bool.and_eq_true, List.all_eq_true, Bool.not_eq_true'] at hworded hreads
    rw [BodyLines] at h
    subst h
    intro line hline
    obtain ⟨item, hitem, rfl⟩ := List.mem_map.mp hline
    obtain ⟨hword, hne⟩ := identifier_word (hworded.2 item hitem)
    exact ⟨hreads item hitem, kept_iff.mpr ⟨hne, hword.not_mem (by decide)⟩⟩
  | cls c =>
    simp only [Decl.worded, Decl.reads, Decl.keysRead, Bool.and_eq_true, List.all_eq_true, Bool.not_eq_true',
      List.contains_eq_mem, decide_eq_false_iff_not] at hworded hreads hkeys
    obtain ⟨parts, hparts, rfl⟩ := h
    intro line hline
    obtain ⟨part, hpart, hline⟩ := List.mem_flatten.mp hline
    obtain ⟨m, hm, annot, own, hannot, hown, rfl⟩ := exists_left_of_mem hparts hpart
    obtain ⟨hname, htype⟩ := hworded.2 m hm
    obtain ⟨⟨hclass, hhash⟩, -⟩ := hkeys m hm
    rcases List.mem_append.mp hline with hline | hline
    · exact annotation_clear hclass hhash hannot line hline
    · rw [List.mem_singleton.mp hline]
      exact line_clear hname htype (hreads m hm) hown

section Schemas

variable {S : Schema} {bodies : List (List Text)} {config : List Text}

theorem clear_of_reads (hworded : ∀ d ∈ S, d.worded = true) (hreads : ∀ d ∈ S, d.reads = true)
    (hkeys : ∀ d ∈ S, d.keysRead = true) (h : List.Forall₂ BodyLines S bodies) : Clear bodies := by
  intro body hbody
  obtain ⟨d, hd, hlines⟩ := exists_left_of_mem h hbody
  exact body_clear (hworded d hd) (hreads d hd) (hkeys d hd) hlines

theorem headName_none {line : Text} (h : includes line "class" = false) (word : String) (n : Nat) :
    headName word n line = none := by simp [headName, h]

/-- The heads are the classes and the enums. -/
theorem parseClassName_linesOf (hworded : ∀ d ∈ S, d.worded = true) (h : List.Forall₂ BodyLines S bodies)
    (hclear : Clear bodies) : parseClassName (linesOf S bodies) = S.known := by
  suffices hboth : (linesOf S bodies).filterMap (headName "enumclass" 3) = S.enums.map (·.name) ∧
      (linesOf S bodies).filterMap (headName "class" 2) = S.classes.map (·.name) by
    rw [parseClassName, hboth.1, hboth.2, Schema.known]
  induction h with
  | nil => exact ⟨rfl, rfl⟩
  | @cons d body S bodies _ _ ih =>
    obtain ⟨hd, hS⟩ := List.forall_mem_cons.mp hworded
    obtain ⟨hbody, hrest⟩ := List.forall_mem_cons.mp hclear
    obtain ⟨henums, hclasses⟩ := ih hS hrest
    have hlines : linesOf (d :: S) (body :: bodies) = (d.head :: body) ++ linesOf S bodies := rfl
    have hnone : ∀ word n, body.filterMap (headName word n) = [] := fun word n =>
      List.filterMap_eq_nil_iff.mpr fun line hline => headName_none (hbody line hline).1 word n
    rw [hlines, List.filterMap_append, List.filterMap_append, henums, hclasses]
    cases d with
    | enumclass e =>
      obtain ⟨hsome, hother⟩ := headName_enumclass (Decl.identifier_name hd)
      rw [List.filterMap_cons_some hsome, List.filterMap_cons_none hother, hnone, hnone]
      exact ⟨rfl, rfl⟩
    | cls c =>
      obtain ⟨hother, hsome⟩ := headName_cls (Decl.identifier_name hd)
      rw [List.filterMap_cons_some hsome, List.filterMap_cons_none hother, hnone, hnone]
      exact ⟨rfl, rfl⟩

/-- A schema that reads is read from every text of it. -/
theorem parse_of_reads (hwritten : Written S config) (hreads : S.reads = true)
    (hkeys : ∀ d ∈ S, d.keysRead = true) (hnames : ∀ c, Decl.cls c ∈ S → (c.members.map (·.name)).Nodup) :
    (parse (load config)).mapM Block.decl = some S.asRead ∧ parseClassName (load config) = S.known := by
  obtain ⟨hworded, _, ⟨bodies, hbodies, rfl⟩, hspread⟩ := hwritten
  simp only [Schema.reads, Bool.and_eq_true, Bool.not_eq_true', List.all_eq_true, List.isEmpty_eq_false_iff] at hreads
  obtain ⟨⟨hS, hne⟩, hdecls⟩ := hreads
  have hclear := clear_of_reads hworded hdecls hkeys hbodies
  have hload : load config = linesOf S bodies := by
    rw [load_spread hspread]
    exact filter_linesOf hworded hbodies hclear
  obtain ⟨blocks, hblocks, hfold⟩ := foldl_schema hworded hbodies hclear hne hS
  have hparse : parse (load config) = blocks := by
    rw [hload]
    exact hfold [] {} rfl
  refine ⟨?_, ?_⟩
  · rw [hparse, mapM_eq_some_iff, Schema.asRead, List.forall₂_map_right_iff]
    refine (((List.forall₂_and_left _ _).mpr ⟨fun d hd => hd, hblocks⟩).imp fun d b h => ?_).flip
    exact block_decl (hworded d h.1) (hdecls d h.1) (fun c hc => hnames c (hc ▸ h.1)) h.2
  · rw [hload]
    exact parseClassName_linesOf hworded hbodies hclear

end Schemas

end PredictorService.BuildTools
