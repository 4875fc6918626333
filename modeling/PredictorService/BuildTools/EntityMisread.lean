/-
  PredictorService.BuildTools.EntityMisread — of a schema that does not read, the generator
  makes another one (`reads_of_parse`).

  Every member and every item stands in one line, and no line brings more than one. So a
  line that is taken for a head or a comment is missing in the end, and a declaration that
  another one is written over as well. When no line is lost, every line has brought its own
  member, whose name and type are without every `const`.
-/

import Mathlib
import PredictorService.BuildTools.EntityReading

namespace PredictorService.BuildTools

open PredictorService.Lib

/-! ## Members and items are counted -/

/-- An annotation is an item where an enum is being read. -/
def items (lines : List Text) : Nat := lines.countP fun line => (annotationOf line).isNone

def Block.size : Block → Nat
  | .enumclass _ _ lines => items lines
  | .cls _ members => members.length

def Reading.size (r : Reading) : Nat := (r.written.map Block.size).sum + r.members.length + items r.enums

/-- How many members or items a line brings at most. -/
def brings (line : Text) : Nat :=
  if kept line && !includes line "class" && (annotationOf line).isNone then 1 else 0

theorem enclosed_eq_some {left : String} {right : Char} {s inner : Text} (h : enclosed left right s = some inner) :
    s = left.toList ++ inner ++ [right] := by
  unfold enclosed at h
  split at h
  · rename_i hprefix
    obtain ⟨rest, rfl⟩ := hprefix
    dsimp only at h
    rw [List.drop_left] at h
    split at h
    · rename_i hlast
      cases h
      rw [List.append_assoc, List.dropLast_append_getLast? right hlast]
    · cases h
  · cases h

theorem trim_of_annotationOf {line : Text} (h : (annotationOf line).isSome = true) : trim line = line := by
  rw [annotationOf, Option.isSome_map, Option.isSome_iff_exists] at h
  obtain ⟨inner, h⟩ := h
  rw [enclosed_eq_some h]
  exact trimBy_of_ends (.between (c := '@') (by decide) (by decide) ("SR(".toList ++ inner))

section Size

variable (r : Reading)

theorem size_dynamic : r.dynamic.size = (r.dynamic.written.map Block.size).sum := by
  simp [Reading.size, Reading.dynamic, items]

theorem size_dynamic_le : r.dynamic.size ≤ r.size := by
  have hblock : r.block.size ≤ r.members.length + items r.enums := by
    unfold Reading.block
    split
    · exact Nat.le_add_left _ _
    · exact Nat.le_add_right _ _
  rw [size_dynamic, Reading.dynamic, Reading.size, List.map_append, List.sum_append]
  simp only [List.map_cons, List.map_nil, List.sum_cons, List.sum_nil]
  omega

theorem size_flush_le : r.flush.size ≤ r.size := by
  unfold Reading.flush
  split
  · exact size_dynamic_le r
  · exact le_rfl

theorem size_parseClass_le (line : Text) : (r.parseClass line).size ≤ r.size := by
  have hflush := size_flush_le r
  unfold Reading.parseClass
  split
  · split <;> exact hflush
  · split <;> exact hflush
  · exact hflush

theorem length_setMember_le (members : List (Text × MemberInfo)) (m : Text × MemberInfo) :
    (setMember members m).length ≤ members.length + 1 := by
  unfold setMember
  split
  · rw [List.length_map]
    exact Nat.le_succ _
  · rw [List.length_append, List.length_singleton]

theorem size_parseEnum_le (line : Text) :
    (r.parseEnum line).size ≤ r.size + if (annotationOf line).isNone then 1 else 0 := by
  have hitem : items [trim line] ≤ if (annotationOf line).isNone then 1 else 0 := by
    cases h : annotationOf line with
    | none => exact List.countP_le_length
    | some annot =>
      rw [trim_of_annotationOf (by rw [h]; rfl), items, List.countP_singleton, h]
  rw [Reading.size, Reading.parseEnum, Reading.size]
  dsimp only
  rw [items, List.countP_append]
  unfold items at *
  omega

theorem size_parseMember_le (line : Text) :
    (r.parseMember line).size ≤ r.size + if (annotationOf line).isNone then 1 else 0 := by
  unfold Reading.parseMember
  cases h : annotationOf line with
  | some annot => exact Nat.le_add_right _ _
  | none =>
    have hset := length_setMember_le r.members (memberInfo r.annotationOption line)
    simp only [Reading.size, Option.isNone_none, if_true]
    omega

theorem size_parseLine_le {line : Text} (hkept : kept line = true) :
    (r.parseLine line).size ≤ r.size + brings line := by
  unfold Reading.parseLine brings
  rw [hkept]
  cases hclass : includes line "class" with
  | true => exact (size_parseClass_le r line).trans (Nat.le_add_right _ _)
  | false =>
    simp only [Bool.not_false, Bool.true_and, Bool.false_eq_true, if_false]
    split
    · exact size_parseEnum_le r line
    · exact size_parseMember_le r line

theorem size_foldl_le (data : List Text) (hkept : ∀ line ∈ data, kept line = true) :
    (data.foldl Reading.parseLine r).size ≤ r.size + (data.map brings).sum := by
  induction data generalizing r with
  | nil => exact le_rfl
  | cons line data ih =>
    obtain ⟨hline, hdata⟩ := List.forall_mem_cons.mp hkept
    have hstep := size_parseLine_le r hline
    have hrest := ih (r.parseLine line) hdata
    rw [List.foldl_cons, List.map_cons, List.sum_cons]
    omega

end Size

/-! ## No line is lost -/

/-- The members and items that a declaration stands for. -/
def Decl.size : Decl → Nat
  | .enumclass e => e.items.length
  | .cls c => c.members.length

theorem brings_le_one (line : Text) : brings line ≤ 1 := by
  unfold brings
  split <;> decide

theorem clear_of_brings {line : Text} (h : 1 ≤ brings line) : includes line "class" = false ∧ kept line = true := by
  unfold brings at h
  split at h
  · rename_i hall
    simp only [Bool.and_eq_true, Bool.not_eq_true'] at hall
    exact ⟨hall.1.2, hall.1.1⟩
  · exact absurd h (by decide)

theorem sum_brings_filter (lines : List Text) : ((lines.filter kept).map brings).sum = (lines.map brings).sum := by
  induction lines with
  | nil => rfl
  | cons line lines ih =>
    by_cases h : kept line = true
    · rw [List.filter_cons_of_pos h, List.map_cons, List.map_cons, List.sum_cons, List.sum_cons, ih]
    · have hzero : brings line = 0 := by simp [brings, Bool.not_eq_true] at h ⊢; simp [h]
      rw [List.filter_cons_of_neg h, List.map_cons, List.sum_cons, ih, hzero, Nat.zero_add]

/-- No more is written than the lines bring. -/
theorem size_parse_le (lines : List Text) :
    ((parse (lines.filter kept)).map Block.size).sum ≤ (lines.map brings).sum := by
  have hfold := size_foldl_le {} (lines.filter kept) fun line hline => (List.mem_filter.mp hline).2
  have hdynamic := size_dynamic_le ((lines.filter kept).foldl Reading.parseLine {})
  rw [size_dynamic] at hdynamic
  rw [sum_brings_filter] at hfold
  have hzero : Reading.size {} = 0 := rfl
  rw [parse]
  omega

theorem brings_head (d : Decl) : brings d.head = 0 := by
  rw [brings, includes_head]
  simp

/-- What the lines bring, and when nothing is lost of it. -/
def Accounts (size : Nat) (lines : List Text) : Prop :=
  (lines.map brings).sum ≤ size ∧
    (size ≤ (lines.map brings).sum → ∀ line ∈ lines, includes line "class" = false ∧ kept line = true)

theorem accounts_line (line : Text) : Accounts 1 [line] := by
  refine ⟨by simpa using brings_le_one line, fun h => ?_⟩
  rw [List.forall_mem_singleton]
  exact clear_of_brings (by simpa using h)

theorem Accounts.append {m n : Nat} {lines lines' : List Text} (h : Accounts m lines) (h' : Accounts n lines') :
    Accounts (m + n) (lines ++ lines') := by
  obtain ⟨hle, hclear⟩ := h
  obtain ⟨hle', hclear'⟩ := h'
  rw [Accounts, List.map_append, List.sum_append]
  refine ⟨Nat.add_le_add hle hle', fun hsum => ?_⟩
  rw [List.forall_mem_append]
  exact ⟨hclear (by omega), hclear' (by omega)⟩

theorem accounts_flatten {α : Type} {size : α → Nat} {l : List α} {parts : List (List Text)}
    (h : List.Forall₂ (fun a part => Accounts (size a) part) l parts) : Accounts (l.map size).sum parts.flatten := by
  induction h with
  | nil => exact ⟨le_rfl, fun _ _ hline => absurd hline List.not_mem_nil⟩
  | cons hpart _ ih =>
    rw [List.map_cons, List.sum_cons, List.flatten_cons]
    exact hpart.append ih

theorem accounts_annotationLines {m : Member} {lines : List Text} (hclass : includes m.serializeName.toList "class" = false)
    (hhash : '#' ∉ m.serializeName.toList) (h : AnnotationLines m lines) : Accounts 0 lines := by
  have hclear := annotation_clear hclass hhash h
  refine ⟨?_, fun _ => hclear⟩
  rcases annotationOf_lines h with ⟨rfl, -, -⟩ | ⟨line, rfl, hline⟩
  · exact le_rfl
  · simp [brings, hline]

theorem accounts_body {d : Decl} {body : List Text} (hkeys : d.keysRead = true) (h : BodyLines d body) :
    Accounts d.size body := by
  cases d with
  | enumclass e =>
    rw [BodyLines] at h
    subst h
    have hitems : List.Forall₂ (fun _ part => Accounts 1 part) e.items (e.items.map fun item => [item.toList]) := by
      rw [List.forall₂_map_right_iff, List.forall₂_same]
      exact fun item _ => accounts_line item.toList
    have hall := accounts_flatten hitems
    rw [← List.flatMap_def, ← List.map_eq_flatMap, List.map_const', List.sum_replicate] at hall
    simpa [Decl.size] using hall
  | cls c =>
    simp only [Decl.keysRead, List.all_eq_true, Bool.and_eq_true, Bool.not_eq_true', List.contains_eq_mem,
      decide_eq_false_iff_not] at hkeys
    obtain ⟨parts, hparts, rfl⟩ := h
    have hmembers : List.Forall₂ (fun _ part => Accounts 1 part) c.members parts := by
      refine ((List.forall₂_and_left _ _).mpr ⟨fun m hm => hm, hparts⟩).imp fun m part h => ?_
      obtain ⟨hm, annot, line, hannot, -, rfl⟩ := h
      exact (accounts_annotationLines (hkeys m hm).1.1 (hkeys m hm).1.2 hannot).append (accounts_line line)
    have hall := accounts_flatten hmembers
    rw [List.map_const', List.sum_replicate] at hall
    simpa [Decl.size] using hall

theorem sum_brings_linesOf {S : Schema} {bodies : List (List Text)} (h : List.Forall₂ BodyLines S bodies) :
    ((linesOf S bodies).map brings).sum = (bodies.flatten.map brings).sum := by
  induction h with
  | nil => rfl
  | @cons d body S bodies _ _ ih =>
    have hlines : linesOf (d :: S) (body :: bodies) = (d.head :: body) ++ linesOf S bodies := rfl
    rw [hlines, List.map_append, List.sum_append, ih, List.map_cons, List.sum_cons, brings_head, Nat.zero_add,
      List.flatten_cons, List.map_append, List.sum_append]

section Schemas

variable {S header : Schema} {bodies : List (List Text)}

theorem Block.size_decl {b : Block} {d : Decl} (h : b.decl = some d)
    (hd : ∀ e, d = .enumclass e → ∀ item ∈ e.items, identifier item = true) : b.size = d.size := by
  cases b with
  | enumclass name enumType lines =>
    cases h
    have hitems := hd _ rfl
    rw [List.forall_mem_map] at hitems
    show items lines = (lines.map String.ofList).length
    rw [List.length_map, items, List.countP_eq_length]
    intro line hline
    have hword := (identifier_word (hitems line hline)).1
    rw [String.toList_ofList] at hword
    have hprefix : ¬ "@SR(".toList <+: line := fun h => hword.not_mem (c := '@') (by decide) (h.subset (by decide))
    rw [annotationOf, enclosed_eq_none hprefix]
    rfl
  | cls name members =>
    rw [Block.decl, Option.map_eq_some_iff] at h
    obtain ⟨ms, hms, rfl⟩ := h
    exact (mapM_eq_some_iff.mp hms).length_eq

theorem Decl.size_declared (d : Decl) : d.declared.size = d.size := by
  cases d with
  | enumclass e => rfl
  | cls c => exact List.length_map _

theorem SameTypes.mem_enumclass (h : SameTypes S header) {e : EnumDecl} (he : Decl.enumclass e ∈ header) :
    Decl.enumclass e ∈ S := by
  have hmem : Decl.enumclass e ∈ header.map Decl.declared := List.mem_map.mpr ⟨_, he, rfl⟩
  rw [SameTypes] at h
  rw [h, List.mem_map] at hmem
  obtain ⟨d, hd, heq⟩ := hmem
  cases d with
  | enumclass e' =>
    cases heq
    exact hd
  | cls c => cases heq

theorem SameTypes.sum_size (h : SameTypes S header) : (header.map Decl.size).sum = (S.map Decl.size).sum := by
  have hsize : ∀ S : Schema, S.map Decl.size = (S.map Decl.declared).map Decl.size := fun S => by
    rw [List.map_map]
    exact List.map_congr_left fun d _ => d.size_declared.symm
  rw [hsize, hsize S, h]

/-- When all members and items come out, no line was lost. -/
theorem clear_of_parse (hworded : ∀ d ∈ S, d.worded = true) (hkeys : ∀ d ∈ S, d.keysRead = true)
    (hbodies : List.Forall₂ BodyLines S bodies)
    (hheader : (parse ((linesOf S bodies).filter kept)).mapM Block.decl = some header) (hsame : SameTypes S header) :
    Clear bodies := by
  have hblocks := mapM_eq_some_iff.mp hheader
  have hsizes : (parse ((linesOf S bodies).filter kept)).map Block.size = header.map Decl.size := by
    symm
    rw [← List.forall₂_eq_eq_eq, List.forall₂_map_left_iff, List.forall₂_map_right_iff]
    refine ((List.forall₂_and_left _ _).mpr ⟨fun d hd => hd, hblocks.flip⟩).imp fun d b h => ?_
    refine (Block.size_decl h.2 fun e he item hitem => ?_).symm
    subst he
    have he := hworded _ (hsame.mem_enumclass h.1)
    simp only [Decl.worded, Bool.and_eq_true, List.all_eq_true] at he
    exact he.2 item hitem
  have hread := size_parse_le (linesOf S bodies)
  rw [hsizes, hsame.sum_size, sum_brings_linesOf hbodies] at hread
  have hall : Accounts (S.map Decl.size).sum bodies.flatten := by
    refine accounts_flatten (((List.forall₂_and_left _ _).mpr ⟨fun d hd => hd, hbodies⟩).imp fun d body h => ?_)
    exact accounts_body (hkeys d h.1) h.2
  intro body hbody line hline
  exact hall.2 hread line (List.mem_flatten.mpr ⟨body, hbody, hline⟩)

end Schemas

/-! ## No declaration is lost -/

section Written

variable (r : Reading)

/-- A head lets one block be written. -/
theorem length_written_flush_le : r.flush.written.length ≤ r.written.length + 1 := by
  unfold Reading.flush
  split
  · rw [Reading.dynamic, List.length_append, List.length_singleton]
  · exact Nat.le_succ _

theorem written_parseClass (line : Text) : (r.parseClass line).written = r.flush.written := by
  unfold Reading.parseClass
  split
  · split <;> rfl
  · split <;> rfl
  · rfl

theorem written_parseLine {line : Text} (hclass : includes line "class" = false) :
    (r.parseLine line).written = r.written := by
  rw [Reading.parseLine, hclass, if_neg (by simp)]
  split
  · rfl
  · unfold Reading.parseMember
    split <;> rfl

theorem written_foldl {body : List Text} (hbody : ∀ line ∈ body, includes line "class" = false) :
    (body.foldl Reading.parseLine r).written = r.written := by
  induction body generalizing r with
  | nil => rfl
  | cons line body ih =>
    obtain ⟨hline, hbody⟩ := List.forall_mem_cons.mp hbody
    rw [List.foldl_cons, ih _ hbody, written_parseLine r hline]

theorem written_decl (d : Decl) {body : List Text} (hbody : ∀ line ∈ body, includes line "class" = false) :
    ((d.head :: body).foldl Reading.parseLine r).written = r.flush.written := by
  rw [List.foldl_cons, written_foldl _ hbody, Reading.parseLine, includes_head, if_pos rfl, written_parseClass]

end Written

theorem length_written_le {S : Schema} {bodies : List (List Text)} (hbodies : List.Forall₂ BodyLines S bodies)
    (hclear : Clear bodies) (r : Reading) :
    ((linesOf S bodies).foldl Reading.parseLine r).written.length ≤ r.written.length + S.length := by
  induction hbodies generalizing r with
  | nil => exact le_rfl
  | @cons d body S bodies _ _ ih =>
    obtain ⟨hbody, hclear⟩ := List.forall_mem_cons.mp hclear
    have hlines : linesOf (d :: S) (body :: bodies) = (d.head :: body) ++ linesOf S bodies := rfl
    have hrest := ih hclear ((d.head :: body).foldl Reading.parseLine r)
    rw [written_decl r d fun line hline => (hbody line hline).1] at hrest
    have hflush := length_written_flush_le r
    rw [hlines, List.foldl_append, List.length_cons]
    omega

theorem BlockOf.isEmpty_of_isEmpty {d : Decl} {b : Block} (h : BlockOf d b) (he : d.isEmpty = true) :
    b.isEmpty = true := by
  cases d with
  | enumclass e =>
    rw [BlockOf] at h
    subst h
    simpa [Block.isEmpty, Decl.isEmpty] using he
  | cls c =>
    obtain ⟨reads, hreads, rfl⟩ := h
    have hmembers : c.members = [] := by simpa [Decl.isEmpty] using he
    rw [hmembers] at hreads
    cases hreads
    rfl

theorem flush_holding_empty {written : List Block} {b : Block} (h : b.isEmpty = true) :
    (holding written b).flush = holding written b := by
  cases b <;> simp_all [holding, Reading.flush, Block.isEmpty]

/-- When as many blocks are written as are declared, each but the last has a member or an
    item. -/
theorem nonempty_of_length {S : Schema} {bodies : List (List Text)} (hworded : ∀ d ∈ S, d.worded = true)
    (hbodies : List.Forall₂ BodyLines S bodies) (hclear : Clear bodies) {written : List Block} {r : Reading}
    (hr : r.flush = { written := written })
    (hlen : written.length + S.length ≤ ((linesOf S bodies).foldl Reading.parseLine r).dynamic.written.length) :
    ∀ d ∈ S.dropLast, d.isEmpty = false := by
  induction hbodies generalizing written r with
  | nil => exact fun d hd => absurd hd List.not_mem_nil
  | @cons d body S bodies hbody hrest ih =>
    obtain ⟨hd, hworded⟩ := List.forall_mem_cons.mp hworded
    obtain ⟨hline, hclear⟩ := List.forall_mem_cons.mp hclear
    obtain ⟨b, hb, hfold⟩ := foldl_decl hd hbody fun line hmem => (hline line hmem).1
    have hlines : linesOf (d :: S) (body :: bodies) = (d.head :: body) ++ linesOf S bodies := rfl
    rw [hlines, List.foldl_append, hfold written r hr] at hlen
    cases hrest with
    | nil => exact fun d hd => absurd hd List.not_mem_nil
    | @cons d' body' S bodies hbody' hrest =>
      have hname : b.name ≠ [] := by
        rw [hb.name]
        exact (identifier_word (Decl.identifier_name hd)).2
      cases hempty : d.isEmpty with
      | false =>
        have hflush : (holding written b).flush = { written := written ++ [b] } :=
          flush_holding hname (hb.isEmpty hempty)
        rw [List.dropLast_cons_of_ne_nil (List.cons_ne_nil _ _), List.forall_mem_cons]
        refine ⟨hempty, ih hworded hclear hflush ?_⟩
        simp only [List.length_append, List.length_cons, List.length_nil] at hlen ⊢
        omega
      | true =>
        -- the next head writes nothing
        obtain ⟨hbody', hclear⟩ := List.forall_mem_cons.mp hclear
        have hlines' : linesOf (d' :: S) (body' :: bodies) = (d'.head :: body') ++ linesOf S bodies := rfl
        have hwritten := length_written_le hrest hclear ((d'.head :: body').foldl Reading.parseLine (holding written b))
        rw [written_decl _ d' fun line hline => (hbody' line hline).1,
          flush_holding_empty (hb.isEmpty_of_isEmpty hempty)] at hwritten
        have hheld : (holding written b).written = written := by cases b <;> rfl
        rw [hlines', List.foldl_append, Reading.dynamic] at hlen
        simp only [List.length_append, List.length_cons, List.length_nil, hheld] at hlen hwritten
        omega

/-! ## No member is changed -/

theorem length_foldl_setMember_le (reads members : List (Text × MemberInfo)) :
    (reads.foldl setMember members).length ≤ members.length + reads.length := by
  induction reads generalizing members with
  | nil => exact le_rfl
  | cons read reads ih =>
    have hset := length_setMember_le members read
    have hrest := ih (setMember members read)
    rw [List.foldl_cons, List.length_cons]
    omega

/-- When none is missing, none was written over. -/
theorem foldl_setMember_of_length (reads members : List (Text × MemberInfo))
    (h : members.length + reads.length ≤ (reads.foldl setMember members).length) :
    reads.foldl setMember members = members ++ reads := by
  induction reads generalizing members with
  | nil => simp
  | cons read reads ih =>
    have hrest := length_foldl_setMember_le reads (setMember members read)
    rw [List.foldl_cons, List.length_cons] at h
    have hset : setMember members read = members ++ [read] := by
      unfold setMember at hrest h ⊢
      split
      · rename_i hany
        rw [if_pos hany] at hrest h
        rw [List.length_map] at hrest
        omega
      · rfl
    rw [hset, List.length_append, List.length_singleton] at hrest
    rw [List.foldl_cons, hset, ih _ (by rw [hset] at h; rw [List.length_append, List.length_singleton]; omega),
      List.append_assoc, List.singleton_append]

theorem includes_eq_false {s t : Text} {word : String} (h : s <:+: t) (ht : includes t word = false) :
    includes s word = false := by
  rw [includes, decide_eq_false_iff_not] at ht ⊢
  exact fun hs => ht (hs.trans h)

theorem TypeText.elem_part {type : MemberType} {elem text : Text} (h : TypeText type elem text) : elem <:+: text := by
  cases h with
  | plain => exact List.infix_rfl
  | @vector _ _ a b => exact ⟨"std::vector".toList ++ '<' :: a, b ++ ['>'], by simp⟩
  | @map key _ _ container a b c d =>
    exact ⟨container.toList ++ '<' :: (a ++ key.text.toList ++ b ++ ',' :: c), d ++ ['>'], by simp⟩

theorem Shown.type_part {type shown : Text} (h : Shown type shown) : type <:+: shown := by
  cases h with
  | bare => exact ⟨[], [' '], rfl⟩
  | quoted => exact ⟨[quote], [quote, ' '], by simp⟩

theorem InitText.text_part {text : String} {init : Text} (h : InitText text init) : text.toList <:+: init := by
  cases h with
  | none => exact List.nil_infix
  | @some _ a b => exact ⟨a ++ '=' :: b, [], by simp⟩

section Members

variable {m : Member} {line : Text}

/-- What stands in the line. -/
theorem MemberLine.infixes (h : MemberLine m line) :
    m.name.toList <:+: line ∧ m.type.elem.text.toList <:+: line ∧ m.init.toList <:+: line := by
  cases h with
  | @mk isconst type shown init htype hshown hinit =>
    have hrest : shown ++ m.name.toList ++ init <:+:
        (if isconst then "const ".toList else []) ++ (shown ++ m.name.toList ++ init) := (List.suffix_append _ _).isInfix
    have hshown' : shown <:+: shown ++ m.name.toList ++ init := by
      rw [List.append_assoc]
      exact (List.prefix_append _ _).isInfix
    refine ⟨List.IsInfix.trans ⟨shown, init, rfl⟩ hrest, ?_, ?_⟩
    · exact htype.elem_part.trans (hshown.type_part.trans (hshown'.trans hrest))
    · exact hinit.text_part.trans ((List.suffix_append _ _).isInfix.trans hrest)

theorem includes_const_of_read {read : Text × MemberInfo} {m' : Member} (hname : identifier m.name = true)
    (htype : m.type.elem.worded = true) (hread : ReadAs m read) (hm' : memberOf read = some m')
    (hsame : m'.declared = m.declared) :
    includes m.name.toList "const" = false ∧ includes m.type.elem.text.toList "const" = false := by
  obtain ⟨annot, line, hline, rfl, -, -⟩ := hread
  rw [memberOf, Option.map_eq_some_iff] at hm'
  obtain ⟨type, htypeRead, rfl⟩ := hm'
  simp only [Member.declared, Member.mk.injEq, and_true] at hsame
  obtain ⟨hnameSame, rfl⟩ := hsame
  have hnameRead : (memberInfo annot line).1 = m.name.toList := by rw [← hnameSame, String.toList_ofList]
  obtain ⟨-, hcase, -⟩ := memberInfo_line annot hline hname htype
  rcases hcase with hnil | ⟨hnameErased, htypeErased⟩
  · exact absurd (hnameRead.symm.trans hnil) (identifier_word hname).2
  rw [← removeConst_eq_self_iff, ← removeConst_eq_self_iff]
  refine ⟨hnameErased.symm.trans hnameRead, ?_⟩
  rw [htypeRead] at htypeErased
  obtain ⟨t, ht, heq⟩ := Option.map_eq_some_iff.mp htypeErased.symm
  have helem : t = m.type.elem := m.type.withElem_injective (heq.trans m.type.withElem_elem.symm)
  cases hcases : m.type.elem with
  | pod p => exact removeConst_pod p
  | named n =>
    rw [helem, hcases] at ht
    exact typeNameOf_named ht

/-- The line is not taken for a head or a comment, and nothing is erased of it. -/
theorem reads_of_line {read : Text × MemberInfo} {m' : Member} (hname : identifier m.name = true)
    (htype : m.type.elem.worded = true) (hline : MemberLine m line)
    (hclear : includes line "class" = false ∧ kept line = true) (hread : ReadAs m read)
    (hm' : memberOf read = some m') (hsame : m'.declared = m.declared) : m.reads = true := by
  obtain ⟨hnameConst, htypeConst⟩ := includes_const_of_read hname htype hread hm' hsame
  obtain ⟨hnameInf, htypeInf, hinitInf⟩ := hline.infixes
  have hhash : '#' ∉ m.init.toList := fun h => (kept_iff.mp hclear.2).2 (hinitInf.subset h)
  simp only [Member.reads, List.all_cons, List.all_nil, Bool.and_true, Bool.and_eq_true, Bool.not_eq_true',
    List.contains_eq_mem, decide_eq_false_iff_not]
  exact ⟨⟨⟨includes_eq_false hnameInf hclear.1, includes_eq_false htypeInf hclear.1,
    includes_eq_false hinitInf hclear.1⟩, hhash⟩, hnameConst, htypeConst⟩

end Members

theorem decl_reads {d d' : Decl} {b : Block} {body : List Text} (hworded : d.worded = true) (hbody : BodyLines d body)
    (hclear : ∀ line ∈ body, includes line "class" = false ∧ kept line = true) (hb : BlockOf d b)
    (hd' : b.decl = some d') (hsame : d'.declared = d.declared) : d.reads = true := by
  cases d with
  | enumclass e =>
    rw [BodyLines] at hbody
    subst hbody
    simp only [Decl.reads, List.all_eq_true, Bool.not_eq_true']
    exact fun item hitem => (hclear _ (List.mem_map_of_mem hitem)).1
  | cls c =>
    obtain ⟨reads, hreads, rfl⟩ := hb
    obtain ⟨parts, hparts, rfl⟩ := hbody
    rw [Block.decl, Option.map_eq_some_iff] at hd'
    obtain ⟨ms, hms, rfl⟩ := hd'
    have hmembers : ms.map Member.declared = c.members.map Member.declared := by
      simpa [Decl.declared] using hsame
    have hlen : reads.length ≤ (reads.foldl setMember []).length := by
      rw [(mapM_eq_some_iff.mp hms).length_eq, ← List.length_map Member.declared, hmembers, List.length_map,
        hreads.length_eq]
    rw [foldl_setMember_of_length reads [] (by simpa using hlen), List.nil_append] at hms
    rw [← List.forall₂_eq_eq_eq, List.forall₂_map_left_iff, List.forall₂_map_right_iff] at hmembers
    have hcomp : List.Forall₂ (fun m m' => ∃ read, ReadAs m read ∧ memberOf read = some m') c.members ms :=
      forall₂_comp hreads (mapM_eq_some_iff.mp hms) fun m read m' h h' => ⟨read, h, h'⟩
    have hboth : List.Forall₂ (fun m m' => (∃ read, ReadAs m read ∧ memberOf read = some m') ∧
        m'.declared = m.declared) c.members ms := hcomp.mp (fun m m' h h' => ⟨h, h'⟩) hmembers.flip
    simp only [Decl.worded, Bool.and_eq_true, List.all_eq_true] at hworded
    simp only [Decl.reads, List.all_eq_true]
    intro m hm
    obtain ⟨hname, htype⟩ := hworded.2 m hm
    obtain ⟨part, hpart, annot, line, -, hline, rfl⟩ := exists_right_of_mem hparts hm
    obtain ⟨m', -, ⟨read, hread, hm'⟩, hdeclared⟩ := exists_right_of_mem hboth hm
    have hmem : line ∈ parts.flatten :=
      List.mem_flatten.mpr ⟨annot ++ [line], hpart, List.mem_append_right _ List.mem_cons_self⟩
    exact reads_of_line hname htype hline (hclear line hmem) hread hm' hdeclared

/-- Only a schema that reads is read with all its names and types. -/
theorem reads_of_parse {S header : Schema} {config : List Text} (hwritten : Written S config)
    (hkeys : ∀ d ∈ S, d.keysRead = true) (hheader : (parse (load config)).mapM Block.decl = some header)
    (hsame : SameTypes S header) : S.reads = true := by
  obtain ⟨hworded, _, ⟨bodies, hbodies, rfl⟩, hspread⟩ := hwritten
  have hload : load config = (linesOf S bodies).filter kept := load_spread hspread
  rw [hload] at hheader
  have hclear := clear_of_parse hworded hkeys hbodies hheader hsame
  rw [filter_linesOf hworded hbodies hclear] at hheader
  have hblocks := mapM_eq_some_iff.mp hheader
  have hlen : S.length = (parse (linesOf S bodies)).length := by
    rw [hblocks.length_eq, ← List.length_map Decl.declared, ← hsame, List.length_map]
  have hS : S ≠ [] := by
    rintro rfl
    simp [parse, Reading.dynamic] at hlen
  have hne : ∀ d ∈ S.dropLast, d.isEmpty = false := by
    refine nonempty_of_length hworded hbodies hclear (show Reading.flush {} = { written := [] } from rfl) ?_
    rw [List.length_nil, Nat.zero_add, hlen]
    exact le_rfl
  obtain ⟨blocks, hof, hfold⟩ := foldl_schema hworded hbodies hclear hne hS
  have hparse : parse (linesOf S bodies) = blocks := hfold [] {} rfl
  rw [hparse] at hblocks
  simp only [Schema.reads, Bool.and_eq_true, Bool.not_eq_true', List.all_eq_true, List.isEmpty_eq_false_iff]
  refine ⟨⟨hS, hne⟩, fun d hd => ?_⟩
  have hcomp : List.Forall₂ (fun d d' => ∃ b, BlockOf d b ∧ b.decl = some d') S header :=
    forall₂_comp hof hblocks fun d b d' h h' => ⟨b, h, h'⟩
  have hdeclared : List.Forall₂ (fun d' d => d'.declared = d.declared) header S := by
    rw [SameTypes, ← List.forall₂_eq_eq_eq, List.forall₂_map_left_iff, List.forall₂_map_right_iff] at hsame
    exact hsame
  have hboth : List.Forall₂ (fun d d' => (∃ b, BlockOf d b ∧ b.decl = some d') ∧ d'.declared = d.declared) S header :=
    hcomp.mp (fun d d' h h' => ⟨h, h'⟩) hdeclared.flip
  obtain ⟨body, hbody, hlines⟩ := exists_right_of_mem hbodies hd
  obtain ⟨d', -, ⟨b, hb, hd'⟩, hdeclared⟩ := exists_right_of_mem hboth hd
  exact decl_reads (hworded d hd) hlines (hclear body hbody) hb hd' hdeclared

/-- A member with `class` in its name is taken for a head. -/
example : parse (load ["class Box".toList, "  int32_t class_id".toList]) = [.cls "class_id".toList []] := by decide

end PredictorService.BuildTools
