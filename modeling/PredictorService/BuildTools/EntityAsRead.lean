/-
  PredictorService.BuildTools.EntityAsRead — cut off initializers change nothing but
  themselves.
-/

import PredictorService.BuildTools.EntityCodec
import PredictorService.BuildTools.EntityConfig

namespace PredictorService.BuildTools

section Schema

variable (S : Schema)

theorem enums_asRead : S.asRead.enums = S.enums := by
  rw [Schema.enums, Schema.asRead, List.filterMap_map, Schema.enums]
  refine List.filterMap_congr fun d _ => ?_
  cases d <;> rfl

theorem classes_asRead : S.asRead.classes = S.classes.map ClassDecl.asRead := by
  rw [Schema.classes, Schema.asRead, List.filterMap_map, Schema.classes, List.map_filterMap]
  refine List.filterMap_congr fun d _ => ?_
  cases d <;> rfl

theorem name_asRead (d : Decl) : d.asRead.name = d.name := by cases d <;> rfl

theorem known_asRead : S.asRead.known = S.known := by
  rw [Schema.known, enums_asRead, classes_asRead, List.map_map, Schema.known]
  rfl

theorem functions_asRead : S.asRead.functions = S.functions := by rw [Schema.functions, enums_asRead, Schema.functions]

theorem declared_asRead : S.asRead.map Decl.declared = S.map Decl.declared := by
  rw [Schema.asRead, List.map_map]
  refine List.map_congr_left fun d _ => ?_
  cases d with
  | enumclass e => rfl
  | cls c => simp [Decl.asRead, ClassDecl.asRead, Decl.declared, Member.asRead, Member.declared]

theorem findEnum_asRead (t : String) : S.asRead.findEnum t = S.findEnum t := by
  rw [Schema.findEnum, enums_asRead, Schema.findEnum]

theorem findClass_asRead (t : String) : S.asRead.findClass t = (S.findClass t).map ClassDecl.asRead := by
  rw [Schema.findClass, classes_asRead, List.find?_map, Schema.findClass]
  rfl

/-! ## Values -/

theorem typedMember_asRead {recur recur' : String → Value → Prop} (hrecur : ∀ cls v, recur cls v ↔ recur' cls v)
    (t : MemberType) (v : Value) : TypedMember S.asRead recur t v ↔ TypedMember S recur' t v := by
  have hitem : ∀ t v, TypedItem S.asRead recur t v ↔ TypedItem S recur' t v := by
    intro t v
    cases t with
    | pod p => exact Iff.rfl
    | named n =>
      rw [TypedItem, TypedItem, findEnum_asRead]
      cases S.findEnum n with
      | some e => exact Iff.rfl
      | none => exact hrecur n v
  cases t <;> simp only [TypedMember, hitem]

theorem typed_asRead (n : Nat) (cls : String) (v : Value) : Typed S.asRead n cls v ↔ Typed S n cls v := by
  induction n generalizing cls v with
  | zero => exact Iff.rfl
  | succ n ih =>
    simp only [Typed, findClass_asRead, Option.map_eq_some_iff]
    constructor
    · rintro ⟨_, vs, ⟨c, hc, rfl⟩, rfl, hvs⟩
      refine ⟨c, vs, hc, rfl, ?_⟩
      rw [ClassDecl.asRead, List.forall₂_map_left_iff] at hvs
      exact hvs.imp fun m v h => (typedMember_asRead S ih m.type v).mp h
    · rintro ⟨c, vs, hc, rfl, hvs⟩
      refine ⟨c.asRead, vs, ⟨c, hc, rfl⟩, rfl, ?_⟩
      rw [ClassDecl.asRead, List.forall₂_map_left_iff]
      exact hvs.imp fun m v h => (typedMember_asRead S ih m.type v).mpr h

theorem sound_asRead : Sound S.asRead ↔ Sound S := by
  have hkey : Member.key ∘ Member.asRead = Member.key := rfl
  have hholds : ∀ t, holdsEnums S.asRead t = holdsEnums S t := by
    intro t
    unfold holdsEnums
    rw [known_asRead]
  simp only [Sound, classes_asRead, enums_asRead, List.forall_mem_map, ClassDecl.asRead, List.map_map, hkey, hholds]
  rfl

/-! ## Compiling -/

theorem headerCompiles_asRead (seen : List String) : headerCompiles seen S.asRead = headerCompiles seen S := by
  induction S generalizing seen with
  | nil => rfl
  | cons d S ih =>
    cases d with
    | enumclass e => exact ih _
    | cls c =>
      show (c.asRead.members.all (fun m => memberDeclared seen c.name m.type) &&
        headerCompiles (c.name :: seen) (Schema.asRead S)) = _
      rw [ih, ClassDecl.asRead, List.all_map]
      rfl

theorem calls_asRead (function : String) (m : Member) : m.asRead.calls S.asRead function = m.calls S function := by
  simp only [Member.calls, known_asRead]
  rfl

theorem serializeCompiles_asRead (scope : List String) (ms : List Member) :
    serializeCompiles S.asRead scope (ms.map Member.asRead) = serializeCompiles S scope ms := by
  induction ms generalizing scope with
  | nil => rfl
  | cons m ms ih =>
    rw [List.map_cons, serializeCompiles, serializeCompiles, ih, calls_asRead]
    rfl

theorem deserializeCompiles_asRead (scope : List String) (ms : List Member) :
    deserializeCompiles S.asRead scope (ms.map Member.asRead) = deserializeCompiles S scope ms := by
  induction ms generalizing scope with
  | nil => rfl
  | cons m ms ih =>
    have huses : desUses S.asRead m.asRead = desUses S m := by
      rw [desUses, calls_asRead]
      rfl
    rw [List.map_cons, deserializeCompiles, deserializeCompiles, ih, huses]
    rfl

theorem scope_asRead (c : ClassDecl) : c.asRead.scope = c.scope := by
  simp only [ClassDecl.scope, ClassDecl.asRead, List.flatMap_map, List.map_map]
  rfl

theorem classCompiles_asRead (cpp : Cpp) (c : ClassDecl) :
    classCompiles cpp S.asRead c.asRead = classCompiles cpp S c := by
  have hscope : classScopeCompiles S.asRead c.asRead = classScopeCompiles S c := by
    rw [classScopeCompiles, scope_asRead, ClassDecl.asRead]
    simp only [List.flatMap_map, calls_asRead]
    rfl
  rw [classCompiles, hscope, scope_asRead, ClassDecl.asRead]
  simp only [serializeCompiles_asRead, deserializeCompiles_asRead, List.all_map]
  rfl

theorem namesCompile_asRead (cpp : Cpp) : namesCompile cpp S.asRead = namesCompile cpp S := by
  have hnames : S.asRead.map Decl.name = S.map Decl.name := by
    rw [Schema.asRead, List.map_map]
    exact List.map_congr_left fun d _ => name_asRead d
  have hdecls : S.asRead.all (declCompiles cpp S.asRead) = S.all (declCompiles cpp S) := by
    rw [Schema.asRead, List.all_map, ← Schema.asRead]
    congr 1
    funext d
    simp only [Function.comp_apply, declCompiles, name_asRead, functions_asRead]
  have hclasses : S.asRead.classes.all (classCompiles cpp S.asRead) = S.classes.all (classCompiles cpp S) := by
    rw [classes_asRead, List.all_map]
    congr 1
    funext c
    exact classCompiles_asRead S cpp c
  rw [namesCompile, hnames, hdecls, hclasses, functions_asRead, enums_asRead, namesCompile]

end Schema

end PredictorService.BuildTools
