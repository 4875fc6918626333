/-
  PredictorService.BuildTools.EntityRoundTrips — which files give code that brings every value
  back.

  `Supported` is enough (`roundTrips_of_supported`). It is also needed: a file that is not
  read as it is declares other types (`reads_of_parse`), the template of a container of enums
  is no C++ once names are put in (`containers_of_calls`), two items of a string enum that
  differ in case only are written as one string, and two members with one key are written to
  one entry, of which only the last stays. For the last of these the types must have two
  values to tell apart, which they have when every enum has (`two_values`).
-/

import PredictorService.BuildTools.EntityAsRead
import PredictorService.BuildTools.EntityMisread

namespace PredictorService.BuildTools

open PredictorService.Lib

/-- The header declares the types of the schema, the files compile, and whatever is
    serialized is deserialized, into a fresh object, as it was. -/
structure RoundTrips (cpp : Cpp) (S : Schema) (files : Output) : Prop where
  declares : SameTypes S files.header
  compiles : files.source.compiles cpp files.header = true
  enums : ∀ e ∈ files.source.enums, ∀ item < e.items.length, e.deserialize (e.serialize item) = some item
  classes : ∀ (fresh : String → String → Value) (n : Nat) (cls : String) (v : Value), Typed S n cls v →
    ∃ d, files.source.serialize n cls v = some d ∧ files.source.deserialize fresh n cls d = some v

/-- The initializers as they are read. -/
def initsRead (cpp : Cpp) (S : Schema) : Bool :=
  S.classes.all fun c => c.members.all fun m =>
    initRead m.init = [] || cpp.initializes (S.map Decl.declared) m.type (String.ofList (initRead m.init))

/-- The schema is read as it is, its names, types and initializers are in order, and its
    values come back. -/
structure Supported (cpp : Cpp) (S : Schema) : Prop where
  reads : S.reads = true
  keys : ∀ d ∈ S, d.keysRead = true
  header : headerCompiles [] S = true
  inits : initsRead cpp S = true
  names : namesCompile cpp S = true
  sound : Sound S

theorem supported_iff (cpp : Cpp) (S : Schema) :
    Supported cpp S ↔ S.reads = true ∧ (∀ d ∈ S, d.keysRead = true) ∧ headerCompiles [] S = true ∧
      initsRead cpp S = true ∧ namesCompile cpp S = true ∧ Sound S :=
  ⟨fun h => ⟨h.reads, h.keys, h.header, h.inits, h.names, h.sound⟩,
    fun ⟨hreads, hkeys, hheader, hinits, hnames, hsound⟩ => ⟨hreads, hkeys, hheader, hinits, hnames, hsound⟩⟩

instance (cpp : Cpp) (S : Schema) : Decidable (Supported cpp S) := decidable_of_iff _ (supported_iff cpp S).symm

variable {cpp : Cpp}

variable {S : Schema} {P : Program}

/-! ## Names -/

theorem mem_enums {e : EnumDecl} : e ∈ S.enums ↔ Decl.enumclass e ∈ S := by
  simp only [Schema.enums, List.mem_filterMap]
  constructor
  · intro h
    obtain ⟨d, hd, h⟩ := h
    cases d <;> cases h
    exact hd
  · intro h
    exact ⟨_, h, rfl⟩

theorem mem_classes {c : ClassDecl} : c ∈ S.classes ↔ Decl.cls c ∈ S := by
  simp only [Schema.classes, List.mem_filterMap]
  constructor
  · intro h
    obtain ⟨d, hd, h⟩ := h
    cases d <;> cases h
    exact hd
  · intro h
    exact ⟨_, h, rfl⟩

theorem nodup_names (h : namesCompile cpp S = true) : (S.map Decl.name).Nodup := by
  simp only [namesCompile, Bool.and_eq_true, decide_eq_true_eq] at h
  exact h.1.1.1.1.1

theorem functions_fit (h : namesCompile cpp S = true) : ∀ f ∈ S.functions, cpp.fits f = true := by
  simp only [namesCompile, Bool.and_eq_true, List.all_eq_true] at h
  exact fun f hf => (h.1.1.1.2 f hf).1

theorem items_fit (h : namesCompile cpp S = true) : ∀ e ∈ S.enums, e.items.length ≤ 2147483648 := by
  simp only [namesCompile, enumCompiles, Bool.and_eq_true, List.all_eq_true, decide_eq_true_eq] at h
  exact fun e he => (h.1.1.2 e he).1.2

/-- The members' variables differ. -/
theorem nodup_members (h : namesCompile cpp S = true) {c : ClassDecl} (hc : Decl.cls c ∈ S) :
    (c.members.map (·.name)).Nodup := by
  simp only [namesCompile, classCompiles, classScopeCompiles, Bool.and_eq_true, List.all_eq_true,
    decide_eq_true_eq] at h
  have hscope := (h.1.2 c (mem_classes.mpr hc)).1.1.2.1
  rw [List.nodup_cons, ClassDecl.scope, List.nodup_append'] at hscope
  have hfields : (c.members.map (·.name ++ "_")).Nodup := hscope.2.2.1
  rw [show (fun m : Member => m.name ++ "_") = (· ++ "_") ∘ (·.name) from rfl, ← List.map_map] at hfields
  exact hfields.of_map

/-! ## Compiling -/

theorem mem_functions {function : String} :
    function ∈ P.functions ↔ ∃ e ∈ P.enums, function = "serialize" ++ e.name ∨ function = "deserialize" ++ e.name ∨
      e.enumType = .string ∧ (function = "stringTo" ++ e.name ∨ function = "toString" ++ e.name) := by
  simp only [Program.functions, EnumDecl.functions, List.mem_flatMap, List.mem_cons]
  refine exists_congr fun e => and_congr_right fun _ => ?_
  cases e.enumType <;> simp

theorem existsEnum_mem {t : String} (h : S.known.existsEnum t = true) : ∃ e ∈ S.enums, e.name = t := by
  simpa [Known.existsEnum, Schema.known] using h

theorem declared_of_existsEnum (hg : generate S = .ok P) {t : String} (h : S.known.existsEnum t = true) :
    "serialize" ++ t ∈ P.functions ∧ "deserialize" ++ t ∈ P.functions := by
  obtain ⟨e, he, rfl⟩ := existsEnum_mem h
  rw [← (generate_ok hg).1] at he
  exact ⟨mem_functions.mpr ⟨e, he, .inl rfl⟩, mem_functions.mpr ⟨e, he, .inr (.inl rfl)⟩⟩

/-- What the generator makes of an element's type. -/
theorem serializeItem_cases {name : String} {t : TypeName} {item : SerItem}
    (h : serializeItem S.known name t = .ok item) :
    (∃ p, t = .pod p ∧ item = .pod) ∨
      (∃ n, t = .named n ∧ S.known.existsEnum n = true ∧ item = .enum "serialize__ENUM__CLASS__") ∨
      ∃ n, t = .named n ∧ S.known.existsEnum n = false ∧ item = .object n := by
  cases t with
  | pod p =>
    cases h
    exact .inl ⟨p, rfl, rfl⟩
  | named n =>
    simp only [serializeItem] at h
    split at h
    · rename_i hn
      cases h
      exact .inr (.inl ⟨n, rfl, hn, rfl⟩)
    · rename_i hn
      split at h
      · cases h
        exact .inr (.inr ⟨n, rfl, by simpa using hn, rfl⟩)
      · cases h

theorem deserializeItem_cases {name : String} {t : TypeName} {item : DesItem}
    (h : deserializeItem S.known name t = .ok item) :
    (∃ p, t = .pod p ∧ item = .pod (diagnostic p) p) ∨
      (∃ n, t = .named n ∧ S.known.existsEnum n = true ∧ item = .enum n) ∨
      ∃ n, t = .named n ∧ S.known.existsEnum n = false ∧ item = .object n := by
  cases t with
  | pod p =>
    cases h
    exact .inl ⟨p, rfl, rfl⟩
  | named n =>
    simp only [deserializeItem] at h
    split at h
    · rename_i hn
      cases h
      exact .inr (.inl ⟨n, rfl, hn, rfl⟩)
    · rename_i hn
      split at h
      · cases h
        exact .inr (.inr ⟨n, rfl, by simpa using hn, rfl⟩)
      · cases h

/-- The statement in `serialize` names only what is declared, unless the member holds
    enums. -/
theorem serStmtCompiles_iff (hg : generate S = .ok P) {m : Member} {stmt : SerStmt}
    (h : serializeMember S.known m = .ok stmt) :
    P.serStmtCompiles stmt = true ↔ holdsEnums S m.type = true → "serialize__ENUM__CLASS__" ∈ P.functions := by
  unfold serializeMember at h
  cases htype : m.type with
  | plain t =>
    rw [htype] at h
    cases t with
    | pod p =>
      cases h
      simp [Program.serStmtCompiles, holdsEnums]
    | named n =>
      dsimp only at h
      split at h
      · rename_i hn
        cases h
        simpa [Program.serStmtCompiles, holdsEnums] using (declared_of_existsEnum hg hn).1
      · split at h
        · cases h
          simp [Program.serStmtCompiles, holdsEnums]
        · cases h
  | vector t =>
    rw [htype] at h
    obtain ⟨item, hitem, rfl⟩ := map_eq_ok_iff.mp h
    rcases serializeItem_cases hitem with ⟨p, rfl, rfl⟩ | ⟨n, rfl, hn, rfl⟩ | ⟨n, rfl, hn, rfl⟩ <;>
      simp_all [Program.serStmtCompiles, holdsEnums]
  | map key t =>
    rw [htype] at h
    obtain ⟨item, hitem, rfl⟩ := map_eq_ok_iff.mp h
    rcases serializeItem_cases hitem with ⟨p, rfl, rfl⟩ | ⟨n, rfl, hn, rfl⟩ | ⟨n, rfl, hn, rfl⟩ <;>
      simp_all [Program.serStmtCompiles, holdsEnums]

theorem desStmtCompiles_of_not_holdsEnums (hg : generate S = .ok P) {m : Member} {stmt : DesStmt}
    (hne : holdsEnums S m.type = false) (h : deserializeMember S.known m = .ok stmt) :
    P.desStmtCompiles stmt = true := by
  unfold deserializeMember at h
  cases htype : m.type with
  | plain t =>
    rw [htype] at h
    cases t with
    | pod p =>
      cases h
      rfl
    | named n =>
      dsimp only at h
      split at h
      · rename_i hn
        cases h
        simpa [Program.desStmtCompiles] using (declared_of_existsEnum hg hn).2
      · split at h
        · cases h
          rfl
        · cases h
  | vector t =>
    rw [htype] at h hne
    obtain ⟨item, hitem, rfl⟩ := map_eq_ok_iff.mp h
    rcases deserializeItem_cases hitem with ⟨p, rfl, rfl⟩ | ⟨n, rfl, hn, rfl⟩ | ⟨n, rfl, hn, rfl⟩
    · rfl
    · simp [holdsEnums, hn] at hne
    · rfl
  | map key t =>
    rw [htype] at h hne
    obtain ⟨item, hitem, rfl⟩ := map_eq_ok_iff.mp h
    rcases deserializeItem_cases hitem with ⟨p, rfl, rfl⟩ | ⟨n, rfl, hn, rfl⟩ | ⟨n, rfl, hn, rfl⟩
    · rfl
    · simp [holdsEnums, hn] at hne
    · rfl

theorem callsCompile_of_sound (hg : generate S = .ok P)
    (hcont : ∀ c ∈ S.classes, ∀ m ∈ c.members, holdsEnums S m.type = false) : P.callsCompile = true := by
  simp only [Program.callsCompile, List.all_eq_true, Bool.and_eq_true]
  intro code hcode
  obtain ⟨c, hc, hdyn⟩ := exists_left_of_mem (generate_ok hg).2 hcode
  obtain ⟨-, hser, hdes⟩ := dynamicClass_ok hdyn
  refine ⟨?_, ?_⟩
  · intro s hs
    obtain ⟨m, hm, hmap⟩ := exists_left_of_mem hser hs
    obtain ⟨stmt, hstmt, rfl⟩ := map_eq_ok_iff.mp hmap
    exact (serStmtCompiles_iff hg hstmt).mpr fun h => absurd h (by simp [hcont c hc m hm])
  · intro d hd
    obtain ⟨m, hm, hmap⟩ := exists_left_of_mem hdes hd
    obtain ⟨stmt, hstmt, rfl⟩ := map_eq_ok_iff.mp hmap
    exact desStmtCompiles_of_not_holdsEnums hg (hcont c hc m hm) hstmt

theorem roundTrips_of_sound (hg : generate S = .ok P) (hheader : headerCompiles [] S = true)
    (hinits : initsCompile cpp S = true) (hnames : namesCompile cpp S = true) (hs : Sound S) :
    RoundTrips cpp S ⟨S, P⟩ := by
  refine ⟨rfl, ?_, ?_, ?_⟩
  · simp [Program.compiles, hheader, hinits, hnames, callsCompile_of_sound hg hs.1]
  · rw [(generate_ok hg).1]
    intro e he item hitem
    exact EnumDecl.roundtrip (hs.2.1 e he).1 (hs.2.1 e he).2 hitem
  · intro fresh n cls v hv
    obtain ⟨d, hd, -, hback⟩ := roundtrip_of_sound hg hs fresh n cls v hv
    exact ⟨d, hd, hback⟩

/-! ## What is needed -/

/-- The placeholder that is left in the template is not the name of a function. -/
theorem placeholder_not_declared (hg : generate S = .ok P) (hnames : namesCompile cpp S = true) :
    "serialize__ENUM__CLASS__" ∉ P.functions := by
  rw [Program.functions, (generate_ok hg).1]
  intro h
  have hfits := functions_fit hnames _ h
  rw [Cpp.fits, Bool.and_eq_true, Bool.and_eq_true, Bool.not_eq_true'] at hfits
  have hreserved : reservedName "serialize__ENUM__CLASS__".toList = true := by decide
  rw [hreserved] at hfits
  cases hfits.1.2

theorem containers_of_calls (hg : generate S = .ok P) (hnames : namesCompile cpp S = true)
    (hcalls : P.callsCompile = true) : ∀ c ∈ S.classes, ∀ m ∈ c.members, holdsEnums S m.type = false := by
  intro c hc m hm
  obtain ⟨code, hcode, hdyn⟩ := exists_right_of_mem (generate_ok hg).2 hc
  obtain ⟨-, hser, -⟩ := dynamicClass_ok hdyn
  obtain ⟨s, hs, hmap⟩ := exists_right_of_mem hser hm
  obtain ⟨stmt, hstmt, rfl⟩ := map_eq_ok_iff.mp hmap
  simp only [Program.callsCompile, List.all_eq_true, Bool.and_eq_true] at hcalls
  have hcompiles := (serStmtCompiles_iff hg hstmt).mp ((hcalls code hcode).1 _ hs)
  by_contra h
  exact placeholder_not_declared hg hnames (hcompiles (by simpa using h))

theorem distinct_of_roundtrip {e : EnumDecl}
    (h : ∀ item < e.items.length, e.deserialize (e.serialize item) = some item) : e.Distinct := by
  intro htype
  rw [List.Nodup, List.pairwise_iff_getElem]
  intro i j hi hj hij hsame
  rw [List.length_map] at hi hj
  have hback := h j hj
  have hname : e.toString j = strtolower e.items[j] := by simp [EnumDecl.toString, List.getElem?_eq_getElem hj]
  simp only [EnumDecl.serialize, EnumDecl.deserialize, htype, EnumDecl.stringTo, hname,
    List.findIdx?_eq_some_iff_getElem] at hback
  obtain ⟨_, _, hfirst⟩ := hback
  exact hfirst i hij (by simpa using hsame)

/-! ## Values to tell apart -/

theorem TypedItem.mono {r r' : String → Value → Prop} (hr : ∀ cls v, r cls v → r' cls v) {t : TypeName} {v : Value}
    (h : TypedItem S r t v) : TypedItem S r' t v := by
  cases t with
  | pod p => exact h
  | named n =>
    simp only [TypedItem] at h ⊢
    split
    · rename_i e he
      rwa [he] at h
    · rename_i he
      rw [he] at h
      exact hr n v h

theorem TypedMember.mono {r r' : String → Value → Prop} (hr : ∀ cls v, r cls v → r' cls v) {t : MemberType} {v : Value}
    (h : TypedMember S r t v) : TypedMember S r' t v := by
  cases t with
  | plain t => exact TypedItem.mono hr h
  | vector t =>
    obtain ⟨vs, rfl, hvs⟩ := h
    exact ⟨vs, rfl, fun x hx => (hvs x hx).mono hr⟩
  | map key t =>
    obtain ⟨es, rfl, hsorted, hes⟩ := h
    exact ⟨es, rfl, hsorted, fun e he => ⟨(hes e he).1, (hes e he).2.mono hr⟩⟩

theorem Typed.succ {n : Nat} {cls : String} {v : Value} (h : Typed S n cls v) : Typed S (n + 1) cls v := by
  induction n generalizing cls v with
  | zero => exact h.elim
  | succ n ih =>
    obtain ⟨c, vs, hc, rfl, hvs⟩ := h
    exact ⟨c, vs, hc, rfl, hvs.imp fun _ _ hm => hm.mono fun _ _ => ih⟩

theorem Typed.mono {n k : Nat} (hle : n ≤ k) {cls : String} {v : Value} (h : Typed S n cls v) : Typed S k cls v := by
  induction hle with
  | refl => exact h
  | step _ ih => exact ih.succ

variable (S) in
/-- The type has a value. -/
def HasValue (t : MemberType) : Prop := ∃ n v, TypedMember S (Typed S n) t v

variable (S) in
/-- The type has two values. -/
def HasTwo (t : MemberType) : Prop := ∃ n v v', v ≠ v' ∧ TypedMember S (Typed S n) t v ∧ TypedMember S (Typed S n) t v'

theorem HasTwo.hasValue {t : MemberType} (h : HasTwo S t) : HasValue S t := by
  obtain ⟨n, v, _, -, hv, -⟩ := h
  exact ⟨n, v, hv⟩

theorem exists_values {ms : List Member} (h : ∀ m ∈ ms, HasValue S m.type) :
    ∃ n vs, List.Forall₂ (fun m v => TypedMember S (Typed S n) m.type v) ms vs := by
  induction ms with
  | nil => exact ⟨0, [], .nil⟩
  | cons m ms ih =>
    obtain ⟨n, v, hv⟩ := h m List.mem_cons_self
    obtain ⟨k, vs, hvs⟩ := ih fun m' hm' => h m' (List.mem_cons_of_mem _ hm')
    exact ⟨max n k, v :: vs, .cons (hv.mono fun _ _ => Typed.mono (Nat.le_max_left n k))
      (hvs.imp fun _ _ hm => hm.mono fun _ _ => Typed.mono (Nat.le_max_right n k))⟩

/-- Two objects of a class that differ in one member only. -/
theorem exists_two_objects {pre post : List Member} {m : Member} (hpre : ∀ m' ∈ pre, HasValue S m'.type)
    (hpost : ∀ m' ∈ post, HasValue S m'.type) (hm : HasTwo S m.type) :
    ∃ n vs v v' ws, v ≠ v' ∧ List.Forall₂ (fun m v => TypedMember S (Typed S n) m.type v) pre vs ∧
      TypedMember S (Typed S n) m.type v ∧ TypedMember S (Typed S n) m.type v' ∧
      List.Forall₂ (fun m v => TypedMember S (Typed S n) m.type v) post ws := by
  obtain ⟨n₁, vs, hvs⟩ := exists_values hpre
  obtain ⟨n₂, v, v', hne, hv, hv'⟩ := hm
  obtain ⟨n₃, ws, hws⟩ := exists_values hpost
  have h₁ : n₁ ≤ max n₁ (max n₂ n₃) := Nat.le_max_left _ _
  have h₂ : n₂ ≤ max n₁ (max n₂ n₃) := (Nat.le_max_left _ _).trans (Nat.le_max_right _ _)
  have h₃ : n₃ ≤ max n₁ (max n₂ n₃) := (Nat.le_max_right _ _).trans (Nat.le_max_right _ _)
  exact ⟨max n₁ (max n₂ n₃), vs, v, v', ws, hne, hvs.imp fun _ _ hm => hm.mono fun _ _ => Typed.mono h₁,
    hv.mono fun _ _ => Typed.mono h₂, hv'.mono fun _ _ => Typed.mono h₂,
    hws.imp fun _ _ hm => hm.mono fun _ _ => Typed.mono h₃⟩

theorem hasTwo_pod (p : Pod) : ∃ s s' : Scalar, s ≠ s' ∧ s.HasPod p ∧ s'.HasPod p := by
  cases p with
  | bool => exact ⟨.bool true, .bool false, nofun, trivial, trivial⟩
  | string => exact ⟨.string "", .string "a", by decide, trivial, trivial⟩
  | _ => exact ⟨.int 0, .int 1, by decide, rfl, rfl⟩

theorem decl_eq_of_name (hnames : (S.map Decl.name).Nodup) {d d' : Decl} (hd : d ∈ S) (hd' : d' ∈ S)
    (h : d.name = d'.name) : d = d' := List.inj_on_of_nodup_map hnames hd hd' h

theorem findEnum_of_mem (hnames : (S.map Decl.name).Nodup) {e : EnumDecl} (he : Decl.enumclass e ∈ S) :
    S.findEnum e.name = some e := by
  have hsome : (S.findEnum e.name).isSome = true := by
    rw [Schema.findEnum, List.find?_isSome]
    exact ⟨e, mem_enums.mpr he, by simp⟩
  obtain ⟨e', he'⟩ := Option.isSome_iff_exists.mp hsome
  obtain ⟨hmem, hname⟩ := findEnum_some he'
  cases decl_eq_of_name hnames (mem_enums.mp hmem) he hname
  exact he'

theorem findEnum_of_class (hnames : (S.map Decl.name).Nodup) {c : ClassDecl} (hc : Decl.cls c ∈ S) :
    S.findEnum c.name = none := by
  cases h : S.findEnum c.name with
  | none => rfl
  | some e =>
    obtain ⟨hmem, hname⟩ := findEnum_some h
    cases decl_eq_of_name hnames (mem_enums.mp hmem) hc hname

theorem findClass_of_mem (hnames : (S.map Decl.name).Nodup) {c : ClassDecl} (hc : Decl.cls c ∈ S) :
    S.findClass c.name = some c := by
  have hsome : (S.findClass c.name).isSome = true := by
    rw [Schema.findClass, List.find?_isSome]
    exact ⟨c, mem_classes.mpr hc, by simp⟩
  obtain ⟨c', hc'⟩ := Option.isSome_iff_exists.mp hsome
  have hmem := mem_classes.mp (List.mem_of_find?_eq_some hc')
  have hname : c'.name = c.name := by simpa using List.find?_some hc'
  cases decl_eq_of_name hnames hmem hc hname
  exact hc'

/-- Objects are values of the type that has the class's name. -/
theorem typed_named (hnames : (S.map Decl.name).Nodup) {c : ClassDecl} (hc : Decl.cls c ∈ S) {n : Nat} {vs : List Value}
    (hvs : List.Forall₂ (fun m v => TypedMember S (Typed S n) m.type v) c.members vs) :
    TypedMember S (Typed S (n + 1)) (.plain (.named c.name)) (.object vs) := by
  simp only [TypedMember, TypedItem, findEnum_of_class hnames hc]
  exact ⟨c, vs, findClass_of_mem hnames hc, rfl, hvs⟩

theorem hasTwo_enum (hnames : (S.map Decl.name).Nodup) {e : EnumDecl} (he : Decl.enumclass e ∈ S)
    (h2 : 2 ≤ e.items.length) : HasTwo S (.plain (.named e.name)) := by
  refine ⟨0, .enum 0, .enum 1, nofun, ?_, ?_⟩ <;> simp only [TypedMember, TypedItem, findEnum_of_mem hnames he]
  · exact ⟨0, by omega, rfl⟩
  · exact ⟨1, by omega, rfl⟩

theorem hasValue_pod (p : Pod) : HasValue S (.plain (.pod p)) := by
  obtain ⟨s, _, -, hs, -⟩ := hasTwo_pod p
  exact ⟨0, .scalar s, s, rfl, hs⟩

/-- A container is empty or holds one element. -/
theorem hasTwo_vector {t : TypeName} (h : HasValue S (.plain t)) : HasTwo S (.vector t) := by
  obtain ⟨n, v, hv⟩ := h
  refine ⟨n, .vector [], .vector [v], nofun, ⟨[], rfl, by simp⟩, ⟨[v], rfl, ?_⟩⟩
  intro x hx
  rw [List.mem_singleton.mp hx]
  exact hv

theorem hasTwo_map {key : Pod} {t : TypeName} (h : HasValue S (.plain t)) : HasTwo S (.map key t) := by
  obtain ⟨n, v, hv⟩ := h
  obtain ⟨s, _, -, hs, -⟩ := hasTwo_pod key
  refine ⟨n, .map [], .map [(s, v)], nofun, ⟨[], rfl, List.Pairwise.nil, by simp⟩, ⟨[(s, v)], rfl, ?_, ?_⟩⟩
  · exact List.pairwise_singleton _ _
  · intro e he
    rw [List.mem_singleton.mp he]
    exact ⟨hs, hv⟩

theorem hasTwo_class (hnames : (S.map Decl.name).Nodup) {c : ClassDecl} (hc : Decl.cls c ∈ S) (hne : c.members ≠ [])
    (h : ∀ m ∈ c.members, HasTwo S m.type) : HasTwo S (.plain (.named c.name)) := by
  obtain ⟨m, ms, hms⟩ := List.exists_cons_of_ne_nil hne
  rw [hms] at h
  obtain ⟨n, _, v, v', ws, hne, -, hv, hv', hws⟩ := exists_two_objects (List.forall_mem_nil _)
    (fun m' hm' => (h m' (List.mem_cons_of_mem _ hm')).hasValue) (h m List.mem_cons_self)
  have htyped : ∀ u, TypedMember S (Typed S n) m.type u →
      TypedMember S (Typed S (n + 1)) (.plain (.named c.name)) (.object (u :: ws)) := by
    intro u hu
    exact typed_named hnames hc (by rw [hms]; exact .cons hu hws)
  refine ⟨n + 1, .object (v :: ws), .object (v' :: ws), fun heq => hne ?_, htyped v hv, htyped v' hv'⟩
  exact (List.cons.inj (Value.object.inj heq)).1

section Declared

variable {seen : List String} {self : String} (hseen : ∀ t ∈ seen, HasTwo S (.plain (.named t)))

include hseen

/-- A member has a value before its own class has one: the containers are empty. -/
theorem hasValue_of_declared {t : MemberType} (h : memberDeclared seen self t = true) : HasValue S t := by
  cases t with
  | plain t =>
    cases t with
    | pod p => exact hasValue_pod p
    | named n => exact (hseen n (by simpa [memberDeclared] using h)).hasValue
  | vector t => exact ⟨0, .vector [], [], rfl, by simp⟩
  | map key t => exact ⟨0, .map [], [], rfl, List.Pairwise.nil, by simp⟩

theorem hasTwo_of_declared (hself : HasValue S (.plain (.named self))) {t : MemberType}
    (h : memberDeclared seen self t = true) : HasTwo S t := by
  have helem : ∀ n, n = self ∨ n ∈ seen → HasValue S (.plain (.named n)) := by
    intro n hn
    rcases hn with rfl | hn
    · exact hself
    · exact (hseen n hn).hasValue
  cases t with
  | plain t =>
    cases t with
    | pod p =>
      obtain ⟨s, s', hne, hs, hs'⟩ := hasTwo_pod p
      exact ⟨0, .scalar s, .scalar s', fun h => hne (Value.scalar.inj h), ⟨s, rfl, hs⟩, ⟨s', rfl, hs'⟩⟩
    | named n => exact hseen n (by simpa [memberDeclared] using h)
  | vector t =>
    cases t with
    | pod p => exact hasTwo_vector (hasValue_pod p)
    | named n => exact hasTwo_vector (helem n (by simpa [memberDeclared] using h))
  | map key t =>
    cases t with
    | pod p => exact hasTwo_map (hasValue_pod p)
    | named n => exact hasTwo_map (helem n (by simpa [memberDeclared] using h))

end Declared

/-- Every type that a member can name, and every member's type, has two values: by the order
    of the declarations, of which only the last may be an empty class. -/
theorem two_values (hnames : (S.map Decl.name).Nodup) (h2 : ∀ e ∈ S.enums, 2 ≤ e.items.length) {seen : List String}
    {S' : Schema} (hsub : ∀ d ∈ S', d ∈ S) (hne : ∀ d ∈ S'.dropLast, d.isEmpty = false)
    (hh : headerCompiles seen S' = true)
    (hseen : ∀ t ∈ seen, HasTwo S (.plain (.named t))) :
    ∀ c ∈ S'.classes, ∀ m ∈ c.members, HasTwo S m.type := by
  induction S' generalizing seen with
  | nil => exact fun c hc => absurd hc (by simp [Schema.classes])
  | cons d S' ih =>
    have hd := hsub d List.mem_cons_self
    have hsub' : ∀ d' ∈ S', d' ∈ S := fun d' hd' => hsub d' (List.mem_cons_of_mem _ hd')
    have hne' : ∀ d' ∈ S'.dropLast, d'.isEmpty = false := fun d' hd' => hne d' (by
      rw [List.dropLast_cons_of_ne_nil (List.ne_nil_of_mem (List.mem_of_mem_dropLast hd'))]
      exact List.mem_cons_of_mem _ hd')
    cases d with
    | enumclass e =>
      have htwo := hasTwo_enum hnames hd (h2 e (mem_enums.mpr hd))
      exact ih hsub' hne' hh (List.forall_mem_cons.mpr ⟨htwo, hseen⟩)
    | cls c =>
      simp only [headerCompiles, Bool.and_eq_true, List.all_eq_true] at hh
      obtain ⟨hdecl, hrest⟩ := hh
      have hself : HasValue S (.plain (.named c.name)) := by
        obtain ⟨n, vs, hvs⟩ := exists_values fun m hm => hasValue_of_declared hseen (hdecl m hm)
        exact ⟨n + 1, .object vs, typed_named hnames hd hvs⟩
      have hmembers : ∀ m ∈ c.members, HasTwo S m.type := fun m hm => hasTwo_of_declared hseen hself (hdecl m hm)
      intro c' hc' m hm
      rcases List.mem_cons.mp (mem_classes.mp hc') with heq | hc'
      · cases heq
        exact hmembers m hm
      · have hempty : (Decl.cls c).isEmpty = false := hne _ (by
          rw [List.dropLast_cons_of_ne_nil (List.ne_nil_of_mem hc')]
          exact List.mem_cons_self)
        have htwo : HasTwo S (.plain (.named c.name)) :=
          hasTwo_class hnames hd (by simpa [Decl.isEmpty] using hempty) hmembers
        exact ih hsub' hne' hrest (List.forall_mem_cons.mpr ⟨htwo, hseen⟩) c' (mem_classes.mpr hc') m hm

/-! ## Two members with one key -/

section Keys

variable {recur : String → Value → Option Dynamic}

theorem runSerStmts_cons {s : String × SerStmt} {stmts : List (String × SerStmt)} {v : Value} {vs : List Value}
    {es : List (Scalar × Dynamic)} :
    P.runSerStmts recur (s :: stmts) (v :: vs) = some es ↔
      ∃ d es', P.runSerStmt recur s.2 v = some d ∧ P.runSerStmts recur stmts vs = some es' ∧
        es = (.string s.1, d) :: es' := by
  simp only [Program.runSerStmts, mapM_eq_some_iff, List.zip_cons_cons, List.forall₂_cons_left_iff,
    Option.map_eq_some_iff]
  constructor
  · intro h
    obtain ⟨e, es', ⟨d, hd, rfl⟩, hes, rfl⟩ := h
    exact ⟨d, es', hd, hes, rfl⟩
  · intro h
    obtain ⟨d, es', hd, hes, rfl⟩ := h
    exact ⟨_, es', ⟨d, hd, rfl⟩, hes, rfl⟩

/-- The statements of the members, by their keys. -/
def KeyedBy (ms : List Member) (stmts : List (String × SerStmt)) : Prop :=
  List.Forall₂ (fun m s => s.1 = m.key) ms stmts

theorem runSerStmts_keys {ms : List Member} {stmts : List (String × SerStmt)} (hs : KeyedBy ms stmts) {vs : List Value}
    (hlen : vs.length = ms.length) {es : List (Scalar × Dynamic)} (h : P.runSerStmts recur stmts vs = some es) :
    es.map (·.1) = ms.map fun m => Scalar.string m.key := by
  induction hs generalizing vs es with
  | nil =>
    cases h
    rfl
  | cons hkey _ ih =>
    obtain ⟨v, vs, rfl⟩ := List.exists_cons_of_length_eq_add_one hlen
    obtain ⟨d, es', -, hes, rfl⟩ := runSerStmts_cons.mp h
    rw [List.map_cons, List.map_cons, ih (by simpa using hlen) hes, hkey]

/-- Objects that differ in one member differ in its entry. -/
theorem runSerStmts_differ {pre post : List Member} {m : Member} {stmts : List (String × SerStmt)}
    (hs : KeyedBy (pre ++ m :: post) stmts) {vs ws : List Value} {v v' : Value} (hpre : vs.length = pre.length)
    (hpost : ws.length = post.length) {es es' : List (Scalar × Dynamic)}
    (h : P.runSerStmts recur stmts (vs ++ v :: ws) = some es)
    (h' : P.runSerStmts recur stmts (vs ++ v' :: ws) = some es') :
    ∃ es₁ es₂ d d', es = es₁ ++ (.string m.key, d) :: es₂ ∧ es' = es₁ ++ (.string m.key, d') :: es₂ ∧
      es₂.map (·.1) = post.map fun m => Scalar.string m.key := by
  induction pre generalizing stmts vs es es' with
  | nil =>
    obtain rfl := List.length_eq_zero_iff.mp hpre
    cases hs with
    | cons hkey hs =>
      obtain ⟨d, es₂, -, hes, rfl⟩ := runSerStmts_cons.mp h
      obtain ⟨d', es₂', -, hes', rfl⟩ := runSerStmts_cons.mp h'
      rw [hes] at hes'
      cases hes'
      exact ⟨[], es₂, d, d', by rw [hkey]; rfl, by rw [hkey]; rfl, runSerStmts_keys hs hpost hes⟩
  | cons m' pre ih =>
    obtain ⟨u, vs, rfl⟩ := List.exists_cons_of_length_eq_add_one hpre
    cases hs with
    | cons hkey hs =>
      obtain ⟨d₀, es₀, hd₀, hes, rfl⟩ := runSerStmts_cons.mp h
      obtain ⟨d₀', es₀', hd₀', hes', rfl⟩ := runSerStmts_cons.mp h'
      rw [hd₀] at hd₀'
      cases hd₀'
      obtain ⟨es₁, es₂, d, d', rfl, rfl, hkeys⟩ := ih hs (by simpa using hpre) hes hes'
      exact ⟨_ :: es₁, es₂, d, d', rfl, rfl, hkeys⟩

end Keys

theorem exists_repeat {α β : Type} {f : α → β} {l : List α} (h : ¬ (l.map f).Nodup) :
    ∃ pre a post, l = pre ++ a :: post ∧ f a ∈ post.map f := by
  induction l with
  | nil => exact absurd List.nodup_nil h
  | cons a l ih =>
    by_cases ha : f a ∈ l.map f
    · exact ⟨[], a, l, rfl, ha⟩
    · obtain ⟨pre, b, post, rfl, hb⟩ := ih fun hnd => h (List.nodup_cons.mpr ⟨ha, hnd⟩)
      exact ⟨a :: pre, b, post, rfl, hb⟩

/-- Where two members have one key, two objects are serialized alike. -/
theorem keys_of_roundtrip (hg : generate S = .ok P) (hnames : (S.map Decl.name).Nodup) {c : ClassDecl}
    (hc : Decl.cls c ∈ S) (htwo : ∀ m ∈ c.members, HasTwo S m.type)
    (hrt : ∀ (fresh : String → String → Value) (n : Nat) (cls : String) (v : Value), Typed S n cls v →
      ∃ d, P.serialize n cls v = some d ∧ P.deserialize fresh n cls d = some v) :
    (c.members.map Member.key).Nodup := by
  by_contra hdup
  obtain ⟨pre, m, post, hms, hrep⟩ := exists_repeat hdup
  rw [hms] at htwo
  obtain ⟨n, vs, v, v', ws, hne, hvs, hv, hv', hws⟩ := exists_two_objects
    (fun m' hm' => (htwo m' (List.mem_append_left _ hm')).hasValue)
    (fun m' hm' => (htwo m' (List.mem_append_right _ (List.mem_cons_of_mem _ hm'))).hasValue)
    (htwo m (List.mem_append_right _ List.mem_cons_self))
  have hfind := findClass_of_mem hnames hc
  have htyped : ∀ u, TypedMember S (Typed S n) m.type u → Typed S (n + 1) c.name (.object (vs ++ u :: ws)) := by
    intro u hu
    exact ⟨c, _, hfind, rfl, by rw [hms]; exact List.rel_append hvs (.cons hu hws)⟩
  obtain ⟨d, hd, hback⟩ := hrt (fun _ _ => .enum 0) (n + 1) c.name _ (htyped v hv)
  obtain ⟨d', hd', hback'⟩ := hrt (fun _ _ => .enum 0) (n + 1) c.name _ (htyped v' hv')
  obtain ⟨code, hcode, hdyn⟩ := findClass_generated hg hfind
  have hkeyed : KeyedBy (pre ++ m :: post) code.serializes := by
    rw [← hms]
    refine (dynamicClass_ok hdyn).2.1.imp fun m s hs => ?_
    obtain ⟨stmt, -, rfl⟩ := map_eq_ok_iff.mp hs
    rfl
  simp only [Program.serialize, hcode, Option.bind_eq_bind, Option.bind_some, Option.bind_eq_some_iff, Option.pure_def,
    Option.some_inj] at hd hd'
  obtain ⟨es, hes, rfl⟩ := hd
  obtain ⟨es', hes', rfl⟩ := hd'
  obtain ⟨es₁, es₂, x, x', rfl, rfl, hkeys⟩ := runSerStmts_differ hkeyed hvs.length_eq.symm hws.length_eq.symm hes hes'
  have hagain : Scalar.string m.key ∈ es₂.map (·.1) := by
    rw [hkeys]
    obtain ⟨m', hm', hkey⟩ := List.mem_map.mp hrep
    exact List.mem_map.mpr ⟨m', hm', by rw [hkey]⟩
  rw [SortedMap.insertAll_overwritten hagain x x', hback'] at hback
  have heq := Value.object.inj (Option.some.inj hback)
  exact hne (List.cons.inj (List.append_cancel_left heq)).1.symm

/-! ## The schemas that round trip -/

theorem sound_of_roundTrips (hg : generate S = .ok P) (hne : ∀ d ∈ S.dropLast, d.isEmpty = false)
    (h2 : ∀ e ∈ S.enums, 2 ≤ e.items.length) (h : RoundTrips cpp S ⟨S, P⟩) :
    headerCompiles [] S = true ∧ initsCompile cpp S = true ∧ namesCompile cpp S = true ∧ Sound S := by
  have hcompiles := h.compiles
  simp only [Program.compiles, Bool.and_eq_true] at hcompiles
  obtain ⟨⟨⟨hheader, hinits⟩, hcalls⟩, hnames⟩ := hcompiles
  have hnodup := nodup_names hnames
  have htwo := two_values hnodup h2 (fun _ hd => hd) hne hheader (List.forall_mem_nil _)
  refine ⟨hheader, hinits, hnames, containers_of_calls hg hnames hcalls, fun e he => ⟨?_, items_fit hnames e he⟩, ?_⟩
  · rw [← (generate_ok hg).1] at he
    exact distinct_of_roundtrip (h.enums e he)
  · intro c hc
    exact keys_of_roundtrip hg hnodup (mem_classes.mp hc) (htwo c hc) h.classes

/-! ## Files -/

section Files

variable {config : List Text} {files : Output}

theorem initsCompile_asRead : initsCompile cpp S.asRead = initsRead cpp S := by
  have hempty : ∀ l : Text, String.ofList l = "" ↔ l = [] := by
    intro l
    rw [← String.toList_inj, String.toList_ofList]
    exact Iff.rfl
  simp only [initsCompile, initsRead, classes_asRead, declared_asRead, List.all_map, ClassDecl.asRead,
    Function.comp_def, Member.asRead, hempty]

theorem roundTrips_asRead : RoundTrips cpp S.asRead files ↔ RoundTrips cpp S files := by
  have htypes : SameTypes S.asRead files.header ↔ SameTypes S files.header := by
    rw [SameTypes, SameTypes, declared_asRead]
  constructor
  · exact fun h => ⟨htypes.mp h.declares, h.compiles, h.enums, fun fresh n cls v hv =>
      h.classes fresh n cls v ((typed_asRead S n cls v).mpr hv)⟩
  · exact fun h => ⟨htypes.mpr h.declares, h.compiles, h.enums, fun fresh n cls v hv =>
      h.classes fresh n cls v ((typed_asRead S n cls v).mp hv)⟩

/-- What is named in a header that compiles is declared. -/
theorem names_of_header {seen : List String} {S' : Schema} (h : headerCompiles seen S' = true) {c : ClassDecl}
    (hc : c ∈ S'.classes) {m : Member} (hm : m ∈ c.members) {n : String} (hn : m.type.elem = .named n) :
    n ∈ seen ++ S'.map Decl.name := by
  induction S' generalizing seen with
  | nil => exact absurd hc List.not_mem_nil
  | cons d S' ih =>
    have hcons : ∀ name, n ∈ (name :: seen) ++ S'.map Decl.name → n ∈ seen ++ name :: S'.map Decl.name := by
      intro name h
      simp only [List.cons_append, List.mem_cons, List.mem_append] at h ⊢
      tauto
    cases d with
    | enumclass e => exact hcons _ (ih h hc)
    | cls c' =>
      simp only [headerCompiles, Bool.and_eq_true, List.all_eq_true] at h
      rcases List.mem_cons.mp hc with rfl | hc
      · refine hcons _ (List.mem_append_left _ ?_)
        have hdeclared := h.1 m hm
        unfold memberDeclared at hdeclared
        cases htype : m.type <;> rw [htype] at hdeclared hn <;> simp only [MemberType.elem] at hn <;> subst hn <;>
          simp_all [Decl.name]
      · exact hcons _ (ih h.2 hc)

theorem exists_of_name {n : String} (h : n ∈ S.map Decl.name) :
    S.known.existsEnum n = true ∨ S.known.existsClass n = true := by
  obtain ⟨d, hd, rfl⟩ := List.mem_map.mp h
  cases d with
  | enumclass e =>
    left
    simp only [Known.existsEnum, Schema.known, List.contains_iff_mem]
    exact List.mem_map_of_mem (mem_enums.mpr hd)
  | cls c =>
    right
    simp only [Known.existsClass, Schema.known, List.contains_iff_mem]
    exact List.mem_map_of_mem (mem_classes.mpr hd)

/-- A type whose names are known is written. -/
theorem exists_stmt {known : Known} {m : Member}
    (h : ∀ n, m.type.elem = .named n → known.existsEnum n = true ∨ known.existsClass n = true) :
    (∃ stmt, serializeMember known m = .ok stmt) ∧ ∃ stmt, deserializeMember known m = .ok stmt := by
  have hitem : ∀ t, t = m.type.elem →
      (∃ item, serializeItem known m.name t = .ok item) ∧ ∃ item, deserializeItem known m.name t = .ok item := by
    rintro t rfl
    cases ht : m.type.elem with
    | pod p => exact ⟨⟨_, rfl⟩, ⟨_, rfl⟩⟩
    | named n =>
      simp only [serializeItem, deserializeItem]
      rcases h n ht with hn | hn <;> rw [hn] <;> cases known.existsEnum n <;> exact ⟨⟨_, rfl⟩, ⟨_, rfl⟩⟩
  unfold serializeMember deserializeMember
  cases htype : m.type with
  | plain t =>
    cases t with
    | pod p => exact ⟨⟨_, rfl⟩, ⟨_, rfl⟩⟩
    | named n =>
      dsimp only
      rcases h n (by rw [htype]; rfl) with hn | hn <;> rw [hn] <;> cases known.existsEnum n <;>
        exact ⟨⟨_, rfl⟩, ⟨_, rfl⟩⟩
  | vector t =>
    obtain ⟨hser, hdes⟩ := hitem t (by rw [htype]; rfl)
    exact ⟨exists_map_eq_ok hser, exists_map_eq_ok hdes⟩
  | map key t =>
    obtain ⟨hser, hdes⟩ := hitem t (by rw [htype]; rfl)
    exact ⟨exists_map_eq_ok hser, exists_map_eq_ok hdes⟩

theorem exists_generate (h : headerCompiles [] S = true) : ∃ P, generate S = .ok P := by
  have hclass : ∀ c ∈ S.classes, ∃ code, dynamicClass S.known c = .ok code := by
    intro c hc
    have hstmt : ∀ m ∈ c.members,
        (∃ stmt, serializeMember S.known m = .ok stmt) ∧ ∃ stmt, deserializeMember S.known m = .ok stmt :=
      fun m hm => exists_stmt fun n hn => exists_of_name (names_of_header h hc hm hn)
    obtain ⟨sers, hsers⟩ := exists_mapM_eq_ok fun m hm => exists_map_eq_ok (f := fun stmt => (m.key, stmt)) (hstmt m hm).1
    obtain ⟨dess, hdess⟩ := exists_mapM_eq_ok fun m hm =>
      exists_map_eq_ok (f := fun stmt => DesCode.mk m.key m.name m.isoptional stmt) (hstmt m hm).2
    exact ⟨_, bind_eq_ok_iff.mpr ⟨sers, hsers, bind_eq_ok_iff.mpr ⟨dess, hdess, rfl⟩⟩⟩
  obtain ⟨classes, hclasses⟩ := exists_mapM_eq_ok hclass
  exact ⟨_, bind_eq_ok_iff.mpr ⟨classes, hclasses, rfl⟩⟩

theorem process_of_reads (hwritten : Written S config) (hreads : S.reads = true) (hkeys : ∀ d ∈ S, d.keysRead = true)
    (hnames : ∀ c, Decl.cls c ∈ S → (c.members.map (·.name)).Nodup) :
    process config = some ((generate S.asRead).map fun source => ⟨S.asRead, source⟩) := by
  obtain ⟨hheader, hknown⟩ := parse_of_reads hwritten hreads hkeys hnames
  rw [process, hheader, hknown, Option.map_some, generate, known_asRead]

theorem process_eq_ok (h : process config = some (.ok files)) :
    (parse (load config)).mapM Block.decl = some files.header := by
  obtain ⟨header, hheader, h⟩ := Option.map_eq_some_iff.mp h
  obtain ⟨source, -, rfl⟩ := map_eq_ok_iff.mp h
  exact hheader

/-- What is supported works. -/
theorem roundTrips_of_supported (hwritten : Written S config) (hs : Supported cpp S) :
    ∃ files, process config = some (.ok files) ∧ RoundTrips cpp S files := by
  have hprocess := process_of_reads hwritten hs.reads hs.keys fun c hc => nodup_members hs.names hc
  have hheader : headerCompiles [] S.asRead = true := (headerCompiles_asRead S []).trans hs.header
  obtain ⟨P, hg⟩ := exists_generate hheader
  rw [hg] at hprocess
  refine ⟨⟨S.asRead, P⟩, hprocess, roundTrips_asRead.mp ?_⟩
  exact roundTrips_of_sound hg hheader (initsCompile_asRead.trans hs.inits) ((namesCompile_asRead S cpp).trans hs.names)
    ((sound_asRead S).mpr hs.sound)

theorem SameTypes.nodup_members (h : SameTypes S files.header) (hnames : namesCompile cpp files.header = true)
    {c : ClassDecl} (hc : Decl.cls c ∈ S) : (c.members.map (·.name)).Nodup := by
  have hmem : (Decl.cls c).declared ∈ files.header.map Decl.declared := by
    rw [h]
    exact List.mem_map_of_mem hc
  obtain ⟨d, hd, heq⟩ := List.mem_map.mp hmem
  cases d with
  | enumclass e => cases heq
  | cls c' =>
    have hmembers : c'.members.map Member.declared = c.members.map Member.declared := by
      simpa using congrArg ClassDecl.members (Decl.cls.inj heq)
    have hsame := congrArg (List.map Member.name) hmembers
    rw [List.map_map, List.map_map] at hsame
    have hnodup := BuildTools.nodup_members hnames hd
    exact hsame ▸ hnodup

/-- What works is supported. -/
theorem supported_of_roundTrips (hwritten : Written S config) (hkeys : ∀ d ∈ S, d.keysRead = true)
    (h2 : ∀ e ∈ S.enums, 2 ≤ e.items.length) (hprocess : process config = some (.ok files))
    (h : RoundTrips cpp S files) : Supported cpp S := by
  have hreads : S.reads = true := reads_of_parse hwritten hkeys (process_eq_ok hprocess) h.declares
  have hcompiles := h.compiles
  simp only [Program.compiles, Bool.and_eq_true] at hcompiles
  have hnames : ∀ c, Decl.cls c ∈ S → (c.members.map (·.name)).Nodup := fun c hc =>
    h.declares.nodup_members hcompiles.2 hc
  rw [process_of_reads hwritten hreads hkeys hnames, Option.some_inj] at hprocess
  obtain ⟨P, hg, rfl⟩ := map_eq_ok_iff.mp hprocess
  have hne : ∀ d ∈ S.asRead.dropLast, d.isEmpty = false := by
    simp only [Schema.reads, Bool.and_eq_true, List.all_eq_true, Bool.not_eq_true'] at hreads
    rw [Schema.asRead, ← List.map_dropLast, List.forall_mem_map]
    intro d hd
    have hempty := hreads.1.2 d hd
    cases d with
    | enumclass e => exact hempty
    | cls c => simpa [Decl.isEmpty, Decl.asRead, ClassDecl.asRead] using hempty
  obtain ⟨hheader, hinits, hnames, hsound⟩ :=
    sound_of_roundTrips hg hne (by rwa [enums_asRead]) (roundTrips_asRead.mpr h)
  exact ⟨hreads, hkeys, (headerCompiles_asRead S []).symm.trans hheader, initsCompile_asRead.symm.trans hinits,
    (namesCompile_asRead S cpp).symm.trans hnames, (sound_asRead S).mp hsound⟩

end Files

/-- A file whose schema is read as it is, has names, types and initializers in order, no
    containers of enums, and items and keys that keep apart gives code that brings every value
    back; and where the keys are plain and every enum has two items, no other does. -/
theorem roundTrips_iff_supported (cpp : Cpp) (S : Schema) (config : List Text) (hwritten : Written S config) :
    (Supported cpp S → ∃ files, process config = some (.ok files) ∧ RoundTrips cpp S files) ∧
      ((∀ d ∈ S, d.keysRead = true) → (∀ e ∈ S.enums, 2 ≤ e.items.length) →
        ∀ files, process config = some (.ok files) → (RoundTrips cpp S files ↔ Supported cpp S)) := by
  refine ⟨roundTrips_of_supported hwritten, fun hkeys h2 files hprocess => ⟨?_, fun hs => ?_⟩⟩
  · exact supported_of_roundTrips hwritten hkeys h2 hprocess
  · obtain ⟨files', hprocess', h⟩ := roundTrips_of_supported hwritten hs
    rw [hprocess, Option.some_inj, Except.ok.injEq] at hprocess'
    rwa [hprocess']

/-- Every kind of member that works, with objects inside objects of their own class. -/
def forest : Schema :=
  [.enumclass { name := "Level", enumType := .int, items := ["LOW", "HIGH"] },
    .enumclass { name := "Color", enumType := .string, items := ["RED", "GREEN"] },
    .cls { name := "Leaf"
           members := [{ name := "node_id", type := .plain (.pod .uint64), init := "7" },
             { name := "color", type := .plain (.named "Color"), serializeName := "Colour", isoptional := true }] },
    .cls { name := "Tree"
           members := [{ name := "root", type := .plain (.named "Leaf") },
             { name := "level", type := .plain (.named "Level") },
             { name := "shard_list", type := .vector (.pod .uint32) },
             { name := "leaves", type := .map .string (.named "Leaf"), isoptional := true },
             { name := "trees", type := .vector (.named "Tree") }] }]

def forestConfig : List Text :=
  ["# a forest", "enumclass int Level", "  LOW", "  HIGH", "", "enumclass string Color", "  RED", "  GREEN", "",
    "class Leaf", "  uint64_t node_id = 7", "  @SR(Colour|optional)", "  const Color color", "", "class Tree",
    "  Leaf root", "  Level level", "  const std::vector<uint32_t> shard_list", "  @SR(|optional)",
    "  const \x22std::unordered_map<std::string, Leaf>\x22 leaves", "  std::vector<Tree> trees"].map String.toList

/-- A compiler with one macro, where numbers initialize numbers. -/
def plainCpp : Cpp where
  macros := ["NULL"]
  declared := ["main"]
  initializes := fun _ type init => type = .plain (.pod .uint64) && init.toList.all Char.isDigit

theorem spread_load {config : List Text}
    (h : ∀ line ∈ config, kept (trim line) = true ∨ trim line = [] ∨ (trim line).head? = some '#') :
    Spread config (load config) := by
  unfold load
  induction config with
  | nil => exact .nil
  | cons line config ih =>
    obtain ⟨hline, hrest⟩ := List.forall_mem_cons.mp h
    rw [List.map_cons, List.filter_cons]
    split
    · exact .line (ih hrest)
    · rename_i hkept
      exact .noise (hline.resolve_left hkept) (ih hrest)

theorem forest_written : Written forest forestConfig := by
  have hnone : Spaces [] := fun _ h => absurd h List.not_mem_nil
  have hone : Spaces [' '] := fun c h => List.mem_singleton.mp h
  have hid : MemberLine { name := "node_id", type := .plain (.pod .uint64), init := "7" }
      "uint64_t node_id = 7".toList :=
    @MemberLine.mk _ false "uint64_t".toList _ " = 7".toList .plain (.bare (by decide)) (.some "7" hone hone)
  have hcolor : MemberLine
      { name := "color", type := .plain (.named "Color"), serializeName := "Colour", isoptional := true }
      "const Color color".toList :=
    @MemberLine.mk _ true "Color".toList _ [] .plain (.bare (by decide)) .none
  have hroot : MemberLine { name := "root", type := .plain (.named "Leaf") } "Leaf root".toList :=
    @MemberLine.mk _ false "Leaf".toList _ [] .plain (.bare (by decide)) .none
  have hlevel : MemberLine { name := "level", type := .plain (.named "Level") } "Level level".toList :=
    @MemberLine.mk _ false "Level".toList _ [] .plain (.bare (by decide)) .none
  have hshards : MemberLine { name := "shard_list", type := .vector (.pod .uint32) }
      "const std::vector<uint32_t> shard_list".toList :=
    @MemberLine.mk _ true "std::vector<uint32_t>".toList _ [] (.vector hnone hnone) (.bare (by decide)) .none
  have hleaves : MemberLine { name := "leaves", type := .map .string (.named "Leaf"), isoptional := true }
      "const \x22std::unordered_map<std::string, Leaf>\x22 leaves".toList :=
    @MemberLine.mk _ true "std::unordered_map<std::string, Leaf>".toList _ []
      (.map (.inr rfl) hnone hnone hone hnone) (.quoted _) .none
  have htrees : MemberLine { name := "trees", type := .vector (.named "Tree") } "std::vector<Tree> trees".toList :=
    @MemberLine.mk _ false "std::vector<Tree>".toList _ [] (.vector hnone hnone) (.bare (by decide)) .none
  have hleaf : BodyLines forest[2]
      (["uint64_t node_id = 7", "@SR(Colour|optional)", "const Color color"].map String.toList) :=
    ⟨_, .cons ⟨_, _, .none rfl rfl, hid, rfl⟩ (.cons ⟨_, _, .some (by decide), hcolor, rfl⟩ .nil), by decide⟩
  have htree : BodyLines forest[3] (["Leaf root", "Level level", "const std::vector<uint32_t> shard_list",
      "@SR(|optional)", "const \x22std::unordered_map<std::string, Leaf>\x22 leaves", "std::vector<Tree> trees"].map String.toList) :=
    ⟨_, .cons ⟨_, _, .none rfl rfl, hroot, rfl⟩ (.cons ⟨_, _, .none rfl rfl, hlevel, rfl⟩
      (.cons ⟨_, _, .none rfl rfl, hshards, rfl⟩ (.cons ⟨_, _, .some (by decide), hleaves, rfl⟩
        (.cons ⟨_, _, .none rfl rfl, htrees, rfl⟩ .nil)))), by decide⟩
  refine ⟨by decide +kernel, _, ⟨_, .cons rfl (.cons rfl (.cons hleaf (.cons htree .nil))), ?_⟩, spread_load ?_⟩
  · decide +kernel
  · decide +kernel

theorem forest_round_trips :
    (∃ files, process forestConfig = some (.ok files) ∧ RoundTrips plainCpp forest files) ∧
      ∀ files, process forestConfig = some (.ok files) →
        (RoundTrips plainCpp forest files ↔ Supported plainCpp forest) := by
  have hs : Supported plainCpp forest := by decide +kernel
  obtain ⟨hsupported, hiff⟩ := roundTrips_iff_supported plainCpp forest forestConfig forest_written
  exact ⟨hsupported hs, hiff hs.keys (by decide)⟩

/-- A box of colors. -/
def colorBox : Schema :=
  [.enumclass { name := "Color", enumType := .string, items := ["RED", "GREEN"] },
    .cls { name := "Box", members := [{ name := "colors", type := .vector (.named "Color") }] }]

def colorBoxConfig : List Text :=
  ["enumclass string Color", "  RED", "  GREEN", "", "class Box", "  std::vector<Color> colors"].map String.toList

theorem colorBox_written : Written colorBox colorBoxConfig := by
  have hnone : Spaces [] := fun _ h => absurd h List.not_mem_nil
  have hcolors : MemberLine { name := "colors", type := .vector (.named "Color") } "std::vector<Color> colors".toList :=
    @MemberLine.mk _ false "std::vector<Color>".toList _ [] (.vector hnone hnone) (.bare (by decide)) .none
  have hbox : BodyLines colorBox[1] ["std::vector<Color> colors".toList] :=
    ⟨_, .cons ⟨_, _, .none rfl rfl, hcolors, rfl⟩ .nil, rfl⟩
  refine ⟨by decide +kernel, _, ⟨_, .cons rfl (.cons hbox .nil), ?_⟩, spread_load ?_⟩
  · decide +kernel
  · decide +kernel

/-- The code for a vector of enums calls `serialize__ENUM__CLASS__`. -/
theorem a_vector_of_enums_does_not_compile :
    ¬ ∀ (cpp : Cpp) (S : Schema) (config : List Text) (files : Output), Written S config →
      process config = some (.ok files) → RoundTrips cpp S files := by
  intro h
  have hcalls : (process colorBoxConfig).map (·.map (·.source.callsCompile)) = some (.ok false) := by decide +kernel
  obtain ⟨result, hprocess, hresult⟩ := Option.map_eq_some_iff.mp hcalls
  obtain ⟨files, rfl, hbad⟩ := map_eq_ok_iff.mp hresult
  have hgood := (h plainCpp colorBox colorBoxConfig files colorBox_written hprocess).compiles
  simp [Program.compiles, hbad] at hgood

end PredictorService.BuildTools
