/-
  PredictorService.BuildTools.EntityCodec — `deserialize` after `serialize` in the generated
  code.

  Each template of `serialize` has its own in `deserialize`, so a value comes back through
  a member's two statements (`runStmt_roundtrip`), through the entries of an object when no
  two members have one key (`rows_roundtrip`), and, by induction on the depth, through the
  generated functions (`roundtrip_of_sound`). What `serialize` returns for a value whose
  maps have string keys can be written as JSON (`isJson_of_serialize`).
-/

import PredictorService.BuildTools.EntityGenerator
import PredictorService.Lib.Loops

namespace PredictorService.BuildTools

open PredictorService.Lib

/-! ## The generated code of a schema -/

section Generated

variable {S : Schema} {P : Program}

theorem generate_ok (hg : generate S = .ok P) :
    P.enums = S.enums ∧ List.Forall₂ (fun c code => dynamicClass S.known c = .ok code) S.classes P.classes := by
  obtain ⟨classes, hclasses, h⟩ := bind_eq_ok_iff.mp hg
  cases h
  exact ⟨rfl, mapM_eq_ok_iff.mp hclasses⟩

/-- The statements stand in the order of the members. -/
theorem dynamicClass_ok {c : ClassDecl} {code : ClassCode} (h : dynamicClass S.known c = .ok code) :
    code.name = c.name ∧
      List.Forall₂ (fun m s => (serializeMember S.known m).map (fun stmt => (m.key, stmt)) = .ok s) c.members
        code.serializes ∧
      List.Forall₂ (fun m d => (deserializeMember S.known m).map (fun stmt => DesCode.mk m.key m.name m.isoptional stmt) =
        .ok d) c.members code.deserializes := by
  obtain ⟨serializes, hser, h⟩ := bind_eq_ok_iff.mp h
  obtain ⟨deserializes, hdes, h⟩ := bind_eq_ok_iff.mp h
  cases h
  exact ⟨rfl, mapM_eq_ok_iff.mp hser, mapM_eq_ok_iff.mp hdes⟩

theorem findClass_generated (hg : generate S = .ok P) {cls : String} {c : ClassDecl} (h : S.findClass cls = some c) :
    ∃ code, P.findClass cls = some code ∧ dynamicClass S.known c = .ok code := by
  refine exists_find?_right (generate_ok hg).2 (fun c code hcode => ?_) h
  rw [(dynamicClass_ok hcode).1]

theorem existsEnum_iff {t : String} : S.known.existsEnum t = true ↔ (S.findEnum t).isSome = true := by
  rw [Schema.findEnum, List.find?_isSome]
  simp [Known.existsEnum, Schema.known]

theorem existsEnum_eq_false_iff {t : String} : S.known.existsEnum t = false ↔ S.findEnum t = none := by
  rw [← Option.not_isSome_iff_eq_none, ← existsEnum_iff, Bool.not_eq_true]

theorem findEnum_some {t : String} {e : EnumDecl} (h : S.findEnum t = some e) : e ∈ S.enums ∧ e.name = t :=
  ⟨List.mem_of_find?_eq_some h, by simpa using List.find?_some h⟩

theorem callSerialize_generated (hg : generate S = .ok P) (t : String) (item : Nat) :
    P.callSerialize ("serialize" ++ t) item = (S.findEnum t).map (·.serialize item) := by
  simp only [Program.callSerialize, (generate_ok hg).1, String.append_right_inj, Schema.findEnum]

theorem callDeserialize_generated (hg : generate S = .ok P) (t : String) (d : Dynamic) :
    P.callDeserialize t d = (S.findEnum t).bind (·.deserialize d) := by
  simp only [Program.callDeserialize, (generate_ok hg).1, String.append_right_inj, Schema.findEnum]

end Generated

/-! ## Pods -/

/-- The way through `int64_t` changes nothing that the narrower types see. -/
theorem Pod.wrap_int64 {p : Pod} {n : Int} (h : p.wrap n = n) : p.wrap (Pod.int64.wrap n) = n ∨ p = .bool ∨ p = .string := by
  cases p with
  | bool => exact .inr (.inl rfl)
  | string => exact .inr (.inr rfl)
  | _ =>
    refine .inl ?_
    simp only [Pod.wrap, Int.bmod_def] at h ⊢
    omega

/-- A pod comes back from a `dynamic`. -/
theorem Scalar.roundtrip {s : Scalar} {p : Pod} (h : s.HasPod p) :
    (diagnostic p).accepts s.toDynamic = true ∧ p.convert s.toDynamic = s := by
  cases s with
  | bool b => cases p <;> first | exact ⟨rfl, rfl⟩ | exact h.elim
  | string s => cases p <;> first | exact ⟨rfl, rfl⟩ | exact h.elim
  | int n =>
    have hint : p ≠ .bool ∧ p ≠ .string ∧ p.wrap n = n := by
      cases p <;> first | exact h.elim | exact ⟨nofun, nofun, h⟩
    obtain ⟨hbool, hstring, hwrap⟩ := hint
    have hback : p.wrap (Pod.int64.wrap n) = n := (Pod.wrap_int64 hwrap).resolve_right fun h => h.elim hbool hstring
    refine ⟨?_, congrArg Scalar.int hback⟩
    cases p <;> first | rfl | exact absurd rfl hbool | exact absurd rfl hstring

/-! ## Enums -/

/-- The items of a string enum keep apart when they are written in lower case. -/
def EnumDecl.Distinct (e : EnumDecl) : Prop := e.enumType = .string → (e.items.map strtolower).Nodup

theorem EnumDecl.roundtrip {e : EnumDecl} (hd : e.Distinct) (hfit : e.items.length ≤ 2147483648) {item : Nat}
    (hitem : item < e.items.length) : e.deserialize (e.serialize item) = some item := by
  unfold EnumDecl.serialize EnumDecl.deserialize
  cases htype : e.enumType with
  | string =>
    have hnd := hd htype
    rw [List.nodup_iff_injective_get] at hnd
    have hname : e.toString item = strtolower e.items[item] := by
      simp [EnumDecl.toString, List.getElem?_eq_getElem hitem]
    simp only [EnumDecl.stringTo, hname, List.findIdx?_eq_some_iff_getElem]
    refine ⟨hitem, by simp, fun j hj hsame => ?_⟩
    simp only [decide_eq_true_eq] at hsame
    have hj' : j < e.items.length := Nat.lt_trans hj hitem
    have heq : (⟨j, by simpa using hj'⟩ : Fin (e.items.map strtolower).length) = ⟨item, by simpa using hitem⟩ :=
      hnd (by simpa using hsame)
    exact absurd (Fin.mk.inj heq) (Nat.ne_of_lt hj)
  | int =>
    have hwrap : Pod.int.wrap item = item := by
      simp only [Pod.wrap, Int.bmod_def]
      omega
    simp only [hwrap]
    rw [if_pos ⟨by omega, by omega⟩, Int.toNat_natCast]

/-! ## Members -/

/-- A container whose elements are of an enum. -/
def holdsEnums (S : Schema) : MemberType → Bool
  | .vector (.named t) => S.known.existsEnum t
  | .map _ (.named t) => S.known.existsEnum t
  | _ => false

section Members

variable {S : Schema} {P : Program} {serRec : String → Value → Option Dynamic} {desRec : String → Dynamic → Option Value}
  {typedRec : String → Value → Prop}

/-- What the classes' functions do for the objects inside. -/
def ClassesRoundtrip (serRec : String → Value → Option Dynamic) (desRec : String → Dynamic → Option Value)
    (typedRec : String → Value → Prop) : Prop :=
  ∀ cls v, typedRec cls v → ∃ d, serRec cls v = some d ∧ d.isObject = true ∧ desRec cls d = some v

theorem runItem_roundtrip (hrec : ClassesRoundtrip serRec desRec typedRec) {name : String} {t : TypeName} {v : Value}
    {ser : SerItem} {des : DesItem} (ht : TypedItem S typedRec t v) (hne : ∀ n, t = .named n → S.known.existsEnum n = false)
    (hser : serializeItem S.known name t = .ok ser) (hdes : deserializeItem S.known name t = .ok des) :
    ∃ d, P.runSerItem serRec ser v = some d ∧ P.runDesItem desRec des d = some v := by
  cases t with
  | pod p =>
    obtain ⟨s, rfl, hs⟩ := ht
    cases hser
    cases hdes
    obtain ⟨hacc, hconv⟩ := Scalar.roundtrip hs
    exact ⟨.scalar s.toDynamic, rfl, by simp [Program.runDesItem, hacc, hconv]⟩
  | named n =>
    have hn := hne n rfl
    simp only [serializeItem, deserializeItem, hn, Bool.false_eq_true, if_false] at hser hdes
    split at hser
    · rename_i hc
      rw [if_pos hc] at hdes
      cases hser
      cases hdes
      simp only [TypedItem, existsEnum_eq_false_iff.mp hn] at ht
      obtain ⟨d, hd, hobj, hback⟩ := hrec n v ht
      exact ⟨d, hd, by simp [Program.runDesItem, hobj, hback]⟩
    · cases hser

/-- The entries of a map come back as the same map, whatever the keys become on the way. -/
theorem runMap_roundtrip {key : Pod} {ser : SerItem} {des : DesItem} {es : List (Scalar × Value)}
    (hsorted : SortedMap.Sorted es) (hkeys : ∀ e ∈ es, e.1.HasPod key)
    (hitem : ∀ e ∈ es, ∃ d, P.runSerItem serRec ser e.2 = some d ∧ P.runDesItem desRec des d = some e.2) :
    ∃ d, P.runSerStmt serRec (.map ser) (.map es) = some d ∧ d.isObject = true ∧
      P.runDesStmt desRec (.map (diagnostic key) key des) d = some (.map es) := by
  have hentry : ∀ e ∈ es, ∃ d, P.runSerEntry serRec ser e = some d ∧
      (P.runSerEntry serRec ser e = some d ∧ d.1 = e.1.toDynamic ∧
        P.runDesEntry desRec (diagnostic key) key des d = some e) := by
    intro e he
    obtain ⟨d, hd, hback⟩ := hitem e he
    obtain ⟨hacc, hconv⟩ := Scalar.roundtrip (hkeys e he)
    have hser : P.runSerEntry serRec ser e = some (e.1.toDynamic, d) := by simp [Program.runSerEntry, hd]
    exact ⟨_, hser, hser, rfl, by simp [Program.runDesEntry, hback, hacc, hconv]⟩
  obtain ⟨entries, hentries, hrel⟩ := exists_mapM_eq_some hentry
  -- different keys become different keys
  have hfun : SortedMap.Functional entries := by
    intro d hd d' hd' hkey
    obtain ⟨e, he, hed, hek, -⟩ := exists_left_of_mem hrel hd
    obtain ⟨e', he', hed', hek', -⟩ := exists_left_of_mem hrel hd'
    have hekey : e.1 = e'.1 := by
      rw [← (Scalar.roundtrip (hkeys e he)).2, ← (Scalar.roundtrip (hkeys e' he')).2, ← hek, ← hek', hkey]
    rw [hsorted.functional e he e' he' hekey, hed'] at hed
    exact (Option.some.inj hed).symm
  have hmem : ∀ d ∈ SortedMap.insertAll entries, ∃ e,
      P.runDesEntry desRec (diagnostic key) key des d = some e ∧ e ∈ es := by
    intro d hd
    obtain ⟨e, he, -, -, hed⟩ := exists_left_of_mem hrel ((SortedMap.mem_insertAll hfun).mp hd)
    exact ⟨e, hed, he⟩
  obtain ⟨out, hout, hoes⟩ := exists_mapM_eq_some hmem
  have houtmem : ∀ e, e ∈ out ↔ e ∈ es := by
    intro e
    constructor
    · intro he
      obtain ⟨d, -, hes⟩ := exists_left_of_mem hoes he
      exact hes
    · intro he
      obtain ⟨d, hd, -, -, hed⟩ := exists_right_of_mem hrel he
      obtain ⟨o, ho, hdo⟩ := exists_right_of_mem (mapM_eq_some_iff.mp hout) ((SortedMap.mem_insertAll hfun).mpr hd)
      rw [hed] at hdo
      rwa [Option.some.inj hdo]
  have hofun : SortedMap.Functional out := by
    intro p hp q hq
    exact hsorted.functional p ((houtmem p).mp hp) q ((houtmem q).mp hq)
  have hsame : SortedMap.emplaceAll out = es := by
    refine SortedMap.eq_of_mem_iff (SortedMap.sorted_emplaceAll out) hsorted fun e => ?_
    rw [SortedMap.mem_emplaceAll hofun, houtmem]
  exact ⟨.object (SortedMap.insertAll entries), by simp [Program.runSerStmt, hentries], rfl,
    by simp [Program.runDesStmt, hout, hsame]⟩

/-- A value comes back through the two statements of its member. -/
theorem runStmt_roundtrip (hg : generate S = .ok P) (henums : ∀ e ∈ S.enums, e.Distinct ∧ e.items.length ≤ 2147483648)
    (hrec : ClassesRoundtrip serRec desRec typedRec) {m : Member} {v : Value} {ser : SerStmt} {des : DesStmt}
    (ht : TypedMember S typedRec m.type v) (hne : holdsEnums S m.type = false)
    (hser : serializeMember S.known m = .ok ser) (hdes : deserializeMember S.known m = .ok des) :
    ∃ d, P.runSerStmt serRec ser v = some d ∧ Program.accepts des d = true ∧ P.runDesStmt desRec des d = some v := by
  unfold serializeMember at hser
  unfold deserializeMember at hdes
  cases htype : m.type with
  | plain t =>
    rw [htype] at ht hser hdes
    cases t with
    | pod p =>
      obtain ⟨s, rfl, hs⟩ := ht
      cases hser
      cases hdes
      obtain ⟨hacc, hconv⟩ := Scalar.roundtrip hs
      exact ⟨.scalar s.toDynamic, rfl, hacc, by simp [Program.runDesStmt, hconv]⟩
    | named n =>
      dsimp only at hser hdes
      split at hser
      · rename_i hn
        rw [if_pos hn] at hdes
        cases hser
        cases hdes
        obtain ⟨e, he⟩ := Option.isSome_iff_exists.mp (existsEnum_iff.mp hn)
        simp only [TypedMember, TypedItem, he] at ht
        obtain ⟨item, hitem, rfl⟩ := ht
        obtain ⟨hdist, hfit⟩ := henums e (findEnum_some he).1
        refine ⟨e.serialize item, ?_, rfl, ?_⟩
        · simp [Program.runSerStmt, callSerialize_generated hg, he]
        · simp [Program.runDesStmt, callDeserialize_generated hg, he, EnumDecl.roundtrip hdist hfit hitem]
      · rename_i hn
        rw [if_neg hn] at hdes
        split at hser
        · rename_i hc
          rw [if_pos hc] at hdes
          cases hser
          cases hdes
          simp only [TypedMember, TypedItem, existsEnum_eq_false_iff.mp (by simpa using hn)] at ht
          obtain ⟨d, hd, -, hback⟩ := hrec n v ht
          exact ⟨d, hd, rfl, hback⟩
        · cases hser
  | vector t =>
    rw [htype] at ht hser hdes hne
    obtain ⟨vs, rfl, hvs⟩ := ht
    obtain ⟨ser, hseritem, rfl⟩ := map_eq_ok_iff.mp hser
    obtain ⟨des, hdesitem, rfl⟩ := map_eq_ok_iff.mp hdes
    have hitem : ∀ x ∈ vs, ∃ d, P.runSerItem serRec ser x = some d ∧ P.runDesItem desRec des d = some x := by
      intro x hx
      exact runItem_roundtrip hrec (hvs x hx) (fun n hn => by rw [hn] at hne; exact hne) hseritem hdesitem
    obtain ⟨ds, hds, hback⟩ := exists_mapM_eq_some hitem
    have hvs' := mapM_eq_some_iff.mpr (List.Forall₂.flip hback)
    exact ⟨.array ds, by simp [Program.runSerStmt, hds], rfl, by simp [Program.runDesStmt, hvs']⟩
  | map key t =>
    rw [htype] at ht hser hdes hne
    obtain ⟨es, rfl, hsorted, hes⟩ := ht
    obtain ⟨ser, hseritem, rfl⟩ := map_eq_ok_iff.mp hser
    obtain ⟨des, hdesitem, rfl⟩ := map_eq_ok_iff.mp hdes
    exact runMap_roundtrip hsorted (fun e he => (hes e he).1) fun e he =>
      runItem_roundtrip hrec (hes e he).2 (fun n hn => by rw [hn] at hne; exact hne) hseritem hdesitem

end Members

/-! ## Objects -/

/-- A member with its statements, its value and what `serialize` makes of it. -/
structure Row where
  member : Member
  ser : SerStmt
  des : DesStmt
  value : Value
  dynamic : Dynamic

section Objects

variable {S : Schema} {P : Program} {serRec : String → Value → Option Dynamic} {desRec : String → Dynamic → Option Value}
  {typedRec : String → Value → Prop}

def Row.entry (r : Row) : Scalar × Dynamic := (.string r.member.key, r.dynamic)

def Row.desCode (r : Row) : DesCode := ⟨r.member.key, r.member.name, r.member.isoptional, r.des⟩

theorem exists_rows {ms : List Member} {sers : List (String × SerStmt)} {dess : List DesCode} {vs : List Value}
    {R : Row → Prop}
    (hser : List.Forall₂ (fun m s => (serializeMember S.known m).map (fun stmt => (m.key, stmt)) = .ok s) ms sers)
    (hdes : List.Forall₂ (fun m d => (deserializeMember S.known m).map
      (fun stmt => DesCode.mk m.key m.name m.isoptional stmt) = .ok d) ms dess)
    (hvs : List.Forall₂ (fun m v => TypedMember S typedRec m.type v) ms vs)
    (hrow : ∀ m ∈ ms, ∀ v ser des, TypedMember S typedRec m.type v → serializeMember S.known m = .ok ser →
      deserializeMember S.known m = .ok des → ∃ d, R ⟨m, ser, des, v, d⟩) :
    ∃ rows : List Row, ms = rows.map Row.member ∧ sers = rows.map (fun r => (r.member.key, r.ser)) ∧
      dess = rows.map Row.desCode ∧ vs = rows.map Row.value ∧ ∀ r ∈ rows, R r := by
  induction ms generalizing sers dess vs with
  | nil =>
    cases hser
    cases hdes
    cases hvs
    exact ⟨[], rfl, rfl, rfl, rfl, by simp⟩
  | cons m ms ih =>
    cases hser with
    | cons hs hser =>
      cases hdes with
      | cons hd hdes =>
        cases hvs with
        | cons hv hvs =>
          obtain ⟨ser, hser', rfl⟩ := map_eq_ok_iff.mp hs
          obtain ⟨des, hdes', rfl⟩ := map_eq_ok_iff.mp hd
          obtain ⟨d, hr⟩ := hrow m List.mem_cons_self _ ser des hv hser' hdes'
          obtain ⟨rows, rfl, rfl, rfl, rfl, hrows⟩ := ih hser hdes hvs fun m' hm' =>
            hrow m' (List.mem_cons_of_mem _ hm')
          refine ⟨⟨m, ser, des, _, d⟩ :: rows, rfl, rfl, rfl, rfl, ?_⟩
          intro r hr'
          rcases List.mem_cons.mp hr' with rfl | hr'
          · exact hr
          · exact hrows r hr'

theorem runSerStmts_rows {rows : List Row} (h : ∀ r ∈ rows, P.runSerStmt serRec r.ser r.value = some r.dynamic) :
    P.runSerStmts serRec (rows.map fun r => (r.member.key, r.ser)) (rows.map Row.value) = some (rows.map Row.entry) := by
  rw [Program.runSerStmts, mapM_eq_some_iff, List.zip_map']
  rw [List.forall₂_map_left_iff, List.forall₂_map_right_iff, List.forall₂_same]
  intro r hr
  simp [h r hr, Row.entry]

/-- With different keys each member reads what was written for it. -/
theorem rows_roundtrip {rows : List Row} (hkeys : (rows.map fun r => r.member.key).Nodup)
    (h : ∀ r ∈ rows, Program.accepts r.des r.dynamic = true ∧ P.runDesStmt desRec r.des r.dynamic = some r.value)
    (old : DesCode → Value) :
    (rows.map Row.desCode).mapM (fun code => P.runDesCode desRec (SortedMap.insertAll (rows.map Row.entry)) (old code) code) =
      some (rows.map Row.value) := by
  have hfun : SortedMap.Functional (rows.map Row.entry) := by
    intro p hp q hq hkey
    obtain ⟨r, hr, rfl⟩ := List.mem_map.mp hp
    obtain ⟨r', hr', rfl⟩ := List.mem_map.mp hq
    rw [List.inj_on_of_nodup_map hkeys hr hr' (Scalar.string.inj hkey)]
  rw [mapM_eq_some_iff, List.forall₂_map_left_iff, List.forall₂_map_right_iff, List.forall₂_same]
  intro r hr
  have hget : SortedMap.get? (SortedMap.insertAll (rows.map Row.entry)) (.string r.desCode.key) = some r.dynamic :=
    (SortedMap.get?_insertAll hfun).mpr (List.mem_map.mpr ⟨r, hr, rfl⟩)
  obtain ⟨hacc, hback⟩ := h r hr
  simp only [Program.runDesCode, hget]
  exact (if_pos hacc).trans hback

end Objects

/-! ## Schemas whose code works -/

/-- What a schema has to keep for its values to come back. -/
def Sound (S : Schema) : Prop :=
  (∀ c ∈ S.classes, ∀ m ∈ c.members, holdsEnums S m.type = false) ∧
    (∀ e ∈ S.enums, e.Distinct ∧ e.items.length ≤ 2147483648) ∧ ∀ c ∈ S.classes, (c.members.map Member.key).Nodup

instance (e : EnumDecl) : Decidable e.Distinct := inferInstanceAs (Decidable (_ → _))

instance (S : Schema) : Decidable (Sound S) := inferInstanceAs (Decidable (_ ∧ _))

theorem roundtrip_of_sound {S : Schema} {P : Program} (hg : generate S = .ok P) (hs : Sound S)
    (fresh : String → String → Value) (n : Nat) :
    ClassesRoundtrip (P.serialize n) (P.deserialize fresh n) (Typed S n) := by
  obtain ⟨hcont, hdist, hkeys⟩ := hs
  induction n with
  | zero => exact fun _ _ h => h.elim
  | succ n ih =>
    intro cls v ht
    obtain ⟨c, vs, hc, rfl, hvs⟩ := ht
    have hmem : c ∈ S.classes := List.mem_of_find?_eq_some hc
    obtain ⟨code, hcode, hdyn⟩ := findClass_generated hg hc
    obtain ⟨-, hser, hdes⟩ := dynamicClass_ok hdyn
    obtain ⟨rows, hrm, hrs, hrd, rfl, hrows⟩ := exists_rows hser hdes hvs
      (R := fun r => P.runSerStmt (P.serialize n) r.ser r.value = some r.dynamic ∧
        Program.accepts r.des r.dynamic = true ∧ P.runDesStmt (P.deserialize fresh n) r.des r.dynamic = some r.value)
      fun m hm v ser des hv hs hd =>
        runStmt_roundtrip hg hdist ih hv (hcont c hmem m hm) hs hd
    have hkeys' : (rows.map fun r => r.member.key).Nodup := by
      have := hkeys c hmem
      rwa [hrm, List.map_map] at this
    have hout := runSerStmts_rows fun r hr => (hrows r hr).1
    have hin := rows_roundtrip hkeys' (fun r hr => (hrows r hr).2) fun code => fresh cls code.name
    refine ⟨.object (SortedMap.insertAll (rows.map Row.entry)), ?_, rfl, ?_⟩
    · simp [Program.serialize, hcode, hrs, hout]
    · simp [Program.deserialize, hcode, hrd, hin]

/-! ## JSON -/

/-- What a JSON text can hold: objects with string keys, arrays, strings, 64-bit integers and
    bools. -/
inductive Dynamic.IsJson : Dynamic → Prop
  | bool (b : Bool) : IsJson (.scalar (.bool b))
  | int {n : Int} (h : Pod.int64.wrap n = n) : IsJson (.scalar (.int n))
  | string (s : String) : IsJson (.scalar (.string s))
  | array {ds : List Dynamic} (h : ∀ d ∈ ds, IsJson d) : IsJson (.array ds)
  | object {es : List (Scalar × Dynamic)} (hsorted : SortedMap.Sorted es) (hkeys : ∀ e ∈ es, ∃ k, e.1 = .string k)
      (h : ∀ e ∈ es, IsJson e.2) : IsJson (.object es)

/-- A value whose maps have string keys; an enumerator is an `int`. -/
inductive Value.StringKeys : Value → Prop
  | scalar (s : Scalar) : StringKeys (.scalar s)
  | enum {item : Nat} (h : item < 2147483648) : StringKeys (.enum item)
  | vector {vs : List Value} (h : ∀ v ∈ vs, StringKeys v) : StringKeys (.vector vs)
  | map {es : List (Scalar × Value)} (hkeys : ∀ e ∈ es, ∃ k, e.1 = .string k) (h : ∀ e ∈ es, StringKeys e.2) :
      StringKeys (.map es)
  | object {vs : List Value} (h : ∀ v ∈ vs, StringKeys v) : StringKeys (.object vs)

section Json

variable {P : Program} {recur : String → Value → Option Dynamic}

theorem Scalar.isJson_toDynamic (s : Scalar) : (Dynamic.scalar s.toDynamic).IsJson := by
  cases s with
  | bool b => exact .bool b
  | string s => exact .string s
  | int n => exact .int Int.bmod_bmod

theorem callSerialize_isJson {function : String} {item : Nat} {d : Dynamic} (hitem : item < 2147483648)
    (h : P.callSerialize function item = some d) : d.IsJson := by
  obtain ⟨e, -, rfl⟩ := Option.map_eq_some_iff.mp h
  unfold EnumDecl.serialize
  split
  · exact .string _
  · refine .int ?_
    simp only [Pod.wrap, Int.bmod_def]
    omega

/-- What the classes' functions make of the objects inside. -/
def ClassesJson (recur : String → Value → Option Dynamic) : Prop :=
  ∀ cls v d, v.StringKeys → recur cls v = some d → d.IsJson

theorem runSerItem_isJson (hrec : ClassesJson recur) {item : SerItem} {v : Value} {d : Dynamic} (hv : v.StringKeys)
    (h : P.runSerItem recur item v = some d) : d.IsJson := by
  unfold Program.runSerItem at h
  split at h
  · cases h
    exact Scalar.isJson_toDynamic _
  · cases hv with
    | enum hitem => exact callSerialize_isJson hitem h
  · exact hrec _ _ _ hv h
  · cases h

theorem runSerStmt_isJson (hrec : ClassesJson recur) {stmt : SerStmt} {v : Value} {d : Dynamic} (hv : v.StringKeys)
    (h : P.runSerStmt recur stmt v = some d) : d.IsJson := by
  unfold Program.runSerStmt at h
  split at h
  · cases h
    exact Scalar.isJson_toDynamic _
  · obtain ⟨ds, hds, rfl⟩ := Option.map_eq_some_iff.mp h
    cases hv with
    | vector hvs =>
      refine .array fun d hd => ?_
      obtain ⟨x, hx, hxd⟩ := exists_left_of_mem (mapM_eq_some_iff.mp hds) hd
      exact runSerItem_isJson hrec (hvs x hx) hxd
  · obtain ⟨entries, hentries, rfl⟩ := Option.map_eq_some_iff.mp h
    cases hv with
    | map hkeys hes =>
      have hentry : ∀ p ∈ SortedMap.insertAll entries, (∃ k, p.1 = .string k) ∧ p.2.IsJson := by
        intro p hp
        obtain ⟨e, he, hep⟩ := exists_left_of_mem (mapM_eq_some_iff.mp hentries) (SortedMap.mem_of_mem_insertAll hp)
        obtain ⟨d, hd, rfl⟩ := Option.map_eq_some_iff.mp hep
        obtain ⟨k, hk⟩ := hkeys e he
        exact ⟨⟨k, by rw [hk]; rfl⟩, runSerItem_isJson hrec (hes e he) hd⟩
      exact .object (SortedMap.sorted_insertAll _) (fun p hp => (hentry p hp).1) fun p hp => (hentry p hp).2
  · cases hv with
    | enum hitem => exact callSerialize_isJson hitem h
  · exact hrec _ _ _ hv h
  · cases h

theorem isJson_of_serialize (n : Nat) : ClassesJson (P.serialize n) := by
  induction n with
  | zero =>
    intro cls v d _ h
    cases h
  | succ n ih =>
    intro cls v d hv h
    cases hv with
    | object hvs =>
      obtain ⟨c, -, h⟩ := Option.bind_eq_some_iff.mp h
      obtain ⟨entries, hentries, h⟩ := Option.bind_eq_some_iff.mp h
      cases h
      have hentry : ∀ p ∈ SortedMap.insertAll entries, (∃ k, p.1 = .string k) ∧ p.2.IsJson := by
        intro p hp
        obtain ⟨q, hq, hqp⟩ := exists_left_of_mem (mapM_eq_some_iff.mp hentries) (SortedMap.mem_of_mem_insertAll hp)
        obtain ⟨d, hd, rfl⟩ := Option.map_eq_some_iff.mp hqp
        exact ⟨⟨q.1.1, rfl⟩, runSerStmt_isJson ih (hvs q.2 (List.of_mem_zip hq).2) hd⟩
      exact .object (SortedMap.sorted_insertAll _) (fun p hp => (hentry p hp).1) fun p hp => (hentry p hp).2
    | _ => cases h

end Json

end PredictorService.BuildTools
