/-
  PredictorService.BuildTools.EntityStrictness — what `deserialize` of the generated code
  makes of numbers (build_tools/entity_generator.php, `deserialize_item_pod`,
  `deserialize_container_item_vector_pod`, `diagnostic`).

  A member is asked only whether its entry `isInt`; the `int64_t` that `asInt` returns goes
  through a setter of the member's own type. So what is read is always a value of the type
  (`typed_of_runDesCode`), but it is the number of the entry iff that fits the type
  (`memberExact_iff`, for scalars, vectors and their optional variants).
-/

import PredictorService.BuildTools.EntityCodec

namespace PredictorService.BuildTools

open PredictorService.Lib

/-! ## The integer types -/

def Pod.isInteger (p : Pod) : Bool := diagnostic p = .isInt

def Pod.low : Pod → Int
  | .int8 => -128
  | .int16 => -32768
  | .int | .int32 => -2147483648
  | .int64 => -9223372036854775808
  | _ => 0

def Pod.high : Pod → Int
  | .uint8 => 255
  | .uint16 => 65535
  | .uint32 => 4294967295
  | .uint64 => 18446744073709551615
  | .int8 => 127
  | .int16 => 32767
  | .int | .int32 => 2147483647
  | .int64 => 9223372036854775807
  | .bool | .string => 0

/-- The number is one of the type's. -/
def Pod.fits (p : Pod) (n : Int) : Bool := p.low ≤ n && n ≤ p.high

theorem Pod.fits_iff {p : Pod} {n : Int} : p.fits n = true ↔ p.low ≤ n ∧ n ≤ p.high := by
  rw [Pod.fits, Bool.and_eq_true, decide_eq_true_eq, decide_eq_true_eq]

theorem Pod.wrap_eq_self_iff {p : Pod} (hp : p.isInteger = true) {n : Int} : p.wrap n = n ↔ p.fits n = true := by
  rw [Pod.fits_iff]
  cases p with
  | bool => cases hp
  | string => cases hp
  | _ =>
    simp only [Pod.wrap, Pod.low, Pod.high, Int.bmod_def]
    omega

theorem Pod.wrap_wrap (p : Pod) (n : Int) : p.wrap (p.wrap n) = p.wrap n := by
  cases p <;> simp [Pod.wrap]

/-- What an accepted entry is converted to is of the type. -/
theorem hasPod_convert {p : Pod} {s : Scalar} (h : (diagnostic p).accepts s = true) : (p.convert s).HasPod p := by
  cases s with
  | int n =>
    have hwrap : (Pod.convert p (.int n)).HasPod p ↔ p.isInteger = true := by
      cases p <;> simp [Pod.convert, Scalar.HasPod, Pod.wrap_wrap, Pod.isInteger, diagnostic]
    refine hwrap.mpr ?_
    cases p <;> first | rfl | cases h
  | bool b => cases p <;> trivial
  | string s => cases p <;> trivial

/-! ## Values of the type -/

section Read

variable {S : Schema} {P : Program} {recur : String → Dynamic → Option Value} {typedRec : String → Value → Prop}

/-- An enumerator that is read is one of the enum. -/
theorem typed_of_callDeserialize (hg : generate S = .ok P) {t : String} (ht : S.known.existsEnum t = true) {d : Dynamic}
    {v : Value} (h : (P.callDeserialize t d).map Value.enum = some v) : TypedItem S typedRec (.named t) v := by
  obtain ⟨e, he⟩ := Option.isSome_iff_exists.mp (existsEnum_iff.mp ht)
  obtain ⟨item, hitem, rfl⟩ := Option.map_eq_some_iff.mp h
  have hlt : item < e.items.length := by
    rw [callDeserialize_generated hg, he, Option.bind_some] at hitem
    unfold EnumDecl.deserialize at hitem
    split at hitem
    · exact (List.findIdx?_eq_some_iff_getElem.mp hitem).1
    · dsimp only at hitem
      split at hitem
      · rename_i hrange
        rw [← Option.some.inj hitem]
        omega
      · cases hitem
    · cases hitem
  simp only [TypedItem, he]
  exact ⟨item, hlt, rfl⟩

theorem typedItem_of_rec {t : String} (ht : ¬ S.known.existsEnum t = true) {v : Value} (h : typedRec t v) :
    TypedItem S typedRec (.named t) v := by
  simp only [TypedItem, existsEnum_eq_false_iff.mp (by simpa using ht)]
  exact h

theorem typed_of_runDesItem (hg : generate S = .ok P) (hrec : ∀ cls d v, recur cls d = some v → typedRec cls v)
    {name : String} {t : TypeName} {item : DesItem} (hitem : deserializeItem S.known name t = .ok item) {d : Dynamic}
    {v : Value} (h : P.runDesItem recur item d = some v) : TypedItem S typedRec t v := by
  cases t with
  | pod p =>
    cases hitem
    cases d with
    | scalar s =>
      simp only [Program.runDesItem, Option.ite_none_right_eq_some, Option.some.injEq] at h
      obtain ⟨hacc, rfl⟩ := h
      exact ⟨p.convert s, rfl, hasPod_convert hacc⟩
    | array ds => cases h
    | object es => cases h
  | named n =>
    simp only [deserializeItem] at hitem
    split at hitem
    · rename_i hn
      cases hitem
      simp only [Program.runDesItem, Option.ite_none_right_eq_some] at h
      exact typed_of_callDeserialize hg hn h.2
    · rename_i hn
      split at hitem
      · cases hitem
        simp only [Program.runDesItem, Option.ite_none_right_eq_some] at h
        exact typedItem_of_rec hn (hrec n d v h.2)
      · cases hitem

/-- The entries that are read of an object are the entries of a map. -/
theorem typed_of_runDesEntries (hg : generate S = .ok P) (hrec : ∀ cls d v, recur cls d = some v → typedRec cls v)
    {name : String} {key : Pod} {t : TypeName} {item : DesItem} (hitem : deserializeItem S.known name t = .ok item)
    {es : List (Scalar × Dynamic)} {entries : List (Scalar × Value)}
    (h : es.mapM (P.runDesEntry recur (diagnostic key) key item) = some entries) :
    TypedMember S typedRec (.map key t) (.map (SortedMap.emplaceAll entries)) := by
  refine ⟨_, rfl, SortedMap.sorted_emplaceAll entries, fun e he => ?_⟩
  obtain ⟨d, -, hd⟩ := exists_left_of_mem (mapM_eq_some_iff.mp h) (SortedMap.mem_of_mem_emplaceAll he)
  obtain ⟨x, hx, hd⟩ := Option.bind_eq_some_iff.mp hd
  simp only [Option.ite_none_right_eq_some, Option.some.injEq] at hd
  obtain ⟨hkey, rfl⟩ := hd
  exact ⟨hasPod_convert hkey, typed_of_runDesItem hg hrec hitem hx⟩

theorem typed_of_runDesStmt (hg : generate S = .ok P) (hrec : ∀ cls d v, recur cls d = some v → typedRec cls v)
    {m : Member} {stmt : DesStmt} (hstmt : deserializeMember S.known m = .ok stmt) {d : Dynamic}
    (hacc : Program.accepts stmt d = true) {v : Value} (h : P.runDesStmt recur stmt d = some v) :
    TypedMember S typedRec m.type v := by
  unfold deserializeMember at hstmt
  cases htype : m.type with
  | plain t =>
    rw [htype] at hstmt
    cases t with
    | pod p =>
      cases hstmt
      cases d with
      | scalar s =>
        cases h
        exact ⟨p.convert s, rfl, hasPod_convert hacc⟩
      | array ds => cases hacc
      | object es => cases hacc
    | named n =>
      dsimp only at hstmt
      split at hstmt
      · rename_i hn
        cases hstmt
        exact typed_of_callDeserialize hg hn h
      · rename_i hn
        split at hstmt
        · cases hstmt
          exact typedItem_of_rec hn (hrec n d v h)
        · cases hstmt
  | vector t =>
    rw [htype] at hstmt
    obtain ⟨item, hitem, rfl⟩ := map_eq_ok_iff.mp hstmt
    cases d with
    | scalar s => cases hacc
    | object es => cases hacc
    | array ds =>
      simp only [Program.runDesStmt, Option.map_eq_some_iff] at h
      obtain ⟨vs, hvs, rfl⟩ := h
      refine ⟨vs, rfl, fun x hx => ?_⟩
      obtain ⟨d, -, hd⟩ := exists_left_of_mem (mapM_eq_some_iff.mp hvs) hx
      exact typed_of_runDesItem hg hrec hitem hd
  | map key t =>
    rw [htype] at hstmt
    obtain ⟨item, hitem, rfl⟩ := map_eq_ok_iff.mp hstmt
    cases d with
    | scalar s => cases hacc
    | array ds => cases hacc
    | object es =>
      simp only [Program.runDesStmt, Option.map_eq_some_iff] at h
      obtain ⟨entries, hentries, rfl⟩ := h
      exact typed_of_runDesEntries hg hrec hitem hentries

theorem typed_of_runDesCode (hg : generate S = .ok P) (hrec : ∀ cls d v, recur cls d = some v → typedRec cls v)
    {m : Member} {stmt : DesStmt} (hstmt : deserializeMember S.known m = .ok stmt) {data : List (Scalar × Dynamic)}
    {old v : Value} (hold : TypedMember S typedRec m.type old)
    (h : P.runDesCode recur data old ⟨m.key, m.name, m.isoptional, stmt⟩ = some v) : TypedMember S typedRec m.type v := by
  have hkept : (if m.isoptional then some old else none) = some v → TypedMember S typedRec m.type v := by
    intro hkeep
    rw [Option.ite_none_right_eq_some, Option.some.injEq] at hkeep
    rw [← hkeep.2]
    exact hold
  unfold Program.runDesCode at h
  split at h
  · split at h
    · rename_i hacc
      exact typed_of_runDesStmt hg hrec hstmt hacc h
    · exact hkept h
  · exact hkept h

/-- The statements of a class that are run on an object stand in the order of its members. -/
theorem members_of_deserialize (hg : generate S = .ok P) {fresh : String → String → Value} {n : Nat} {cls : String}
    {c : ClassDecl} (hc : S.findClass cls = some c) {data : List (Scalar × Dynamic)} {v : Value}
    (h : P.deserialize fresh (n + 1) cls (.object data) = some v) :
    ∃ vs, v = .object vs ∧ List.Forall₂ (fun m v => ∃ stmt, deserializeMember S.known m = .ok stmt ∧
      P.runDesCode (P.deserialize fresh n) data (fresh cls m.name) ⟨m.key, m.name, m.isoptional, stmt⟩ = some v)
        c.members vs := by
  obtain ⟨code, hcode, hdyn⟩ := findClass_generated hg hc
  rw [Program.deserialize, hcode] at h
  simp only [Option.bind_eq_bind, Option.bind_some, Option.bind_eq_some_iff, Option.pure_def, Option.some.injEq] at h
  obtain ⟨vs, hvs, rfl⟩ := h
  refine ⟨vs, rfl, forall₂_comp (dynamicClass_ok hdyn).2.2 (mapM_eq_some_iff.mp hvs) fun m code v hm hv => ?_⟩
  obtain ⟨stmt, hstmt, rfl⟩ := map_eq_ok_iff.mp hm
  exact ⟨stmt, hstmt, hv⟩

/-! ## The numbers themselves -/

/-- A number, or an array of numbers, that stands under the key of an integer member or of a
    vector of integers is the member's value. -/
structure MemberExact (data : List (Scalar × Dynamic)) (m : Member) (v : Value) : Prop where
  scalar : ∀ p n, m.type = .plain (.pod p) → p.isInteger = true →
    SortedMap.get? data (.string m.key) = some (.scalar (.int n)) → v = .scalar (.int n)
  vector : ∀ p (ns : List Int), m.type = .vector (.pod p) → p.isInteger = true →
    SortedMap.get? data (.string m.key) = some (.array (ns.map fun n => .scalar (.int n))) →
    v = .vector (ns.map fun n => .scalar (.int n))

/-- The numbers of an entry are ones of the member's type. -/
def entryFits : MemberType → Dynamic → Bool
  | .plain (.pod p), .scalar (.int n) => !p.isInteger || p.fits n
  | .vector (.pod p), .array ds => !p.isInteger || ds.all fun
    | .scalar (.int n) => p.fits n
    | _ => true
  | _, _ => true

def memberFits (data : List (Scalar × Dynamic)) (m : Member) : Bool :=
  match SortedMap.get? data (.string m.key) with
  | some d => entryFits m.type d
  | none => true

/-- Each number of an array goes through the conversion to the type of the elements. -/
theorem mapM_runDesItem_ints {p : Pod} (hp : p.isInteger = true) {ds : List Dynamic} {vs : List Value}
    (h : ds.mapM (P.runDesItem recur (.pod (diagnostic p) p)) = some vs) :
    ∃ ns : List Int, ds = ns.map (fun n => .scalar (.int n)) ∧ vs = ns.map fun n => .scalar (.int (p.wrap n)) := by
  have hint : diagnostic p = .isInt := by simpa [Pod.isInteger] using hp
  rw [hint] at h
  have hrel := mapM_eq_some_iff.mp h
  clear h
  induction hrel with
  | nil => exact ⟨[], rfl, rfl⟩
  | @cons d v ds vs hd _ ih =>
    obtain ⟨ns, rfl, rfl⟩ := ih
    cases d with
    | scalar s =>
      cases s with
      | int n =>
        cases hd
        exact ⟨n :: ns, rfl, rfl⟩
      | bool b => cases hd
      | string s => cases hd
    | array ds => cases hd
    | object es => cases hd

section Entry

variable {data : List (Scalar × Dynamic)} {m : Member} {v : Value}

theorem memberExact_scalar_iff {p : Pod} {n : Int} (htype : m.type = .plain (.pod p)) (hp : p.isInteger = true)
    (hentry : SortedMap.get? data (.string m.key) = some (.scalar (.int n))) :
    MemberExact data m v ↔ v = .scalar (.int n) := by
  constructor
  · intro h
    exact h.scalar p n htype hp hentry
  · intro h
    refine ⟨fun _ n' _ _ hentry' => ?_, fun _ _ htype' => ?_⟩
    · rw [hentry] at hentry'
      cases hentry'
      exact h
    · rw [htype] at htype'
      cases htype'

theorem memberExact_vector_iff {p : Pod} {ns : List Int} (htype : m.type = .vector (.pod p)) (hp : p.isInteger = true)
    (hentry : SortedMap.get? data (.string m.key) = some (.array (ns.map fun n => .scalar (.int n)))) :
    MemberExact data m v ↔ v = .vector (ns.map fun n => .scalar (.int n)) := by
  constructor
  · intro h
    exact h.vector p ns htype hp hentry
  · intro h
    refine ⟨fun _ _ htype' => ?_, fun _ ns' _ _ hentry' => ?_⟩
    · rw [htype] at htype'
      cases htype'
    · rw [hentry, Option.some.injEq, Dynamic.array.injEq] at hentry'
      have hinj : Function.Injective fun n : Int => Dynamic.scalar (.int n) := by
        intro a b hab
        cases hab
        rfl
      rw [← List.map_injective_iff.mpr hinj hentry']
      exact h

/-- A member that is no integer and no vector of integers, or an entry of another kind. -/
theorem memberExact_iff_other (hscalar : ∀ p n, m.type = .plain (.pod p) → p.isInteger = true →
      SortedMap.get? data (.string m.key) ≠ some (.scalar (.int n)))
    (hvector : ∀ p (ds : List Dynamic), m.type = .vector (.pod p) → p.isInteger = true →
      SortedMap.get? data (.string m.key) ≠ some (.array ds)) : MemberExact data m v ↔ memberFits data m = true := by
  refine iff_of_true ⟨fun p n htype hp h => absurd h (hscalar p n htype hp),
    fun p _ htype hp h => absurd h (hvector p _ htype hp)⟩ ?_
  unfold memberFits
  split
  · rename_i d hentry
    unfold entryFits
    split
    · rename_i p n htype
      cases hp : p.isInteger with
      | false => rfl
      | true => exact absurd hentry (hscalar p n htype hp)
    · rename_i p ds htype
      cases hp : p.isInteger with
      | false => rfl
      | true => exact absurd hentry (hvector p ds htype hp)
    · rfl
  · rfl

end Entry

section Statement

variable {m : Member} {data : List (Scalar × Dynamic)} {old v : Value}

theorem memberExact_iff_scalar {p : Pod} {n : Int} (htype : m.type = .plain (.pod p)) (hp : p.isInteger = true)
    (hentry : SortedMap.get? data (.string m.key) = some (.scalar (.int n)))
    (h : P.runDesCode recur data old ⟨m.key, m.name, m.isoptional, .pod (diagnostic p) p⟩ = some v) :
    MemberExact data m v ↔ memberFits data m = true := by
  have hint : diagnostic p = .isInt := by simpa [Pod.isInteger] using hp
  simp only [Program.runDesCode, hentry, hint, Program.accepts, IsType.accepts, if_true, Program.runDesStmt,
    Pod.convert, Option.some.injEq] at h
  rw [memberExact_scalar_iff htype hp hentry, memberFits, hentry, htype, ← h]
  simp only [entryFits, hp, Bool.not_true, Bool.false_or, Value.scalar.injEq, Scalar.int.injEq]
  exact Pod.wrap_eq_self_iff hp

theorem memberExact_iff_vector {p : Pod} {ds : List Dynamic} (htype : m.type = .vector (.pod p))
    (hp : p.isInteger = true) (hentry : SortedMap.get? data (.string m.key) = some (.array ds))
    (h : P.runDesCode recur data old ⟨m.key, m.name, m.isoptional, .vector (.pod (diagnostic p) p)⟩ = some v) :
    MemberExact data m v ↔ memberFits data m = true := by
  simp only [Program.runDesCode, hentry, Program.accepts, Dynamic.isArray, if_true, Program.runDesStmt] at h
  obtain ⟨vs, hvs, rfl⟩ := Option.map_eq_some_iff.mp h
  obtain ⟨ns, rfl, rfl⟩ := mapM_runDesItem_ints hp hvs
  rw [memberExact_vector_iff htype hp hentry, memberFits, hentry, htype]
  simp only [entryFits, hp, Bool.not_true, Bool.false_or, Value.vector.injEq, List.map_inj_left, List.all_eq_true,
    List.forall_mem_map, Value.scalar.injEq, Scalar.int.injEq]
  exact forall₂_congr fun n _ => Pod.wrap_eq_self_iff hp

/-- A member is read as it stands iff its numbers fit. -/
theorem memberExact_iff {stmt : DesStmt} (hstmt : deserializeMember S.known m = .ok stmt)
    (h : P.runDesCode recur data old ⟨m.key, m.name, m.isoptional, stmt⟩ = some v) :
    MemberExact data m v ↔ memberFits data m = true := by
  by_cases hscalar : ∃ p n, m.type = .plain (.pod p) ∧ p.isInteger = true ∧
      SortedMap.get? data (.string m.key) = some (.scalar (.int n))
  · obtain ⟨p, n, htype, hp, hentry⟩ := hscalar
    rw [deserializeMember, htype] at hstmt
    cases hstmt
    exact memberExact_iff_scalar htype hp hentry h
  by_cases hvector : ∃ p ds, m.type = .vector (.pod p) ∧ p.isInteger = true ∧
      SortedMap.get? data (.string m.key) = some (.array ds)
  · obtain ⟨p, ds, htype, hp, hentry⟩ := hvector
    rw [deserializeMember, htype] at hstmt
    cases hstmt
    exact memberExact_iff_vector htype hp hentry h
  · exact memberExact_iff_other (fun p n htype hp hentry => hscalar ⟨p, n, htype, hp, hentry⟩)
      fun p ds htype hp hentry => hvector ⟨p, ds, htype, hp, hentry⟩

end Statement

end Read

end PredictorService.BuildTools
