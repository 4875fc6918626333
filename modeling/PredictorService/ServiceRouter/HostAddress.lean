/-
  PredictorService.ServiceRouter.HostAddress — addresses as numbers (common/util.cc,
  `ipToInt`, and `RouterDb::updateServers`, which stores its result as `host_long`).

  The comment of `ipToInt` says that it answers 0 when it fails. The sum of the four fields
  is made of doubles that are converted to `int`, so an address from 128.0.0.0 on is out of
  range at the first field; empty fields are dropped, the fields are not checked to be octets,
  and `folly::split` throws on one that is no int.

  `ipToInt_iff` says for which strings the function keeps its promise (`Kept`), which
  addresses it takes for one another, and when an update is aborted
  (`names_and_high_addresses_are_not_kept`).
-/

import Mathlib.Data.List.TakeWhile
import Mathlib.Tactic.NormNum
import PredictorService.Lib.Loops
import PredictorService.ServiceRouter.RouterDbProofs

namespace PredictorService.ServiceRouter

open PredictorService.Common
open PredictorService.Lib (mapM_eq_none_iff)

/-! ## What is promised -/

/-- A decimal octet. -/
def octet (field : List Char) : Option Nat :=
  if field ≠ [] ∧ field.all Char.isDigit ∧ digitsToNat field ≤ 255 then some (digitsToNat field) else none

structure Quad where
  a : Nat
  b : Nat
  c : Nat
  d : Nat
  deriving DecidableEq, Repr

def quadOf : List Nat → Option Quad
  | [a, b, c, d] => some ⟨a, b, c, d⟩
  | _ => none

/-- Four octets between dots. -/
def dottedQuad (ip : String) : Option Quad := ((ip.toList.splitOn '.').mapM octet).bind quadOf

def Quad.address (q : Quad) : Nat := q.a * 2 ^ 24 + q.b * 2 ^ 16 + q.c * 2 ^ 8 + q.d

/-- The address of a dotted quad, and 0 of any other string. -/
def addressOf (ip : String) : UInt32 := UInt32.ofNat (((dottedQuad ip).map Quad.address).getD 0)

/-- What `folly::split` makes of the string; `none` when it throws. -/
def fieldsOf (ip : String) : Option (List Int) := ((ip.toList.splitOn '.').filter (· ≠ [])).mapM follyToInt

/-- `total` before each round of the loop over the fields, and the double it becomes there. -/
def doublesFrom : Int → List (Int × Nat) → List Int
  | _, [] => []
  | total, t :: result =>
    (total + t.1 * 256 ^ (3 - t.2)) :: doublesFrom (toInt32 (total + t.1 * 256 ^ (3 - t.2))) result

/-- The doubles that `ipToInt` converts to `int`. -/
def doublesOf (ip : String) : List Int :=
  match fieldsOf ip with
  | some [a, b, c, d] => doublesFrom 0 [a, b, c, d].zipIdx
  | _ => []

def InInt (x : Int) : Prop := -2 ^ 31 ≤ x ∧ x < 2 ^ 31

instance (x : Int) : Decidable (InInt x) := inferInstanceAs (Decidable (_ ∧ _))

/-- The function answers the address, or 0, and converts no double that is out of range. -/
def Promise (ip : String) : Prop := ipToInt ip = some (addressOf ip) ∧ ∀ x ∈ doublesOf ip, InInt x

/-! ## Which strings keep it -/

/-- Four ints with the place values of an address that fit an `int` as they are summed, and
    cancel out. -/
def Cancels (a b c d : Int) : Prop :=
  InInt (a * 2 ^ 24) ∧ InInt (a * 2 ^ 24 + b * 2 ^ 16) ∧ InInt (a * 2 ^ 24 + b * 2 ^ 16 + c * 2 ^ 8) ∧
    a * 2 ^ 24 + b * 2 ^ 16 + c * 2 ^ 8 + d = 0

structure Kept (ip : String) : Prop where
  /-- An address is below 128.0.0.0. -/
  low : ∀ q, dottedQuad ip = some q → q.a < 128
  /-- Any other string has only ints between its dots, and four of them cancel out. -/
  other : dottedQuad ip = none → ∃ result, fieldsOf ip = some result ∧ ∀ a b c d, result = [a, b, c, d] → Cancels a b c d

section Fields

variable {ip : String}

theorem ipToInt_throws (h : fieldsOf ip = none) : ipToInt ip = none := by
  unfold fieldsOf at h
  rw [ipToInt, h]
  rfl

theorem ipToInt_other {result : List Int} (h : fieldsOf ip = some result) (hlen : result.length ≠ 4) :
    ipToInt ip = some 0 := by
  unfold fieldsOf at h
  rw [ipToInt, h]
  exact if_pos hlen

/-- The last `total` of four fields. -/
def sumOf (a b c d : Int) : Int :=
  toInt32 (toInt32 (toInt32 (toInt32 (a * 2 ^ 24) + b * 2 ^ 16) + c * 2 ^ 8) + d)

theorem ipToInt_four {a b c d : Int} (h : fieldsOf ip = some [a, b, c, d]) :
    ipToInt ip = some (UInt32.ofInt (sumOf a b c d)) := by
  unfold fieldsOf at h
  rw [ipToInt, h]
  show some (UInt32.ofInt (toInt32 (toInt32 (toInt32 (toInt32 (0 + a * 256 ^ 3) + b * 256 ^ 2) + c * 256 ^ 1) +
    d * 256 ^ 0))) = _
  norm_num [sumOf]

theorem doublesOf_four {a b c d : Int} (h : fieldsOf ip = some [a, b, c, d]) :
    doublesOf ip = [a * 2 ^ 24, toInt32 (a * 2 ^ 24) + b * 2 ^ 16,
      toInt32 (toInt32 (a * 2 ^ 24) + b * 2 ^ 16) + c * 2 ^ 8,
      toInt32 (toInt32 (toInt32 (a * 2 ^ 24) + b * 2 ^ 16) + c * 2 ^ 8) + d] := by
  rw [doublesOf, h]
  show [0 + a * 256 ^ 3, toInt32 (0 + a * 256 ^ 3) + b * 256 ^ 2,
    toInt32 (toInt32 (0 + a * 256 ^ 3) + b * 256 ^ 2) + c * 256 ^ 1,
    toInt32 (toInt32 (toInt32 (0 + a * 256 ^ 3) + b * 256 ^ 2) + c * 256 ^ 1) + d * 256 ^ 0] = _
  norm_num

theorem doublesOf_other {result : List Int} (h : fieldsOf ip = some result) (hlen : result.length ≠ 4) :
    doublesOf ip = [] := by
  rw [doublesOf, h]
  match result, hlen with
  | [], _ => rfl
  | [_], _ => rfl
  | [_, _], _ => rfl
  | [_, _, _], _ => rfl
  | [_, _, _, _], hlen => exact absurd rfl hlen
  | _ :: _ :: _ :: _ :: _ :: _, _ => rfl

end Fields

/-! ## Octets -/

theorem not_isspace_of_isDigit {c : Char} (h : c.isDigit) : isspace c = false := by
  have hd := Char.isDigit_iff_toNat.mp h
  have hlow : 48 ≤ c.toNat := hd.1
  have hblank : c ≠ ' ' := by
    rintro rfl
    exact absurd hlow (by decide)
  simp only [isspace, hblank, decide_false, Bool.false_or, Bool.and_eq_false_iff, decide_eq_false_iff_not]
  omega

theorem ne_sign_of_isDigit {c : Char} (h : c.isDigit) : c ≠ '-' ∧ c ≠ '+' := by
  constructor
  · rintro rfl
    exact absurd h (by decide)
  · rintro rfl
    exact absurd h (by decide)

/-- An octet is an int to `folly::to`. -/
theorem follyToInt_octet {field : List Char} {n : Nat} (h : octet field = some n) :
    follyToInt field = some (n : Int) ∧ field ≠ [] ∧ n ≤ 255 := by
  unfold octet at h
  split at h
  · rename_i hoct
    obtain ⟨hne, hdigits, hle⟩ := hoct
    obtain rfl : digitsToNat field = n := Option.some.inj h
    refine ⟨?_, hne, hle⟩
    match field, hne with
    | c :: cs, _ =>
      have hall : ∀ x ∈ c :: cs, x.isDigit := List.all_eq_true.mp hdigits
      have hc := hall c List.mem_cons_self
      obtain ⟨hminus, hplus⟩ := ne_sign_of_isDigit hc
      have hbody : (c :: cs).dropWhile isspace = c :: cs := by
        rw [List.dropWhile_cons, not_isspace_of_isDigit hc]
        rfl
      have htake : (c :: cs).takeWhile Char.isDigit = c :: cs := List.takeWhile_eq_self_iff.mpr hall
      have hsign : (c :: cs).head? ≠ some '-' ∧ (c :: cs).head? ≠ some '+' := by
        simp only [List.head?_cons, ne_eq, Option.some.injEq]
        exact ⟨hminus, hplus⟩
      simp only [follyToInt, hbody, hsign.1, hsign.2, or_self, if_false, htake, List.drop_length, List.all_nil]
      refine if_neg ?_
      rintro (hnil | hrest | hlow | hhigh)
      · cases hnil
      · cases hrest
      · omega
      · omega
  · cases h

theorem mapM_octet {fields : List (List Char)} {ns : List Nat} (h : fields.mapM octet = some ns) :
    (fields.filter (· ≠ [])).mapM follyToInt = some (ns.map fun n => (n : Int)) ∧ ∀ n ∈ ns, n ≤ 255 := by
  induction fields generalizing ns with
  | nil =>
    cases h
    exact ⟨rfl, fun n hn => nomatch hn⟩
  | cons field fields ih =>
    rw [List.mapM_cons] at h
    simp only [Option.bind_eq_bind, Option.bind_eq_some_iff, Option.pure_def, Option.some.injEq] at h
    obtain ⟨n, hn, ms, hms, rfl⟩ := h
    obtain ⟨hint, hne, hle⟩ := follyToInt_octet hn
    obtain ⟨hrest, hall⟩ := ih hms
    constructor
    · rw [List.filter_cons_of_pos (by simpa using hne), List.mapM_cons, hint, hrest]
      rfl
    · intro m hm
      rcases List.mem_cons.mp hm with rfl | hm
      · exact hle
      · exact hall m hm

/-- The fields of a dotted quad are its octets. -/
theorem fieldsOf_dottedQuad {ip : String} {q : Quad} (h : dottedQuad ip = some q) :
    fieldsOf ip = some [(q.a : Int), (q.b : Int), (q.c : Int), (q.d : Int)] ∧
      q.a ≤ 255 ∧ q.b ≤ 255 ∧ q.c ≤ 255 ∧ q.d ≤ 255 := by
  obtain ⟨ns, hns, hq⟩ := Option.bind_eq_some_iff.mp h
  obtain ⟨hfields, hle⟩ := mapM_octet hns
  match ns, hq with
  | [a, b, c, d], hq =>
    cases hq
    refine ⟨hfields, hle a (by simp), hle b (by simp), hle c (by simp), hle d (by simp)⟩

/-! ## The sum -/

theorem toInt32_of_inInt {x : Int} (h : InInt x) : toInt32 x = x := if_pos h

/-- The doubles of four fields are all in range as long as the exact sums are. -/
theorem forall_doubles_inInt {a b c d : Int} :
    (∀ x ∈ [a * 2 ^ 24, toInt32 (a * 2 ^ 24) + b * 2 ^ 16, toInt32 (toInt32 (a * 2 ^ 24) + b * 2 ^ 16) + c * 2 ^ 8,
      toInt32 (toInt32 (toInt32 (a * 2 ^ 24) + b * 2 ^ 16) + c * 2 ^ 8) + d], InInt x) ↔
    InInt (a * 2 ^ 24) ∧ InInt (a * 2 ^ 24 + b * 2 ^ 16) ∧ InInt (a * 2 ^ 24 + b * 2 ^ 16 + c * 2 ^ 8) ∧
      InInt (a * 2 ^ 24 + b * 2 ^ 16 + c * 2 ^ 8 + d) := by
  simp only [List.forall_mem_cons, List.not_mem_nil, false_implies, implies_true, and_true]
  refine and_congr_right fun h1 => ?_
  rw [toInt32_of_inInt h1]
  refine and_congr_right fun h2 => ?_
  rw [toInt32_of_inInt h2]
  refine and_congr_right fun h3 => ?_
  rw [toInt32_of_inInt h3]

theorem sumOf_of_inInt {a b c d : Int} (h : InInt (a * 2 ^ 24) ∧ InInt (a * 2 ^ 24 + b * 2 ^ 16) ∧
      InInt (a * 2 ^ 24 + b * 2 ^ 16 + c * 2 ^ 8) ∧ InInt (a * 2 ^ 24 + b * 2 ^ 16 + c * 2 ^ 8 + d)) :
    sumOf a b c d = a * 2 ^ 24 + b * 2 ^ 16 + c * 2 ^ 8 + d := by
  obtain ⟨h1, h2, h3, h4⟩ := h
  rw [sumOf, toInt32_of_inInt h1, toInt32_of_inInt h2, toInt32_of_inInt h3, toInt32_of_inInt h4]

theorem sumOf_low {a b c d : Nat} (ha : a < 128) (hb : b ≤ 255) (hc : c ≤ 255) (hd : d ≤ 255) :
    sumOf a b c d = a * 2 ^ 24 + b * 2 ^ 16 + c * 2 ^ 8 + d := by
  refine sumOf_of_inInt ⟨?_, ?_, ?_, ?_⟩
  · unfold InInt; omega
  · unfold InInt; omega
  · unfold InInt; omega
  · unfold InInt; omega

/-- Out of range, the first double becomes the least `int`. -/
theorem sumOf_high {a b c d : Nat} (ha : 128 ≤ a) (hb : b ≤ 255) (hc : c ≤ 255) (hd : d ≤ 255) :
    sumOf a b c d = -2 ^ 31 + b * 2 ^ 16 + c * 2 ^ 8 + d := by
  have h1 : toInt32 ((a : Int) * 2 ^ 24) = -2 ^ 31 := if_neg (by omega)
  have h2 : InInt (-2 ^ 31 + (b : Int) * 2 ^ 16) := by unfold InInt; omega
  have h3 : InInt (-2 ^ 31 + (b : Int) * 2 ^ 16 + (c : Int) * 2 ^ 8) := by unfold InInt; omega
  have h4 : InInt (-2 ^ 31 + (b : Int) * 2 ^ 16 + (c : Int) * 2 ^ 8 + (d : Int)) := by unfold InInt; omega
  rw [sumOf, h1, toInt32_of_inInt h2, toInt32_of_inInt h3, toInt32_of_inInt h4]

theorem toNat_ofInt (x : Int) : (UInt32.ofInt x).toNat = (x % 2 ^ 32).toNat := by
  have hlt : (x % 2 ^ 32).toNat < UInt32.size := by
    show _ < 2 ^ 32
    omega
  exact UInt32.toNat_ofNat_of_lt' hlt

theorem ofInt_eq_zero_iff {x : Int} (h : InInt x) : UInt32.ofInt x = 0 ↔ x = 0 := by
  rw [← UInt32.toNat_inj, toNat_ofInt, UInt32.toNat_zero]
  unfold InInt at h
  omega

/-- The value of a dotted quad: from 128 on the first octet is lost. -/
theorem ipToInt_dottedQuad {ip : String} {q : Quad} (h : dottedQuad ip = some q) :
    ∃ x, ipToInt ip = some x ∧ x.toNat = min q.a 128 * 2 ^ 24 + q.b * 2 ^ 16 + q.c * 2 ^ 8 + q.d := by
  obtain ⟨hfields, ha, hb, hc, hd⟩ := fieldsOf_dottedQuad h
  refine ⟨_, ipToInt_four hfields, ?_⟩
  rw [toNat_ofInt]
  rcases Nat.lt_or_ge q.a 128 with hlow | hhigh
  · rw [sumOf_low hlow hb hc hd]
    omega
  · rw [sumOf_high hhigh hb hc hd]
    omega

/-! ## Strings that are kept -/

theorem promise_dottedQuad {ip : String} {q : Quad} (h : dottedQuad ip = some q) : Promise ip ↔ q.a < 128 := by
  obtain ⟨hfields, ha, hb, hc, hd⟩ := fieldsOf_dottedQuad h
  unfold Promise
  rw [doublesOf_four hfields, forall_doubles_inInt]
  constructor
  · rintro ⟨-, h1, -⟩
    unfold InInt at h1
    omega
  · intro hlow
    refine ⟨?_, by unfold InInt; omega, by unfold InInt; omega, by unfold InInt; omega, by unfold InInt; omega⟩
    obtain ⟨x, hx, hval⟩ := ipToInt_dottedQuad h
    rw [hx, addressOf, h]
    refine congrArg some (UInt32.toNat_inj.mp ?_)
    show x.toNat = (UInt32.ofNat q.address).toNat
    rw [UInt32.toNat_ofNat_of_lt' (by unfold Quad.address; show _ < 2 ^ 32; omega), hval, Quad.address]
    omega

theorem promise_other {ip : String} (h : dottedQuad ip = none) :
    Promise ip ↔ ∃ result, fieldsOf ip = some result ∧ ∀ a b c d, result = [a, b, c, d] → Cancels a b c d := by
  have haddress : addressOf ip = 0 := by
    rw [addressOf, h]
    rfl
  unfold Promise
  rw [haddress]
  cases hfields : fieldsOf ip with
  | none =>
    rw [ipToInt_throws hfields]
    simp
  | some result =>
    by_cases hlen : result.length = 4
    · match result, hlen with
      | [a, b, c, d], _ =>
        rw [ipToInt_four hfields, doublesOf_four hfields, forall_doubles_inInt]
        constructor
        · rintro ⟨hzero, hin⟩
          rw [sumOf_of_inInt hin] at hzero
          refine ⟨_, rfl, fun a b c d heq => ?_⟩
          cases heq
          exact ⟨hin.1, hin.2.1, hin.2.2.1, (ofInt_eq_zero_iff hin.2.2.2).mp (Option.some.inj hzero)⟩
        · rintro ⟨result, heq, hcancels⟩
          cases heq
          obtain ⟨h1, h2, h3, hzero⟩ := hcancels a b c d rfl
          have h4 : InInt (a * 2 ^ 24 + b * 2 ^ 16 + c * 2 ^ 8 + d) := by
            rw [hzero]
            decide
          refine ⟨?_, h1, h2, h3, h4⟩
          rw [sumOf_of_inInt ⟨h1, h2, h3, h4⟩, hzero]
          rfl
    · rw [ipToInt_other hfields hlen, doublesOf_other hfields hlen]
      refine iff_of_true ⟨rfl, fun x hx => nomatch hx⟩ ⟨result, rfl, fun a b c d heq => ?_⟩
      rw [heq] at hlen
      exact absurd rfl hlen

theorem promise_iff (ip : String) : Promise ip ↔ Kept ip := by
  cases h : dottedQuad ip with
  | some q =>
    rw [promise_dottedQuad h]
    constructor
    · intro hlow
      refine ⟨fun q' hq' => ?_, fun hnone => ?_⟩
      · obtain rfl : q = q' := Option.some.inj (h.symm.trans hq')
        exact hlow
      · rw [h] at hnone
        cases hnone
    · exact fun hkept => hkept.low q h
  | none =>
    rw [promise_other h]
    constructor
    · intro hother
      refine ⟨fun q hq => ?_, fun _ => hother⟩
      rw [h] at hq
      cases hq
    · exact fun hkept => hkept.other h

/-! ## Updates -/

theorem ipToInt_eq_none_iff {ip : String} : ipToInt ip = none ↔ fieldsOf ip = none := by
  constructor
  · intro h
    cases hfields : fieldsOf ip with
    | none => rfl
    | some result =>
      unfold fieldsOf at hfields
      rw [ipToInt, hfields] at h
      by_cases hlen : result.length = 4
      · rw [Option.bind_eq_bind, Option.bind_some, if_neg (fun hne => hne hlen)] at h
        cases h
      · rw [Option.bind_eq_bind, Option.bind_some, if_pos hlen] at h
        cases h
  · exact ipToInt_throws

/-- An update is aborted by any picked host with a field that is no int. -/
theorem updateServers_eq_none_iff (H : Hash64) (db : RouterDb) (name : String) (list : List Server) (now : UInt64) :
    db.updateServers H name list now = none ↔ ∃ t ∈ db.pickServers name list now, fieldsOf t.host = none := by
  have hmap : db.updateServers H name list now =
      ((db.pickServers name list now).mapM RouterDb.withHostLong).map fun ts =>
        db.publish name (RouterDb.builtOf H name ts) := by
    unfold RouterDb.updateServers
    rw [RouterDb.buildServers_eq]
    cases (db.pickServers name list now).mapM RouterDb.withHostLong with
    | none => rfl
    | some ts => rfl
  rw [hmap, Option.map_eq_none_iff, mapM_eq_none_iff]
  simp only [RouterDb.withHostLong, Option.map_eq_none_iff, ipToInt_eq_none_iff]

/-- `ipToInt` keeps its promise exactly for the addresses below 128.0.0.0 and the strings
    whose ints are not four, or cancel out; two addresses have one value when they differ in
    the first octet only and both are from 128.0.0.0 on; and an update is aborted exactly by
    a picked host with a field that is no int. -/
theorem ipToInt_iff (ip ip' : String) (H : Hash64) (db : RouterDb) (name : String) (list : List Server) (now : UInt64) :
    (Promise ip ↔ Kept ip) ∧
    (∀ q q', dottedQuad ip = some q → dottedQuad ip' = some q' →
      (ipToInt ip = ipToInt ip' ↔ q = q' ∨ (128 ≤ q.a ∧ 128 ≤ q'.a ∧ q' = { q with a := q'.a }))) ∧
    (db.updateServers H name list now = none ↔ ∃ t ∈ db.pickServers name list now, fieldsOf t.host = none) := by
  refine ⟨promise_iff ip, fun q q' hq hq' => ?_, updateServers_eq_none_iff H db name list now⟩
  obtain ⟨-, ha, hb, hc, hd⟩ := fieldsOf_dottedQuad hq
  obtain ⟨-, ha', hb', hc', hd'⟩ := fieldsOf_dottedQuad hq'
  obtain ⟨x, hx, hval⟩ := ipToInt_dottedQuad hq
  obtain ⟨x', hx', hval'⟩ := ipToInt_dottedQuad hq'
  rw [hx, hx', Option.some.injEq, ← UInt32.toNat_inj, hval, hval']
  obtain ⟨a, b, c, d⟩ := q
  obtain ⟨a', b', c', d'⟩ := q'
  simp only [Quad.mk.injEq, true_and] at *
  omega

theorem a_private_address_is_kept : Promise "10.1.2.3" := by
  have hquad : dottedQuad "10.1.2.3" = some ⟨10, 1, 2, 3⟩ := by decide
  refine (ipToInt_iff "10.1.2.3" "10.1.2.3" (fun _ seed => seed) {} "predictor" [] 0).1.mpr ⟨fun q hq => ?_, fun hnone => ?_⟩
  · obtain rfl := Option.some.inj (hquad.symm.trans hq)
    decide
  · rw [hquad] at hnone
    cases hnone

/-- 192.168.0.1 and 200.168.0.1 have one value, and a name throws where it should give 0, so
    that an update is aborted. -/
theorem names_and_high_addresses_are_not_kept :
    (¬Promise "192.168.0.1" ∧ ipToInt "192.168.0.1" = ipToInt "200.168.0.1") ∧
    (¬Promise "localhost" ∧
      ({} : RouterDb).updateServers (fun _ seed => seed) "predictor" [{ host := "localhost", port := 9000 }] 0 = none) := by
  refine ⟨⟨?_, by decide⟩, ?_, by decide⟩
  · rintro ⟨hvalue, -⟩
    exact absurd hvalue (by decide)
  · rintro ⟨hvalue, -⟩
    exact absurd hvalue (by decide)

end PredictorService.ServiceRouter
