/-
  PredictorService.FeatureMaster.Parameter — parameters and their signs
  (feature_master/parameter/parameter.h).

  A sign is 14 bits of group over 50 bits of value. A group has 16 bits and a value 64, and
  `GenParameterSign` cuts both: two parameters have one sign exactly when their groups agree
  in 14 bits and their values in 50 (`genParameterSign_eq_iff`). What fits is read back, and
  reading any sign and generating it again changes nothing (`sign_codec`).
-/

import Mathlib.Data.Nat.Basic
import Mathlib.Data.Nat.Bitwise

namespace PredictorService.FeatureMaster

def kParameterValueBits : UInt16 := 50

def PARAMETER_VALUE_MASK : UInt64 := (1 <<< kParameterValueBits.toUInt64) - 1

def getParameterGroup (sign : UInt64) : UInt16 := (sign >>> kParameterValueBits.toUInt64).toUInt16

def getParameterValue (sign : UInt64) : UInt64 := sign &&& PARAMETER_VALUE_MASK

structure Parameter where
  group : UInt16
  value : UInt64
  deriving DecidableEq, Repr

abbrev Parameters := List Parameter

def Parameter.ofSign (sign : UInt64) : Parameter := ⟨getParameterGroup sign, getParameterValue sign⟩

def genParameterSign (parameter : Parameter) : UInt64 :=
  parameter.group.toUInt64 <<< kParameterValueBits.toUInt64 ||| parameter.value &&& PARAMETER_VALUE_MASK

theorem toNat_genParameterSign (p : Parameter) :
    (genParameterSign p).toNat = p.group.toNat % 2 ^ 14 * 2 ^ 50 + p.value.toNat % 2 ^ 50 := by
  have hmask : PARAMETER_VALUE_MASK.toNat = 2 ^ 50 - 1 := by decide
  have hgroup : (p.group.toUInt64 <<< kParameterValueBits.toUInt64).toNat = p.group.toNat % 2 ^ 14 * 2 ^ 50 := by
    have hlt := p.group.toNat_lt
    rw [UInt64.toNat_shiftLeft, UInt16.toNat_toUInt64, show kParameterValueBits.toUInt64.toNat % 64 = 50 by decide,
      Nat.shiftLeft_eq]
    omega
  rw [genParameterSign, UInt64.toNat_or, UInt64.toNat_and, hmask, hgroup, Nat.and_two_pow_sub_one_eq_mod,
    ← Nat.shiftLeft_eq, Nat.shiftLeft_add_eq_or_of_lt (Nat.mod_lt _ (by decide))]

theorem genParameterSign_eq_iff {p q : Parameter} :
    genParameterSign p = genParameterSign q ↔
      p.group.toNat % 2 ^ 14 = q.group.toNat % 2 ^ 14 ∧ p.value.toNat % 2 ^ 50 = q.value.toNat % 2 ^ 50 := by
  rw [← UInt64.toNat_inj, toNat_genParameterSign, toNat_genParameterSign]
  omega

/-! ## Reading a sign -/

theorem toNat_getParameterGroup (sign : UInt64) : (getParameterGroup sign).toNat = sign.toNat / 2 ^ 50 := by
  have hlt := sign.toNat_lt
  rw [getParameterGroup, UInt64.toNat_toUInt16, UInt64.toNat_shiftRight,
    show kParameterValueBits.toUInt64.toNat % 64 = 50 by decide, Nat.shiftRight_eq_div_pow]
  omega

theorem toNat_getParameterValue (sign : UInt64) : (getParameterValue sign).toNat = sign.toNat % 2 ^ 50 := by
  rw [getParameterValue, UInt64.toNat_and, show PARAMETER_VALUE_MASK.toNat = 2 ^ 50 - 1 by decide,
    Nat.and_two_pow_sub_one_eq_mod]

theorem getParameterGroup_genParameterSign {p : Parameter} (h : p.group.toNat < 2 ^ 14) :
    getParameterGroup (genParameterSign p) = p.group := by
  rw [← UInt16.toNat_inj, toNat_getParameterGroup, toNat_genParameterSign]
  omega

theorem getParameterValue_genParameterSign {p : Parameter} (h : p.value.toNat < 2 ^ 50) :
    getParameterValue (genParameterSign p) = p.value := by
  rw [← UInt64.toNat_inj, toNat_getParameterValue, toNat_genParameterSign]
  omega

theorem genParameterSign_ofSign (sign : UInt64) : genParameterSign (Parameter.ofSign sign) = sign := by
  have hlt := sign.toNat_lt
  rw [← UInt64.toNat_inj, toNat_genParameterSign, Parameter.ofSign, toNat_getParameterGroup, toNat_getParameterValue]
  omega

/-- What fits into a sign comes back out of it, every sign is that of what it reads as, and
    a sign depends on nothing but the bits that fit. -/
theorem sign_codec :
    (∀ group value, group.toNat < 2 ^ 14 → value.toNat < 2 ^ 50 →
      getParameterGroup (genParameterSign ⟨group, value⟩) = group ∧
        getParameterValue (genParameterSign ⟨group, value⟩) = value) ∧
    (∀ sign, genParameterSign (Parameter.ofSign sign) = sign) ∧
    ∀ group group' value value', group.toNat % 2 ^ 14 = group'.toNat % 2 ^ 14 →
      value.toNat % 2 ^ 50 = value'.toNat % 2 ^ 50 →
      genParameterSign ⟨group, value⟩ = genParameterSign ⟨group', value'⟩ := by
  refine ⟨fun group value hg hv => ⟨?_, ?_⟩, genParameterSign_ofSign, fun group group' value value' hg hv => ?_⟩
  · exact getParameterGroup_genParameterSign hg
  · exact getParameterValue_genParameterSign hv
  · exact genParameterSign_eq_iff.mpr ⟨hg, hv⟩

end PredictorService.FeatureMaster
