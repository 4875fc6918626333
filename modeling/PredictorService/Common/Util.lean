/-
  PredictorService.Common.Util — `common::ipToInt` (common/util.cc), and what it and the
  reader of static server files take from folly and the C library.

  `folly::to<int>` throws on a field that is no 32 bit int, and `ipToInt` does not catch
  it: `none` here is that exception. The products and the sum of `ipToInt` are doubles
  that are exact wherever the result fits an int; the conversion back to int is the x86
  one, which answers `INT_MIN` for a value out of range.
-/

import Mathlib.Algebra.Group.Int.Defs
import Mathlib.Data.List.Basic

namespace PredictorService.Common

/-- `isspace` in the C locale. -/
def isspace (c : Char) : Bool := c = ' ' || (9 ≤ c.toNat && c.toNat ≤ 13)

def digitsToNat (ds : List Char) : Nat := ds.foldl (fun n c => 10 * n + (c.toNat - '0'.toNat)) 0

/-- `folly::to<int>`: blanks around an optional sign and at least one digit. -/
def follyToInt (field : List Char) : Option Int :=
  let body := field.dropWhile isspace
  let negative := body.head? = some '-'
  let digits := if body.head? = some '-' ∨ body.head? = some '+' then body.tail else body
  let ds := digits.takeWhile Char.isDigit
  let value : Int := if negative then -digitsToNat ds else digitsToNat ds
  if ds = [] ∨ !(digits.drop ds.length).all isspace ∨ value < -2 ^ 31 ∨ 2 ^ 31 ≤ value then none else some value

/-- `folly::tryTo<uint16_t>`: an unsigned field has no sign. -/
def follyToUInt16 (field : List Char) : Option UInt16 :=
  let digits := field.dropWhile isspace
  let ds := digits.takeWhile Char.isDigit
  if ds = [] ∨ !(digits.drop ds.length).all isspace ∨ 65535 < digitsToNat ds then none
  else some (UInt16.ofNat (digitsToNat ds))

/-- The number in a field with blanks around an optional sign and at least one digit. -/
def signedNumber (field : List Char) : Option Int :=
  let body := field.dropWhile isspace
  let digits := if body.head? = some '-' ∨ body.head? = some '+' then body.tail else body
  let ds := digits.takeWhile Char.isDigit
  if ds = [] ∨ !(digits.drop ds.length).all isspace then none
  else some (if body.head? = some '-' then -digitsToNat ds else digitsToNat ds)

/-- `folly::to<int64_t>`. -/
def follyToInt64 (field : List Char) : Option Int64 := do
  let value ← signedNumber field
  if -2 ^ 63 ≤ value ∧ value < 2 ^ 63 then return Int64.ofInt value else none

/-- `folly::to<unsigned>`: an unsigned field has no sign. -/
def follyToUInt32 (field : List Char) : Option UInt32 :=
  let digits := field.dropWhile isspace
  let ds := digits.takeWhile Char.isDigit
  if ds = [] ∨ !(digits.drop ds.length).all isspace ∨ 4294967295 < digitsToNat ds then none
  else some (UInt32.ofNat (digitsToNat ds))

/-- `folly::split` by one character. It keeps empty pieces. -/
def follySplit (delim : Char) (input : String) : List String := (input.toList.splitOn delim).map String.ofList

/-- A double converted to int as x86 does it. -/
def toInt32 (x : Int) : Int := if -2 ^ 31 ≤ x ∧ x < 2 ^ 31 then x else -2 ^ 31

/-- `common::ipToInt`; `none` when it throws. -/
def ipToInt (ip : String) : Option UInt32 := do
  let result ← ((ip.toList.splitOn '.').filter (· ≠ [])).mapM follyToInt
  if result.length ≠ 4 then
    return 0
  let total := result.zipIdx.foldl (fun total t => toInt32 (total + t.1 * 256 ^ (3 - t.2))) 0
  return UInt32.ofInt total

example : ipToInt "10.1.2.3" = some 167838211 := by decide
example : ipToInt "localhost" = none := by decide

end PredictorService.Common
