/-
  PredictorService.Thirdparty.Rapidjson — the values of a parsed document and the accessors
  that this repository reads them with (thirdparty/rapidjson/document.h).

  An accessor asserts what it is called on: an object for its members, an `int` for
  `GetInt`. `none` is a failed assertion; without assertions the behaviour is undefined.
  The parser is outside: a text that it refuses leaves the document as it was made, null.
-/

import Mathlib.Data.List.Basic

namespace PredictorService.Thirdparty.Rapidjson

/-- `int` is a number without fraction or exponent, of any size; `double` any other. The
    members of an object stand as in the text, also those that have one name. -/
inductive Value where
  | null
  | bool (b : Bool)
  | int (n : Int)
  | double
  | string (s : String)
  | array (items : List Value)
  | object (members : List (String × Value))

/-- What reading a `const Ch*` as a `std::string` gives: it ends at a NUL. -/
def cString (s : String) : String := String.ofList (s.toList.takeWhile (· ≠ Char.ofNat 0))

namespace Value

/-- `MemberBegin()` to `MemberEnd()`. -/
def members : Value → Option (List (String × Value))
  | object members => some members
  | _ => none

def hasMember (v : Value) (name : String) : Option Bool := v.members.map fun members => members.any (·.1 = name)

/-- `operator[]`. It finds the first member of that name. -/
def get (v : Value) (name : String) : Option Value := do
  let members ← v.members
  let member ← members.find? (·.1 = name)
  return member.2

def getInt : Value → Option Int32
  | int n => if -2147483648 ≤ n ∧ n < 2147483648 then some (Int32.ofInt n) else none
  | _ => none

def getString : Value → Option String
  | string s => some (cString s)
  | _ => none

def getArray : Value → Option (List Value)
  | array items => some items
  | _ => none

def isObject (v : Value) : Prop := ∃ members, v = object members

def isInt (v : Value) : Prop := ∃ n, v = int n ∧ -2147483648 ≤ n ∧ n < 2147483648

def isString (v : Value) : Prop := ∃ s, v = string s

/-- The value under a name, where there is one. -/
def find? (members : List (String × Value)) (name : String) : Option Value :=
  (members.find? (·.1 = name)).map (·.2)

@[simp] theorem members_object (ms : List (String × Value)) : (object ms).members = some ms := rfl

theorem members_isSome_iff {v : Value} : v.members.isSome ↔ v.isObject := by
  cases v <;> simp [members, isObject]

@[simp] theorem hasMember_object (ms : List (String × Value)) (name : String) :
    (object ms).hasMember name = some (find? ms name).isSome := by
  have hany : ms.any (·.1 = name) = (ms.find? (·.1 = name)).isSome := by
    rw [Bool.eq_iff_iff, List.any_eq_true, List.find?_isSome]
  rw [hasMember, members_object, Option.map_some, hany, find?, Option.isSome_map]

@[simp] theorem get_object (ms : List (String × Value)) (name : String) : (object ms).get name = find? ms name := by
  cases h : ms.find? (·.1 = name) <;> simp [get, find?, h]

theorem getInt_isSome_iff {v : Value} : v.getInt.isSome ↔ v.isInt := by
  cases v <;> simp [getInt, isInt]

theorem getString_isSome_iff {v : Value} : v.getString.isSome ↔ v.isString := by
  cases v <;> simp [getString, isString]

theorem getArray_eq_some_iff {v : Value} {items : List Value} : v.getArray = some items ↔ v = array items := by
  cases v <;> simp [getArray]

end Value

/-- `document.Parse(text)`. -/
def document (parse : String → Option Value) (text : String) : Value := (parse text).getD .null

end PredictorService.Thirdparty.Rapidjson
