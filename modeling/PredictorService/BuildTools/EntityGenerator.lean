/-
  PredictorService.BuildTools.EntityGenerator — the generator of the entity classes
  (build_tools/entity_generator.php) and the meaning of the code that it writes.

  A schema is what the generator has read of a `.config` file (`EntityConfig`): enums and
  classes in the order of the file. For each member `serialize` and `deserialize` choose a
  template and put names into it, or throw. What they write is `SerStmt` and `DesStmt`, one
  constructor for each template with what was put in. `Program.serialize` and
  `Program.deserialize` run these statements on C++ values (`Value`) and on
  `folly::dynamic`.

  A schema can make the generator write code that is no C++: `Program.compiles` checks the
  names and the types that the code uses. `double` members are left out, and what
  `describe` prints.
-/

import Mathlib.Data.String.Basic
import Mathlib.Data.Sum.Order
import PredictorService.Lib.SortedMap

namespace PredictorService.BuildTools

open PredictorService.Lib

/-! ## Schemas -/

/-- `$podTypes`; an `int` has 32 bits. -/
inductive Pod where
  | bool
  | int
  | uint8
  | uint16
  | uint32
  | uint64
  | int8
  | int16
  | int32
  | int64
  | string
  deriving DecidableEq, Repr

/-- The type's name. -/
def Pod.text : Pod → String
  | .bool => "bool"
  | .int => "int"
  | .uint8 => "uint8_t"
  | .uint16 => "uint16_t"
  | .uint32 => "uint32_t"
  | .uint64 => "uint64_t"
  | .int8 => "int8_t"
  | .int16 => "int16_t"
  | .int32 => "int32_t"
  | .int64 => "int64_t"
  | .string => "std::string"

def Pod.all : List Pod := [.bool, .int, .uint8, .uint16, .uint32, .uint64, .int8, .int16, .int32, .int64, .string]

/-- A type that is no container. -/
inductive TypeName where
  | pod (p : Pod)
  /-- A class or an enum. -/
  | named (name : String)
  deriving DecidableEq, Repr

def TypeName.text : TypeName → String
  | .pod p => p.text
  | .named name => name

inductive MemberType where
  | plain (t : TypeName)
  | vector (t : TypeName)
  /-- `std::map` and `std::unordered_map`, which have the same templates. -/
  | map (key : Pod) (t : TypeName)
  deriving DecidableEq, Repr

/-- An entry of `$this->members`. -/
structure Member where
  name : String
  type : MemberType
  serializeName : String := ""
  isoptional : Bool := false
  /-- The text of the initializer. -/
  init : String := ""
  deriving DecidableEq, Repr

inductive EnumType where
  | string
  | int
  deriving DecidableEq, Repr

structure EnumDecl where
  name : String
  enumType : EnumType
  items : List String
  deriving DecidableEq, Repr

structure ClassDecl where
  name : String
  members : List Member
  deriving DecidableEq, Repr

inductive Decl where
  | enumclass (e : EnumDecl)
  | cls (c : ClassDecl)
  deriving DecidableEq, Repr

def Decl.name : Decl → String
  | .enumclass e => e.name
  | .cls c => c.name

abbrev Schema := List Decl

/-- Without what does not matter to the values of the type. -/
def Member.declared (m : Member) : Member := { name := m.name, type := m.type }

def Decl.declared : Decl → Decl
  | .enumclass e => .enumclass e
  | .cls c => .cls { c with members := c.members.map Member.declared }

/-- The second declares the types of the first, in the same order. -/
def SameTypes (S S' : Schema) : Prop := S'.map Decl.declared = S.map Decl.declared

namespace Schema

variable (S : Schema)

def enums : List EnumDecl :=
  S.filterMap fun
    | .enumclass e => some e
    | .cls _ => none

def classes : List ClassDecl :=
  S.filterMap fun
    | .enumclass _ => none
    | .cls c => some c

def findEnum (name : String) : Option EnumDecl := (enums S).find? (·.name = name)

def findClass (name : String) : Option ClassDecl := (classes S).find? (·.name = name)

end Schema

/-- `$this->exists_enum` and `$this->exists_class`. -/
structure Known where
  enums : List String
  classes : List String
  deriving DecidableEq, Repr

def Known.existsEnum (known : Known) (name : String) : Bool := known.enums.contains name

def Known.existsClass (known : Known) (name : String) : Bool := known.classes.contains name

/-- The names of the schema itself. -/
def Schema.known (S : Schema) : Known where
  enums := S.enums.map (·.name)
  classes := S.classes.map (·.name)

/-! ## Names -/

def ucfirst : List Char → List Char
  | [] => []
  | c :: cs => c.toUpper :: cs

def convertName (name : String) : String := String.ofList ((name.toList.splitOn '_').flatMap ucfirst)

example : convertName "available_shard_list" = "AvailableShardList" := by decide

def strtolower (s : String) : String := String.ofList (s.toList.map Char.toLower)

/-- `$serializeName`. -/
def Member.key (m : Member) : String := if m.serializeName = "" then convertName m.name else m.serializeName

def typeInvalid (function type name : String) : String :=
  function ++ " type is invalid, current type:" ++ type ++ " name:" ++ name

/-! ## Writing `serialize` -/

/-- `serialize_container_item_*`: what is done with an element `t`, or with `t.second`. -/
inductive SerItem where
  | pod
  /-- Calls the function of this name. -/
  | enum (function : String)
  /-- Calls `serialize()` of the element, which is of this class. -/
  | object (cls : String)
  deriving DecidableEq, Repr

/-- `serialize_item_*`. -/
inductive SerStmt where
  | pod
  | vector (item : SerItem)
  | map (item : SerItem)
  | enum (function : String)
  | other (cls : String)
  deriving DecidableEq, Repr

/-- Of the enum's template only `__INAME__` is replaced. -/
def serializeItem (known : Known) (name : String) : TypeName → Except String SerItem
  | .pod _ => .ok .pod
  | .named t =>
    if known.existsEnum t then .ok (.enum "serialize__ENUM__CLASS__")
    else if known.existsClass t then .ok (.object t)
    else .error (typeInvalid "serialize" t name)

/-- The body of the loop of `GeneratorEntity::serialize`. -/
def serializeMember (known : Known) (m : Member) : Except String SerStmt :=
  match m.type with
  | .plain (.pod _) => .ok .pod
  | .vector t => (serializeItem known m.name t).map .vector
  | .map _ t => (serializeItem known m.name t).map .map
  | .plain (.named t) =>
    if known.existsEnum t then .ok (.enum ("serialize" ++ t))
    else if known.existsClass t then .ok (.other t)
    else .error (typeInvalid "serialize" t m.name)

/-! ## Writing `deserialize` -/

/-- `__IS_TYPE__`. -/
inductive IsType where
  | isString
  | isBool
  | isInt
  deriving DecidableEq, Repr

def diagnostic : Pod → IsType
  | .string => .isString
  | .bool => .isBool
  | _ => .isInt

/-- `deserialize_container_item_*`; `p` is the type of the container's elements. -/
inductive DesItem where
  | pod (is : IsType) (p : Pod)
  | enum (cls : String)
  | object (cls : String)
  deriving DecidableEq, Repr

/-- `deserialize_item_*`. -/
inductive DesStmt where
  | pod (is : IsType) (p : Pod)
  | vector (item : DesItem)
  | map (keyIs : IsType) (key : Pod) (item : DesItem)
  | enum (cls : String)
  | other (cls : String)
  deriving DecidableEq, Repr

/-- A statement with its key and its member, in the required or the `_opt` variant. -/
structure DesCode where
  key : String
  name : String
  isoptional : Bool
  stmt : DesStmt
  deriving DecidableEq, Repr

def deserializeItem (known : Known) (name : String) : TypeName → Except String DesItem
  | .pod p => .ok (.pod (diagnostic p) p)
  | .named t =>
    if known.existsEnum t then .ok (.enum t)
    else if known.existsClass t then .ok (.object t)
    else .error (typeInvalid "deserialize" t name)

/-- The body of the loop of `GeneratorEntity::deserialize`. -/
def deserializeMember (known : Known) (m : Member) : Except String DesStmt :=
  match m.type with
  | .plain (.pod p) => .ok (.pod (diagnostic p) p)
  | .vector t => (deserializeItem known m.name t).map .vector
  | .map key t => (deserializeItem known m.name t).map (.map (diagnostic key) key)
  | .plain (.named t) =>
    if known.existsEnum t then .ok (.enum t)
    else if known.existsClass t then .ok (.other t)
    else .error (typeInvalid "deserialize" t m.name)

/-! ## Writing the file -/

/-- The statements of a class's `serialize` and `deserialize`, in the order of its members. -/
structure ClassCode where
  name : String
  serializes : List (String × SerStmt)
  deserializes : List DesCode
  deriving DecidableEq, Repr

structure Program where
  enums : List EnumDecl
  classes : List ClassCode
  deriving DecidableEq, Repr

def dynamicClass (known : Known) (c : ClassDecl) : Except String ClassCode := do
  let serializes ← c.members.mapM fun m => (serializeMember known m).map fun stmt => (m.key, stmt)
  let deserializes ← c.members.mapM fun m => (deserializeMember known m).map fun stmt =>
    { key := m.key, name := m.name, isoptional := m.isoptional, stmt := stmt }
  return { name := c.name, serializes := serializes, deserializes := deserializes }

/-- The calls of `dynamic`: the error is the exception that is thrown. -/
def generateWith (known : Known) (S : Schema) : Except String Program := do
  let classes ← S.classes.mapM (dynamicClass known)
  return { enums := S.enums, classes := classes }

/-- What is written when the names that were found are those of the schema. -/
def generate (S : Schema) : Except String Program := generateWith S.known S

/-! ## Values -/

/-- A value of a pod type, and what a `folly::dynamic` holds of it. -/
inductive Scalar where
  | bool (b : Bool)
  | int (n : Int)
  | string (s : String)
  deriving DecidableEq, Repr

def Scalar.toLex : Scalar → Bool ⊕ₗ Int ⊕ₗ String
  | .bool b => .inl b
  | .int n => .inr (.inl n)
  | .string s => .inr (.inr s)

theorem Scalar.toLex_injective : Function.Injective Scalar.toLex := by
  intro s t h
  cases s <;> cases t <;> cases h <;> rfl

/-- Keys of one map are of one kind. -/
instance : LinearOrder Scalar := LinearOrder.lift' Scalar.toLex Scalar.toLex_injective

/-- A C++ value. A map is the list of its entries in key order, an object the list of its
    members' values, an enumerator its number. -/
inductive Value where
  | scalar (s : Scalar)
  | enum (item : Nat)
  | vector (vs : List Value)
  | map (es : List (Scalar × Value))
  | object (vs : List Value)

/-- `folly::dynamic`. -/
inductive Dynamic where
  | scalar (s : Scalar)
  | array (ds : List Dynamic)
  | object (es : List (Scalar × Dynamic))

def Dynamic.isObject : Dynamic → Bool
  | .object _ => true
  | _ => false

def Dynamic.isArray : Dynamic → Bool
  | .array _ => true
  | _ => false

/-- The value of the integer type that a number is converted to. -/
def Pod.wrap : Pod → Int → Int
  | .bool, n => n
  | .string, n => n
  | .uint8, n => n % 256
  | .uint16, n => n % 65536
  | .uint32, n => n % 4294967296
  | .uint64, n => n % 18446744073709551616
  | .int8, n => n.bmod 256
  | .int16, n => n.bmod 65536
  | .int, n => n.bmod 4294967296
  | .int32, n => n.bmod 4294967296
  | .int64, n => n.bmod 18446744073709551616

/-- `s` is a value of the type. -/
def Scalar.HasPod : Scalar → Pod → Prop
  | .bool _, .bool => True
  | .bool _, _ => False
  | .string _, .string => True
  | .string _, _ => False
  | .int _, .bool => False
  | .int _, .string => False
  | .int n, p => p.wrap n = n

/-- A `dynamic` of a pod: integers become `int64_t`. -/
def Scalar.toDynamic : Scalar → Scalar
  | .int n => .int (Pod.int64.wrap n)
  | s => s

def IsType.accepts : IsType → Scalar → Bool
  | .isString, .string _ => true
  | .isBool, .bool _ => true
  | .isInt, .int _ => true
  | _, _ => false

/-- What `__AS__TYPE__` returns, converted to the member's type. -/
def Pod.convert (p : Pod) : Scalar → Scalar
  | .int n => .int (p.wrap n)
  | s => s

/-! ## Running the enums' functions -/

namespace EnumDecl

variable (e : EnumDecl)

/-- `toString...`. -/
def toString (item : Nat) : String :=
  match e.items[item]? with
  | some name => strtolower name
  | none => "unknow"

/-- `serialize...`. -/
def serialize (item : Nat) : Dynamic :=
  match e.enumType with
  | .string => .scalar (.string (e.toString item))
  | .int => .scalar (.int item)

/-- `stringTo...`: the first item of this name. -/
def stringTo (name : String) : Option Nat := e.items.findIdx? fun item => strtolower item = name

/-- `deserialize...`; `none` when it returns false. -/
def deserialize (data : Dynamic) : Option Nat :=
  match e.enumType, data with
  | .string, .scalar (.string value) => e.stringTo value
  | .int, .scalar (.int n) =>
    let value := Pod.int.wrap n
    if 0 ≤ value ∧ value < e.items.length then some value.toNat else none
  | _, _ => none

end EnumDecl

/-! ## Running `serialize` -/

namespace Program

variable (P : Program)

def findClass (name : String) : Option ClassCode := P.classes.find? (·.name = name)

/-- A call of the function of this name on an enumerator. -/
def callSerialize (function : String) (item : Nat) : Option Dynamic :=
  (P.enums.find? fun e => "serialize" ++ e.name = function).map (·.serialize item)

def callDeserialize (cls : String) (data : Dynamic) : Option Nat :=
  (P.enums.find? fun e => "deserialize" ++ e.name = "deserialize" ++ cls).bind (·.deserialize data)

/-- `recur` is `serialize()` of the classes. -/
def runSerItem (recur : String → Value → Option Dynamic) : SerItem → Value → Option Dynamic
  | .pod, .scalar s => some (.scalar s.toDynamic)
  | .enum function, .enum item => P.callSerialize function item
  | .object cls, v => recur cls v
  | _, _ => none

/-- An entry of a map. -/
def runSerEntry (recur : String → Value → Option Dynamic) (item : SerItem) (e : Scalar × Value) :
    Option (Scalar × Dynamic) :=
  (P.runSerItem recur item e.2).map fun d => (e.1.toDynamic, d)

/-- What a statement inserts under its key. -/
def runSerStmt (recur : String → Value → Option Dynamic) : SerStmt → Value → Option Dynamic
  | .pod, .scalar s => some (.scalar s.toDynamic)
  | .vector item, .vector vs => (vs.mapM (P.runSerItem recur item)).map .array
  | .map item, .map es =>
    (es.mapM (P.runSerEntry recur item)).map fun entries => .object (SortedMap.insertAll entries)
  | .enum function, .enum item => P.callSerialize function item
  | .other cls, v => recur cls v
  | _, _ => none

/-- The statements of a class on the values of its members. -/
def runSerStmts (recur : String → Value → Option Dynamic) (stmts : List (String × SerStmt)) (vs : List Value) :
    Option (List (Scalar × Dynamic)) :=
  (stmts.zip vs).mapM fun p => (P.runSerStmt recur p.1.2 p.2).map fun d => (Scalar.string p.1.1, d)

/-- `serialize()` of an object of a class that is nested at most `n` deep; `none` for a
    deeper one, and for a value that is not of the class. -/
def serialize : Nat → String → Value → Option Dynamic
  | n + 1, cls, .object vs => do
    let c ← P.findClass cls
    let entries ← P.runSerStmts (serialize n) c.serializes vs
    return .object (SortedMap.insertAll entries)
  | _, _, _ => none

/-! ## Running `deserialize` -/

/-- `recur` is `deserialize(...)` of a fresh object; `none` when it returns false. -/
def runDesItem (recur : String → Dynamic → Option Value) : DesItem → Dynamic → Option Value
  | .pod is p, .scalar s => if is.accepts s then some (.scalar (p.convert s)) else none
  | .pod _ _, _ => none
  -- both ask for an object, also where an enum is to be read
  | .enum cls, d => if d.isObject then (P.callDeserialize cls d).map .enum else none
  | .object cls, d => if d.isObject then recur cls d else none

/-- An entry of an object that is read into a map. -/
def runDesEntry (recur : String → Dynamic → Option Value) (keyIs : IsType) (key : Pod) (item : DesItem)
    (e : Scalar × Dynamic) : Option (Scalar × Value) := do
  let v ← P.runDesItem recur item e.2
  if keyIs.accepts e.1 then some (key.convert e.1, v) else none

/-- The condition on the entry under the key, which the `_opt` variants only skip on. -/
def accepts : DesStmt → Dynamic → Bool
  | .pod is _, .scalar s => is.accepts s
  | .pod _ _, _ => false
  | .vector _, d => d.isArray
  | .map _ _ _, d => d.isObject
  | .enum _, _ => true
  | .other _, _ => true

/-- What a statement sets the member to; `none` when it returns false. -/
def runDesStmt (recur : String → Dynamic → Option Value) : DesStmt → Dynamic → Option Value
  | .pod _ p, .scalar s => some (.scalar (p.convert s))
  | .vector item, .array ds => (ds.mapM (P.runDesItem recur item)).map .vector
  | .map keyIs key item, .object es =>
    (es.mapM (P.runDesEntry recur keyIs key item)).map fun entries => .map (SortedMap.emplaceAll entries)
  | .enum cls, d => (P.callDeserialize cls d).map .enum
  | .other cls, d => recur cls d
  | _, _ => none

/-- The member's new value, which is the old one where nothing is set; `none` when the
    statement returns false. -/
def runDesCode (recur : String → Dynamic → Option Value) (data : List (Scalar × Dynamic)) (old : Value)
    (code : DesCode) : Option Value :=
  match SortedMap.get? data (.string code.key) with
  | some d =>
    if accepts code.stmt d then P.runDesStmt recur code.stmt d else if code.isoptional then some old else none
  | none => if code.isoptional then some old else none

variable (fresh : String → String → Value)

/-- `deserialize(data)` of a fresh object of a class, whose member `m` is `fresh cls m`;
    `none` when it returns false. -/
def deserialize : Nat → String → Dynamic → Option Value
  | n + 1, cls, .object data => do
    let c ← P.findClass cls
    let vs ← c.deserializes.mapM fun code => P.runDesCode (deserialize n) data (fresh cls code.name) code
    return .object vs
  | _, _, _ => none

end Program

/-! ## The values of a type -/

section Typed

variable (S : Schema)

/-- `recur` says which values a class has. -/
def TypedItem (recur : String → Value → Prop) : TypeName → Value → Prop
  | .pod p, v => ∃ s, v = .scalar s ∧ s.HasPod p
  | .named t, v =>
    match S.findEnum t with
    | some e => ∃ item < e.items.length, v = .enum item
    | none => recur t v

def TypedMember (recur : String → Value → Prop) : MemberType → Value → Prop
  | .plain t, v => TypedItem S recur t v
  | .vector t, v => ∃ vs, v = .vector vs ∧ ∀ x ∈ vs, TypedItem S recur t x
  | .map key t, v => ∃ es, v = .map es ∧ SortedMap.Sorted es ∧ ∀ e ∈ es, e.1.HasPod key ∧ TypedItem S recur t e.2

/-- The objects of a class that are nested at most `n` deep. -/
def Typed : Nat → String → Value → Prop
  | 0, _, _ => False
  | n + 1, cls, v => ∃ c vs, S.findClass cls = some c ∧ v = .object vs ∧
      List.Forall₂ (fun m v => TypedMember S (Typed n) m.type v) c.members vs

end Typed

/-! ## Compiling -/

/-- What the schema does not say: the macros of the compiler and of the headers, the names
    that are declared where the generated text is put, and whether `T x{init};` is accepted
    as a member where these types are declared. -/
structure Cpp where
  macros : List String
  declared : List String
  initializes : Schema → MemberType → String → Bool

/-- The keywords of C++17. -/
def keywords : List String :=
  ["alignas", "alignof", "and", "and_eq", "asm", "auto", "bitand", "bitor", "bool", "break", "case", "catch", "char",
    "char16_t", "char32_t", "class", "compl", "const", "const_cast", "constexpr", "continue", "decltype", "default",
    "delete", "do", "double", "dynamic_cast", "else", "enum", "explicit", "export", "extern", "false", "float", "for",
    "friend", "goto", "if", "inline", "int", "long", "mutable", "namespace", "new", "noexcept", "not", "not_eq",
    "nullptr", "operator", "or", "or_eq", "private", "protected", "public", "register", "reinterpret_cast", "return",
    "short", "signed", "sizeof", "static", "static_assert", "static_cast", "struct", "switch", "template", "this",
    "thread_local", "throw", "true", "try", "typedef", "typeid", "typename", "union", "unsigned", "using", "virtual",
    "void", "volatile", "wchar_t", "while", "xor", "xor_eq"]

def identifier (name : String) : Bool :=
  match name.toList with
  | [] => false
  | c :: cs => (c.isAlpha || c = '_') && cs.all (fun c => c.isAlphanum || c = '_') && !keywords.contains name

/-- Two underscores stand in the names of the compiler's own and in the placeholders of the
    templates; so does one before a capital letter in the former. -/
def reservedName (name : List Char) : Bool :=
  decide (['_', '_'] <:+: name) ||
    match name with
    | '_' :: c :: _ => c.isUpper
    | _ => false

/-- A name that the code may declare. -/
def Cpp.fits (cpp : Cpp) (name : String) : Bool :=
  identifier name && !reservedName name.toList && !cpp.macros.contains name

/-- What the templates name of the namespaces around. -/
def outerNames : List String := ["std", "folly", "size_t"] ++ Pod.all.map Pod.text

/-- The names that the templates bring along. -/
def templateNames : List String :=
  ["describe", "serialize", "deserialize", "os", "value", "result", "data", "name", "enum_obj", "t", "i", "iter"]

/-! ### The header -/

/-- What a type may name inside the class `self`, after the declarations `seen`: nothing is
    declared ahead, and only a container may be of the class itself. -/
def memberDeclared (seen : List String) (self : String) : MemberType → Bool
  | .plain (.named t) => seen.contains t
  | .vector (.named t) => (self :: seen).contains t
  | .map _ (.named t) => (self :: seen).contains t
  | _ => true

/-- The header, whose declarations are in the order of the schema. -/
def headerCompiles : List String → Schema → Bool
  | _, [] => true
  | seen, .enumclass e :: S => headerCompiles (e.name :: seen) S
  | seen, .cls c :: S =>
    c.members.all (fun m => memberDeclared seen c.name m.type) && headerCompiles (c.name :: seen) S

def initsCompile (cpp : Cpp) (S : Schema) : Bool :=
  S.classes.all fun c => c.members.all fun m => m.init = "" || cpp.initializes (S.map Decl.declared) m.type m.init

/-! ### Calls -/

/-- The functions that the header declares for an enum. -/
def EnumDecl.functions (e : EnumDecl) : List String :=
  let stringFunctions :=
    match e.enumType with
    | .string => ["stringTo" ++ e.name, "toString" ++ e.name]
    | .int => []
  ("serialize" ++ e.name) :: ("deserialize" ++ e.name) :: stringFunctions

def Schema.functions (S : Schema) : List String := S.enums.flatMap EnumDecl.functions

def Program.functions (P : Program) : List String := P.enums.flatMap EnumDecl.functions

/-- A function that is called is declared. -/
def Program.serStmtCompiles (P : Program) : SerStmt → Bool
  | .vector (.enum function) => P.functions.contains function
  | .map (.enum function) => P.functions.contains function
  | .enum function => P.functions.contains function
  | _ => true

/-- The template of a map of enums speaks of `i` and of `vec_...`, which it does not
    declare. -/
def Program.desStmtCompiles (P : Program) : DesStmt → Bool
  | .vector (.enum cls) => P.functions.contains ("deserialize" ++ cls)
  | .map _ _ (.enum _) => false
  | .enum cls => P.functions.contains ("deserialize" ++ cls)
  | _ => true

def Program.callsCompile (P : Program) : Bool :=
  P.classes.all fun c =>
    c.serializes.all (fun s => P.serStmtCompiles s.2) && c.deserializes.all (fun d => P.desStmtCompiles d.stmt)

/-- `for (auto& t : ...)` over a constant `std::vector<bool>` binds a temporary. -/
def loopCompiles : MemberType → Bool
  | .vector (.pod .bool) => false
  | _ => true

/-! ### Names in a class -/

/-- The types that a type names. -/
def MemberType.names : MemberType → List String
  | .plain t => [t.text]
  | .vector t => [t.text]
  | .map key t => [key.text, t.text]

/-- The function of its enum that a statement calls. -/
def Member.calls (S : Schema) (function : String) (m : Member) : List String :=
  match m.type with
  | .plain (.named t) => if S.known.existsEnum t then [function ++ t] else []
  | _ => []

def Member.setter (m : Member) : String := "set" ++ convertName m.name

/-- What a class declares, apart from its own name. -/
def ClassDecl.scope (c : ClassDecl) : List String :=
  ["describe", "serialize", "deserialize"] ++ c.members.flatMap (fun m => ["get" ++ convertName m.name, m.setter]) ++
    c.members.map (·.name ++ "_")

/-- No member hides another, the class's name or what the class uses of the outside. -/
def classScopeCompiles (S : Schema) (c : ClassDecl) : Bool :=
  decide (c.name :: c.scope).Nodup &&
    (outerNames ++ c.members.flatMap fun m =>
      m.type.names ++ m.calls S "serialize" ++ m.calls S "deserialize").all (!c.scope.contains ·)

/-! ### Names in its functions -/

/-- The local variable of `serialize` that a member brings. -/
def serLocals (m : Member) : List String :=
  match m.type with
  | .plain (.pod _) => []
  | _ => [m.name]

/-- No variable is declared twice, nor hides a function that is called after it. -/
def serializeCompiles (S : Schema) : List String → List Member → Bool
  | _, [] => true
  | scope, m :: ms =>
    let scope := serLocals m ++ scope
    decide scope.Nodup && (m.calls S "serialize").all (!scope.contains ·) && serializeCompiles S scope ms

/-- The variable of the statement in `deserialize` that holds the new value. -/
def desBlock (m : Member) : List String :=
  match m.type with
  | .plain (.pod _) => []
  | .plain (.named _) => ["item" ++ m.name]
  | .vector _ => ["vec_" ++ m.name]
  | .map _ _ => ["map_" ++ m.name]

/-- The types that it names before. -/
def desTypes : MemberType → List String
  | .plain (.pod _) => []
  | t => t.names

/-- What it names after. -/
def desUses (S : Schema) (m : Member) : List String :=
  m.setter :: m.calls S "deserialize" ++
    match m.type with
    | .vector t => ["size_t", t.text]
    | .map _ t => [t.text]
    | _ => []

/-- The variable of its loop. -/
def desLoop : MemberType → List String
  | .plain _ => []
  | .vector _ => ["i"]
  | .map _ _ => ["iter"]

/-- The same of `deserialize`, where the `_opt` variants have a block of their own. -/
def deserializeCompiles (S : Schema) : List String → List Member → Bool
  | _, [] => true
  | scope, m :: ms =>
    let scope := m.name :: scope
    let block := desBlock m ++ scope
    decide scope.Nodup && (desTypes m.type).all (!scope.contains ·) &&
      (desUses S m).all (!(desLoop m.type ++ block).contains ·) && (m.isoptional || decide block.Nodup) &&
      deserializeCompiles S (if m.isoptional then scope else block) ms

/-- The variables of the loops do not hide the member's own. -/
def loopVariables : MemberType → List String
  | .plain _ => []
  | .vector _ => ["t", "i"]
  | .map _ _ => ["t", "iter"]

/-- The names that a member brings. -/
def Member.declares (m : Member) : List String :=
  m.name :: desBlock m ++
    match m.type with
    | .plain _ => []
    | .vector _ => ["obj_" ++ m.name]
    | .map _ _ => ["obj_" ++ m.name]

/-! ### The names of a schema -/

/-- The enumerators are numbered from 0 and fit an `int`; the parameter `data` stands before
    the enum's name. -/
def enumCompiles (cpp : Cpp) (e : EnumDecl) : Bool :=
  e.items.all cpp.fits && decide e.items.Nodup && decide (e.items.length ≤ 2147483648) && e.name != "data"

/-- What stands between the quotes of a string. Two underscores may be those of a
    placeholder. -/
def keyCompiles (key : String) : Bool :=
  ['"', '\\', '\n'].all (!key.toList.contains ·) && !decide (['_', '_'] <:+: key.toList)

def classCompiles (cpp : Cpp) (S : Schema) (c : ClassDecl) : Bool :=
  c.members.all (fun m => m.declares.all cpp.fits && keyCompiles m.serializeName && loopCompiles m.type &&
      !(loopVariables m.type).contains m.name) &&
    c.scope.all cpp.fits && classScopeCompiles S c && serializeCompiles S ["result"] c.members &&
    deserializeCompiles S ["data"] c.members

/-- The parameter `os` stands before the name of a class or an enum. -/
def declCompiles (cpp : Cpp) (S : Schema) (d : Decl) : Bool :=
  cpp.fits d.name && !(S.functions ++ outerNames ++ cpp.declared).contains d.name && d.name != "os"

def namesCompile (cpp : Cpp) (S : Schema) : Bool :=
  decide (S.map Decl.name).Nodup && S.all (declCompiles cpp S) &&
    S.functions.all (fun f => cpp.fits f && !cpp.declared.contains f) && S.enums.all (enumCompiles cpp) &&
    S.classes.all (classCompiles cpp S) && templateNames.all (!cpp.macros.contains ·)

/-- The files that are generated from `S` compile. -/
def Program.compiles (cpp : Cpp) (S : Schema) (P : Program) : Bool :=
  headerCompiles [] S && initsCompile cpp S && P.callsCompile && namesCompile cpp S

end PredictorService.BuildTools
