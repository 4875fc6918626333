/-
  PredictorService.BuildTools.EntityConfig — how the generator reads its `.config` file
  (build_tools/entity_generator.php, `__construct`, `parse`, `parseClassName`, `parseClass`,
  `parseMember`, `parseEnum`, `dynamic`, `clear`).

  A line stands for a member or an item of what is above it, and every line with `class` in
  it for the head of something new. What is above a head is written when the head is read,
  unless it is empty; what is read last is written in any case. `process` is the whole run.

  `Written` says which files are the text of a schema, in the format of the files in the
  repository. It knows nothing of the generator.
-/

import PredictorService.BuildTools.EntityGenerator
import PredictorService.Lib.Pieces

namespace PredictorService.BuildTools

open PredictorService.Lib

/-! ## Strings -/

/-- A line, or a part of one. -/
abbrev Text := List Char

/-- The characters that `trim` takes off. -/
def isBlank (c : Char) : Bool := [' ', '\t', '\n', '\r', '\x00', '\x0b'].contains c

def trim (s : Text) : Text := trimBy isBlank s

/-- `false !== strpos(...)`. -/
def includes (s : Text) (word : String) : Bool := decide (word.toList <:+: s)

/-- `str_replace("const", '', ...)`. -/
def removeConst : Text → Text
  | 'c' :: 'o' :: 'n' :: 's' :: 't' :: s => removeConst s
  | c :: s => c :: removeConst s
  | [] => []

def quote : Char := '\x22'

/-- What `(.*)` is in a regular expression `^left(.*)right$`. -/
def enclosed (left : String) (right : Char) (s : Text) : Option Text :=
  if left.toList <+: s then
    let rest := s.drop left.toList.length
    if rest.getLast? = some right then some rest.dropLast else none
  else none

/-! ## Members -/

/-- `$this->annotation_option`. -/
structure AnnotationOption where
  serializeName : Text
  isoptional : Bool
  deriving DecidableEq, Repr

inductive ContainerType where
  | text (t : Text)
  | pair (key value : Text)
  deriving DecidableEq, Repr

/-- `$memberInfo`. -/
structure MemberInfo where
  init : Text
  isconst : Bool
  isvector : Bool
  isstring : Bool
  ismap : Bool
  isoptional : Bool
  serializeName : Text
  containerType : ContainerType
  type : Text
  deriving DecidableEq, Repr

/-- The options of an `@SR(...)` line. -/
def annotationOf (item : Text) : Option AnnotationOption :=
  (enclosed "@SR(" ')' item).map fun text =>
    let options := text.splitOn '|'
    { serializeName := options.getD 0 [], isoptional := options[1]? = some "optional".toList }

def containerType (type : Text) : ContainerType :=
  let inner := (enclosed "std::unordered_map<" '>' type).or (enclosed "std::map<" '>' type)
  match inner.bind (splitLast ',') with
  | some (key, value) => .pair (trim key) (trim value)
  | none => .text (trim ((enclosed "std::vector<" '>' type).getD []))

/-- `$memberInfo['init']`. -/
def initOf (item : Text) : Text := if item.contains '=' then trim ((item.splitOn '=').getD 1 []) else []

/-- The line without the initializer. -/
def declOf (item : Text) : Text := if item.contains '=' then trim ((item.splitOn '=').getD 0 []) else item

def withoutConst (item : Text) : Text := if includes item "const" then trim (removeConst item) else item

/-- `$infos`: the type and the name. -/
def infosOf (item : Text) : List Text :=
  if item.contains quote then (item.dropWhile (· = quote)).splitOn quote else item.splitOn ' '

/-- A member's name and what is noted of it. -/
def memberInfo (annot : Option AnnotationOption) (item : Text) : Text × MemberInfo :=
  let infos := infosOf (withoutConst (declOf item))
  let type := trim (infos.getD 0 [])
  let isvector := includes type "std::vector"
  let ismap := includes type "std::unordered_map" || includes type "std::map"
  (trim (infos.getD 1 []),
    { init := initOf item
      isconst := includes (declOf item) "const"
      isvector := isvector
      isstring := includes type "std::string" && !isvector && !ismap
      ismap := ismap
      isoptional := annot.any (·.isoptional)
      serializeName := (annot.map (·.serializeName)).getD []
      containerType := containerType type
      type := type })

def podOf (t : Text) : Option Pod := Pod.all.find? fun p => p.text.toList = t

/-- The name of a type that is no container; `none` for `double`. -/
def typeNameOf (t : Text) : Option TypeName :=
  if t = "double".toList then none
  else some (match podOf t with
    | some p => .pod p
    | none => .named (String.ofList t))

/-- The type that `serialize` and `deserialize` find by the flags; `none` for a shape that is
    not among the documented ones. -/
def MemberInfo.memberType (info : MemberInfo) : Option MemberType :=
  if (podOf info.type).isSome || info.isstring then (podOf info.type).map fun p => .plain (.pod p)
  else if info.isvector then
    match info.containerType with
    | .text t => (typeNameOf t).map .vector
    | .pair _ _ => none
  else if info.ismap then
    match info.containerType with
    | .text _ => none
    | .pair key value => (podOf key).bind fun key => (typeNameOf value).map (.map key)
  else (typeNameOf info.type).map .plain

/-- An entry of `$this->members`. -/
def memberOf (m : Text × MemberInfo) : Option Member :=
  m.2.memberType.map fun type =>
    { name := String.ofList m.1, type := type, serializeName := String.ofList m.2.serializeName
      isoptional := m.2.isoptional, init := String.ofList m.2.init }

/-- `$this->members[$memberName] = $memberInfo`. -/
def setMember (members : List (Text × MemberInfo)) (m : Text × MemberInfo) : List (Text × MemberInfo) :=
  if members.any (·.1 = m.1) then members.map fun n => if n.1 = m.1 then m else n else members ++ [m]

/-! ## Classes and enums -/

/-- What `dynamic` writes. -/
inductive Block where
  | enumclass (name enumType : Text) (items : List Text)
  | cls (name : Text) (members : List (Text × MemberInfo))
  deriving DecidableEq, Repr

def Block.decl : Block → Option Decl
  | .enumclass name enumType items =>
    some (.enumclass
      { name := String.ofList name, enumType := if enumType = "string".toList then .string else .int
        items := items.map String.ofList })
  | .cls name members =>
    (members.mapM memberOf).map fun members => .cls { name := String.ofList name, members := members }

/-- The fields of the generator while it reads, and what was written so far. `$this->options`
    is set for an enum only. -/
structure Reading where
  className : Text := []
  enumType : Option Text := none
  members : List (Text × MemberInfo) := []
  enums : List Text := []
  annotationOption : Option AnnotationOption := none
  written : List Block := []
  deriving DecidableEq, Repr

namespace Reading

def block (r : Reading) : Block :=
  match r.enumType with
  | some enumType => .enumclass r.className enumType r.enums
  | none => .cls r.className r.members

/-- With `clear`, which leaves an annotation. -/
def dynamic (r : Reading) : Reading := { annotationOption := r.annotationOption, written := r.written ++ [r.block] }

/-- What was read last is written when something new begins, unless it is empty. -/
def flush (r : Reading) : Reading :=
  if r.className ≠ [] ∧ (r.members ≠ [] ∨ r.enums ≠ []) then r.dynamic else r

def parseClass (r : Reading) (item : Text) : Reading :=
  match item.splitOn ' ' with
  | [word, name] => if word = "enumclass".toList then r.flush else { r.flush with className := trim name }
  | [word, enumType, name] =>
    if word = "enumclass".toList then { r.flush with className := trim name, enumType := some (trim enumType) }
    else r.flush
  | _ => r.flush

def parseMember (r : Reading) (item : Text) : Reading :=
  match annotationOf item with
  | some annot => { r with annotationOption := some annot }
  | none => { r with annotationOption := none, members := setMember r.members (memberInfo r.annotationOption item) }

def parseEnum (r : Reading) (item : Text) : Reading := { r with enums := r.enums ++ [trim item] }

/-- The body of the loop of `parse`. -/
def parseLine (r : Reading) (item : Text) : Reading :=
  if includes item "class" then r.parseClass item
  else if r.enumType.isSome then r.parseEnum item
  else r.parseMember item

end Reading

/-! ## The file -/

/-- A line that is neither empty nor a comment. -/
def kept (v : Text) : Bool := v ≠ [] && !v.contains '#'

/-- `$this->data`. -/
def load (config : List Text) : List Text := (config.map trim).filter kept

/-- What is written of the lines. -/
def parse (data : List Text) : List Block := (data.foldl Reading.parseLine {}).dynamic.written

/-- The name in a line of `n` parts that begins with `word`. -/
def headName (word : String) (n : Nat) (item : Text) : Option String :=
  let items := item.splitOn ' '
  if includes item "class" && items.length = n && items.head? = some word.toList then
    some (String.ofList (trim (items.getLastD [])))
  else none

def parseClassName (data : List Text) : Known where
  enums := data.filterMap (headName "enumclass" 3)
  classes := data.filterMap (headName "class" 2)

/-- The declarations of the header and the code of the source file. -/
structure Output where
  header : Schema
  source : Program

/-- `run` on the lines of a file; `none` if some member has none of the documented shapes. -/
def process (config : List Text) : Option (Except String Output) :=
  let data := load config
  ((parse data).mapM Block.decl).map fun header =>
    (generateWith (parseClassName data) header).map fun source => { header := header, source := source }

/-! ## The format -/

/-- Spaces, or nothing. -/
def Spaces (s : Text) : Prop := ∀ c ∈ s, c = ' '

/-- The type of the elements, or the type itself. -/
def MemberType.elem : MemberType → TypeName
  | .plain t => t
  | .vector t => t
  | .map _ t => t

/-- A type's text, with this text for its elements. -/
inductive TypeText : MemberType → Text → Text → Prop
  | plain {t : TypeName} {elem : Text} : TypeText (.plain t) elem elem
  | vector {t : TypeName} {elem a b : Text} (ha : Spaces a) (hb : Spaces b) :
      TypeText (.vector t) elem ("std::vector".toList ++ '<' :: (a ++ elem ++ b ++ ['>']))
  | map {key : Pod} {t : TypeName} {elem : Text} {container : String} {a b c d : Text}
      (hcontainer : container = "std::map" ∨ container = "std::unordered_map") (ha : Spaces a) (hb : Spaces b)
      (hc : Spaces c) (hd : Spaces d) :
      TypeText (.map key t) elem
        (container.toList ++ '<' :: (a ++ key.text.toList ++ b ++ ',' :: (c ++ elem ++ d ++ ['>'])))

/-- A type before a name; one with a space in it is in quotes. -/
inductive Shown : Text → Text → Prop
  | bare {type : Text} (h : ' ' ∉ type) : Shown type (type ++ [' '])
  | quoted (type : Text) : Shown type (quote :: type ++ [quote, ' '])

/-- What follows a name. -/
inductive InitText : String → Text → Prop
  | none : InitText "" []
  | some (init : String) {a b : Text} (ha : Spaces a) (hb : Spaces b) : InitText init (a ++ '=' :: (b ++ init.toList))

/-- The line of a member. -/
inductive MemberLine (m : Member) : Text → Prop
  | mk (isconst : Bool) {type shown init : Text} (htype : TypeText m.type m.type.elem.text.toList type)
      (hshown : Shown type shown) (hinit : InitText m.init init) :
      MemberLine m ((if isconst then "const ".toList else []) ++ (shown ++ m.name.toList ++ init))

/-- The line of its annotation, if it has one. -/
inductive AnnotationLines (m : Member) : List Text → Prop
  | none (hname : m.serializeName = "") (hopt : m.isoptional = false) : AnnotationLines m []
  | some (hname : '|' ∉ m.serializeName.toList) :
      AnnotationLines m
        ["@SR(".toList ++ (m.serializeName.toList ++ if m.isoptional then "|optional".toList else []) ++ [')']]

def MemberLines (m : Member) (lines : List Text) : Prop :=
  ∃ annot line, AnnotationLines m annot ∧ MemberLine m line ∧ lines = annot ++ [line]

def EnumType.text : EnumType → String
  | .string => "string"
  | .int => "int"

def Decl.head : Decl → Text
  | .enumclass e => "enumclass ".toList ++ (e.enumType.text.toList ++ ' ' :: e.name.toList)
  | .cls c => "class ".toList ++ c.name.toList

def BodyLines : Decl → List Text → Prop
  | .enumclass e, lines => lines = e.items.map String.toList
  | .cls c, lines => ∃ parts, List.Forall₂ MemberLines c.members parts ∧ lines = parts.flatten

def SchemaLines (S : Schema) (lines : List Text) : Prop :=
  ∃ bodies, List.Forall₂ BodyLines S bodies ∧ lines = (List.zipWith (fun d body => d.head :: body) S bodies).flatten

/-- A file with these lines, indented at will, between blank lines and comments. -/
inductive Spread : List Text → List Text → Prop
  | nil : Spread [] []
  | noise {line : Text} {config lines : List Text} (h : trim line = [] ∨ (trim line).head? = some '#')
      (hrest : Spread config lines) : Spread (line :: config) lines
  | line {line : Text} {config lines : List Text} (hrest : Spread config lines) :
      Spread (line :: config) (trim line :: lines)

/-- The name of a class or an enum is an identifier that no pod has. -/
def TypeName.worded : TypeName → Bool
  | .pod _ => true
  | .named n => identifier n && !(Pod.all.map Pod.text).contains n

/-- All names are identifiers. -/
def Decl.worded : Decl → Bool
  | .enumclass e => identifier e.name && e.items.all identifier
  | .cls c => identifier c.name && c.members.all fun m => identifier m.name && m.type.elem.worded

/-- The file is the text of the schema. -/
structure Written (S : Schema) (config : List Text) : Prop where
  worded : ∀ d ∈ S, d.worded = true
  lines : ∃ lines, SchemaLines S lines ∧ Spread config lines

/-! ## What can be read -/

/-- The line is not taken for a head or a comment, and no name for a `const`. -/
def Member.reads (m : Member) : Bool :=
  [m.name, m.type.elem.text, m.init].all (!includes ·.toList "class") && !m.init.toList.contains '#' &&
    [m.name, m.type.elem.text].all (!includes ·.toList "const")

def Decl.reads : Decl → Bool
  | .enumclass e => e.items.all (!includes ·.toList "class")
  | .cls c => c.members.all Member.reads

def Decl.isEmpty : Decl → Bool
  | .enumclass e => e.items.isEmpty
  | .cls c => c.members.isEmpty

/-- Only the last of a schema may be empty. -/
def Schema.reads (S : Schema) : Bool := !S.isEmpty && S.dropLast.all (!·.isEmpty) && S.all Decl.reads

/-- The annotations are not taken for heads or comments, and the keys not changed on their
    way into the code. -/
def Decl.keysRead : Decl → Bool
  | .enumclass _ => true
  | .cls c => c.members.all fun m =>
      !includes m.serializeName.toList "class" && !m.serializeName.toList.contains '#' && keyCompiles m.serializeName

/-- What the generator takes of an initializer: the text before another `=`. -/
def initRead (init : String) : Text := trim (init.toList.takeWhile (· ≠ '='))

def Member.asRead (m : Member) : Member := { m with init := String.ofList (initRead m.init) }

def ClassDecl.asRead (c : ClassDecl) : ClassDecl := { c with members := c.members.map Member.asRead }

def Decl.asRead : Decl → Decl
  | .enumclass e => .enumclass e
  | .cls c => .cls c.asRead

def Schema.asRead (S : Schema) : Schema := S.map Decl.asRead

end PredictorService.BuildTools
