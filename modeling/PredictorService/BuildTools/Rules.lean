/-
  PredictorService.BuildTools.Rules — what a rule of a BUILD file comes to
  (build_tools/typhoon-blade/src/blade/target.py, cc_targets.py, cu_targets.py,
  proto_library_target.py, thrift_library.py, fbthrift_library.py, scala_targets.py).

  The class of a rule hands sources, dependencies and a visibility to `Target.__init__`, and
  then adds what it needs itself (`Addition`): libraries that the configuration names, and
  other targets. What `_add_hardcode_library` adds stands in `expanded_deps` only, so it is
  loaded, analysed and built, but is none of the target's `deps`.

  The other options of a rule are left out; a check of them that fails is an `exit` among
  what the class does.
-/

import PredictorService.BuildTools.DependencyAnalyzer

namespace PredictorService.BuildTools

open PredictorService.Lib

/-- How the execution of a BUILD file is broken off. -/
inductive BuildError where
  | exit
  | exception
  deriving DecidableEq, Repr

/-! ## Libraries of the configuration -/

def isSpace (c : Char) : Bool := c ∈ [' ', '\t', '\n', '\r', '\x0b', '\x0c']

/-- `str.strip`. -/
def strip (l : List Char) : List Char := ((l.dropWhile isSpace).reverse.dropWhile isSpace).reverse

/-- `_convert_string_to_target_helper`. -/
def convertStringToTarget (targetString : String) : Except BuildError Key :=
  let l := targetString.toList
  if l.head? = some '#' then .ok ("#", String.ofList l.tail)
  else if ':' ∈ l then
    match l.splitOn ':' with
    | [path, name] =>
      let path := strip path
      let path := if ['/', '/'].isPrefixOf path then path.drop 2 else path
      .ok (String.ofList path, String.ofList (strip name))
    | _ => .error .exception
  else .error .exit

/-- The system libraries are those that begin with `#`. -/
def systemByHash (text : String) : Bool :=
  match convertStringToTarget text with
  | .ok key => key.1 ≠ "#" ∨ text.toList.head? = some '#'
  | .error _ => true

abbrev HardcodeLib := { text : String // systemByHash text = true }

/-! ## Rules -/

/-- What the class of a rule does after `Target.__init__`. -/
inductive Addition where
  /-- `_add_hardcode_library`. -/
  | hardcode (lib : HardcodeLib)
  /-- `_add_hardcode_java_library`, and `_add_location_reference_target`. -/
  | unify (dep : String)
  /-- A dependency of a protoc plugin. -/
  | plugin (key : Key)
  /-- A `_unify_dep` whose key is no dependency. -/
  | refer (dep : String)
  /-- A check fails. -/
  | exit
  deriving DecidableEq

/-- The text of an addition that may name a system library. -/
def Addition.text : Addition → Option String
  | .hardcode lib => some lib.1
  | .unify dep | .refer dep => some dep
  | .plugin _ | .exit => none

/-- What `_add_hardcode_library` adds is not among the target's `deps`. -/
def Addition.inDeps : Addition → Bool
  | .hardcode _ => false
  | _ => true

/-- A call of a rule's function in a BUILD file. -/
structure Rule where
  name : String
  type : String := ""
  /-- A check that the class makes before `Target.__init__` fails. -/
  refused : Bool := false
  /-- The options that the class does not know. -/
  kwargs : List String := []
  srcs : List String := []
  deps : List String := []
  /-- `none` where it is not given. -/
  visibility : Option (List String) := none
  own : List Addition := []
  /-- A `cc_library` or `cc_test` for another profile than the command's is not registered. -/
  registers : Bool := true
  deriving DecidableEq

/-- The entries of the configuration that the classes read. -/
structure BladeConfig where
  extraLibs : List HardcodeLib := []
  gtestLibs : List HardcodeLib := []
  gtestMainLibs : List HardcodeLib := []
  gperftoolsLibs : List HardcodeLib := []
  gperftoolsDebugLibs : List HardcodeLib := []
  heapCheck : String := ""
  protobufLibs : List HardcodeLib := []
  protobufJavaLibs : List String := []
  protobufPythonLibs : List HardcodeLib := []
  thriftLibs : List HardcodeLib := []
  fbthriftLibs : List HardcodeLib := []
  scalatestLibs : List String := []
  /-- The dependencies of each plugin, for all its languages. -/
  protocPlugins : FinMap String (List Key) := ∅

/-- The classes that do more than `Target.__init__`, with the arguments they look at. -/
inductive RuleClass where
  | ccLibrary (compilerEnv : Option String) (prebuilt preBuild : Bool)
  | ccBinary
  | ccTest (compilerEnv heapCheck : Option String) (heapCheckDebug : Bool)
  | cuTest
  | protoLibrary (plugins : List String)
  | thriftLibrary
  | fbthriftLibrary
  | javaTest (targetUnderTest : Option String)
  | scalaTest
  /-- `GenRuleTarget`, `ShTest` and others refer to targets in their texts; most add none. -/
  | other (type : String) (references : List String)
  deriving DecidableEq

def HEAP_CHECK_VALUES : List String := ["", "minimal", "normal", "strict", "draconian", "as-is", "local"]

namespace RuleClass

variable (c : BladeConfig)

def type : RuleClass → String
  | ccLibrary _ prebuilt preBuild => if prebuilt ∨ preBuild then "prebuilt_cc_library" else "cc_library"
  | ccBinary => "cc_binary"
  | ccTest .. => "cc_test"
  | cuTest => "cu_test"
  | protoLibrary _ => "proto_library"
  | thriftLibrary => "thrift_library"
  | fbthriftLibrary => "fbthrift_library"
  | javaTest _ => "java_test"
  | scalaTest => "scala_test"
  | other type _ => type

/-- `gperftools`, only where heaps are checked. -/
def heapCheckOwn (heapCheckDebug : Bool) (heapCheck : String) : List Addition :=
  if heapCheck = "" then []
  else (if heapCheckDebug then c.gperftoolsDebugLibs else c.gperftoolsLibs).map .hardcode

/-- Plugins have to be configured. -/
def pluginOwn (plugin : String) : List Addition :=
  match c.protocPlugins.lookup plugin with
  | none => [.exit]
  | some keys => keys.map .plugin

def own : RuleClass → List Addition
  | ccLibrary .. => []
  | ccBinary => c.extraLibs.map .hardcode
  | ccTest _ heapCheck heapCheckDebug =>
    c.extraLibs.map .hardcode ++ c.gtestLibs.map .hardcode ++ c.gtestMainLibs.map .hardcode ++
      match heapCheck with
      | none => heapCheckOwn c heapCheckDebug c.heapCheck
      | some heapCheck => if heapCheck ∈ HEAP_CHECK_VALUES then heapCheckOwn c heapCheckDebug heapCheck else [.exit]
  | cuTest => c.gtestLibs.map .hardcode ++ c.gtestMainLibs.map .hardcode
  | protoLibrary plugins =>
    c.protobufLibs.map .hardcode ++ c.protobufJavaLibs.map .unify ++ c.protobufPythonLibs.map .hardcode ++
      plugins.flatMap (pluginOwn c)
  | thriftLibrary => c.thriftLibs.map .hardcode
  | fbthriftLibrary => c.fbthriftLibs.map .hardcode
  | javaTest targetUnderTest => targetUnderTest.toList.map .refer
  | scalaTest => c.scalatestLibs.map .unify
  | other _ references => references.map .unify

def endsWith (suffix src : String) : Bool := suffix.toList.isSuffixOf src.toList

/-- `_check_proto_srcs_name` and `_check_thrift_srcs_name`. -/
def refuses (srcs : List String) : RuleClass → Bool
  | protoLibrary _ => srcs.any fun src => !endsWith ".proto" src
  | thriftLibrary | fbthriftLibrary => srcs.any fun src => !endsWith ".thrift" src
  | _ => false

/-- `profile` is that of the command. -/
def registers (profile : String) : RuleClass → Bool
  | ccLibrary compilerEnv _ preBuild => !preBuild && (compilerEnv = none ∨ compilerEnv = some profile)
  | ccTest compilerEnv _ _ => compilerEnv = none ∨ compilerEnv = some profile
  | _ => true

/-- The rule that a call with these arguments is. -/
def rule (profile name : String) (kwargs srcs deps : List String) (visibility : Option (List String))
    (cls : RuleClass) : Rule where
  name
  type := cls.type
  refused := cls.refuses srcs
  kwargs
  srcs
  deps
  visibility
  own := cls.own c
  registers := cls.registers profile

end RuleClass

end PredictorService.BuildTools
