import Bytecode.Executable.Dump
import Bytecode.Hex
import Bytecode.Tree.Reader

/-!
# The compact form of executables

A JSON form in which executables are exchanged exactly: code is a string of hexadecimal
digits, a declaration is a pair of a name and a type, and a double is given by its bits, so
that infinities and zeros keep their identity. All patterns that are no number are written
alike.
-/

namespace Bytecode

namespace Double

/-- The bits of a double, or `nan`. -/
def toBitText (x : Double) : String := if x.isNaN then "nan" else "0x" ++ Hex.ofNat 16 x.bits.toNat

def ofBitText? (text : String) : Option Double :=
  if text = "nan" then some ⟨0x7ff8000000000000⟩
  else
    match text.toList with
    | '0' :: 'x' :: digits => (Hex.number? digits).map fun n => ⟨n.toUInt64⟩
    | _ => none

def toBits (x : Double) : Json := .str x.toBitText

def ofBits? (j : Json) : Option Double := j.toString?.bind ofBitText?

end Double

namespace Json

/-- A member of an object, whatever else the object has. -/
def member? {α : Type} (name : String) (read : Json → Option α) : Json → Option α
  | .obj members => (members.lookup name).bind read
  | _ => none

/-- A member that may be missing or null. -/
def optionalMember? {α : Type} (name : String) (read : Json → Option α) :
    Json → Option (Option α)
  | .obj members =>
    match members.lookup name with
    | none => some none
    | some j => j.toOption? read
  | _ => none

/-- A natural number of 64 bits. -/
def toNat? : Json → Option Nat := toNatBelow? UInt64.size

end Json

namespace VariableDecl

def toPair (v : VariableDecl) : Json := .arr [.str v.name, v.ty.toJson]

def ofPair? : Json → Option VariableDecl
  | .arr [name, ty] => do return ⟨← name.toString?, ← Ty.ofJson? ty⟩
  | _ => none

end VariableDecl

namespace LineRun

def toTriple (run : LineRun) : Json := .ofList .ofNat [run.line.toNat, run.startPc, run.pcCount]

def ofTriple? : Json → Option LineRun
  | .arr [line, startPc, pcCount] => do
    return ⟨← line.toUInt32?, ← startPc.toNat?, ← pcCount.toNat?⟩
  | _ => none

end LineRun

namespace CodeBlock

def toCompact (block : CodeBlock) : Json :=
  .obj [("code", .str (Hex.encode block.code.toList)),
    ("lines", .ofList LineRun.toTriple block.lines.toList)]

def ofCompact? (j : Json) : Option CodeBlock := do
  let code ← j.member? "code" fun code => code.toString?.bind Hex.decode?
  let lines ← j.member? "lines" (Json.toList? LineRun.ofTriple?)
  return ⟨code.toArray, lines.toArray⟩

end CodeBlock

namespace Constant

def ofCompact? : Json → Option Constant
  | .obj [("int", i)] => i.toInt64?.map .int
  | .obj [("double", x)] => (Double.ofBits? x).map .double
  | .obj [("string", s)] => s.toString?.map .string
  | _ => none

end Constant

namespace Function

/-- The form of a function, its code written by `block`. -/
def toCompact (block : CodeBlock → Json) (f : Function) : Json :=
  .obj [("name", .str f.name), ("package", .str f.package),
    ("class", .ofOption (fun index => .ofNat index.toNat) f.class_),
    ("return_type", f.returnType.toJson), ("params", .ofList VariableDecl.toPair f.params),
    ("locals", .ofList VariableDecl.toPair f.locals), ("code", .ofOption block f.code)]

def ofCompact? (j : Json) : Option Function := do
  return {
    name := ← j.member? "name" Json.toString?
    package := ← j.member? "package" Json.toString?
    class_ := ← j.optionalMember? "class" Json.toUInt16?
    returnType := ← j.member? "return_type" Ty.ofJson?
    params := ← j.member? "params" (Json.toList? VariableDecl.ofPair?)
    locals := ← j.member? "locals" (Json.toList? VariableDecl.ofPair?)
    code := ← j.optionalMember? "code" CodeBlock.ofCompact? }

end Function

namespace Method

def toPair (m : Method) : Json := .arr [.str m.name, .ofNat m.function.toNat]

def ofPair? : Json → Option Method
  | .arr [name, function] => do return ⟨← name.toString?, ← function.toUInt16?⟩
  | _ => none

end Method

namespace Class

def toCompact (c : Class) : Json :=
  .obj [("name", .str c.name), ("package", .str c.package),
    ("super_class", .ofOption (fun index => .ofNat index.toNat) c.superClass),
    ("fields", .ofList VariableDecl.toPair c.fields), ("methods", .ofList Method.toPair c.methods)]

def ofCompact? (j : Json) : Option Class := do
  return {
    name := ← j.member? "name" Json.toString?
    package := ← j.member? "package" Json.toString?
    superClass := ← j.optionalMember? "super_class" Json.toUInt16?
    fields := ← j.member? "fields" (Json.toList? VariableDecl.ofPair?)
    methods := ← j.member? "methods" (Json.toList? Method.ofPair?) }

end Class

namespace Executable

/-- The form of an executable, its code blocks written by `block`. -/
def toCompact (block : CodeBlock → Json) (exe : Executable) : Json :=
  .obj [("package", .str exe.package),
    ("constants", .ofList (Constant.toJson Double.toBits) exe.constants.toList),
    ("globals", .ofList VariableDecl.toPair exe.globals.toList),
    ("functions", .ofList (Function.toCompact block) exe.functions.toList),
    ("classes", .ofList Class.toCompact exe.classes.toList), ("top_level", block exe.topLevel)]

def ofCompact? (j : Json) : Option Executable := do
  return {
    package := ← j.member? "package" Json.toString?
    constants := (← j.member? "constants" (Json.toList? Constant.ofCompact?)).toArray
    globals := (← j.member? "globals" (Json.toList? VariableDecl.ofPair?)).toArray
    functions := (← j.member? "functions" (Json.toList? Function.ofCompact?)).toArray
    classes := (← j.member? "classes" (Json.toList? Class.ofCompact?)).toArray
    topLevel := ← j.member? "top_level" CodeBlock.ofCompact? }

end Executable

end Bytecode
