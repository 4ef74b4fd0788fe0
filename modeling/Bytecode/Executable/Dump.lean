import Bytecode.Executable.Basic
import Bytecode.Tree.Writer

/-!
# Executables as JSON values

The dump of an executable for other programs to read, with all its tables and code.
-/

namespace Bytecode

namespace Constant

/-- The value written for a constant, a double written by `double`. -/
def toJson (double : Double → Json) : Constant → Json
  | .int value => .tagged "int" (.ofInt value.toInt)
  | .double value => .tagged "double" (double value)
  | .string value => .tagged "string" (.str value)

end Constant

namespace LineRun

def toJson (run : LineRun) : Json :=
  .obj [("line", .ofNat run.line.toNat), ("start_pc", .ofNat run.startPc),
    ("pc_count", .ofNat run.pcCount)]

end LineRun

namespace CodeBlock

def toJson (block : CodeBlock) : Json :=
  .obj [("code", .ofList (fun byte => .ofNat byte.toNat) block.code.toList),
    ("line_numbers", .ofList LineRun.toJson block.lines.toList)]

end CodeBlock

namespace Function

def toJson (f : Function) : Json :=
  let kind := match f.code with
    | none => .str "native"
    | some block => .tagged "implemented" block.toJson
  .obj [("name", .str f.name), ("package", .str f.package),
    ("class", .ofOption (fun index => .ofNat index.toNat) f.class_),
    ("return_type", f.returnType.toJson), ("params", .ofList VariableDecl.toJson f.params),
    ("locals", .ofList VariableDecl.toJson f.locals), ("kind", kind)]

end Function

namespace Method

def toJson (m : Method) : Json :=
  .obj [("name", .str m.name), ("function", .ofNat m.function.toNat)]

end Method

namespace Class

def toJson (c : Class) : Json :=
  .obj [("name", .str c.name), ("package", .str c.package),
    ("super_class", .ofOption (fun index => .ofNat index.toNat) c.superClass),
    ("fields", .ofList VariableDecl.toJson c.fields),
    ("methods", .ofList Method.toJson c.methods)]

end Class

namespace Executable

def toJson (exe : Executable) : Json :=
  .obj [("package", .str exe.package),
    ("constants", .ofList (Constant.toJson Json.ofDouble) exe.constants.toList),
    ("globals", .ofList VariableDecl.toJson exe.globals.toList),
    ("functions", .ofList Function.toJson exe.functions.toList),
    ("classes", .ofList Class.toJson exe.classes.toList), ("top_level", exe.topLevel.toJson)]

end Executable

end Bytecode
