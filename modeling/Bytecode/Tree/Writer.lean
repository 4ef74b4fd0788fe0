import Bytecode.Json.Print
import Bytecode.Tree.Program

/-!
# Programs as JSON values

A record is written as an object with all its fields, an alternative as its tag or as an
object with the tag as its only name, and nothing as `null`. How a double literal is written is
left open: `Json.ofDouble` writes a number.
-/

namespace Bytecode

namespace Position

def toJson (p : Position) : Json :=
  .obj [("line", .ofNat p.line.toNat), ("column", .ofNat p.column.toNat)]

end Position

namespace Ty

mutual

def toJson : Ty → Json
  | .void => .str "void"
  | .boolean => .str "boolean"
  | .int => .str "int"
  | .double => .str "double"
  | .string => .str "string"
  | .null => .str "null"
  | .class index => .tagged "class" (.ofNat index.toNat)
  | .array element => .tagged "array" element.toJson
  | .function result params =>
    .tagged "function" (.obj [("ret", result.toJson), ("params", .arr (toJsons params))])

def toJsons : List Ty → List Json
  | [] => []
  | ty :: rest => ty.toJson :: toJsons rest

end

end Ty

namespace Variable

def toJson : Variable → Json
  | .local slot => .tagged "local" (.ofNat slot.toNat)
  | .global index => .tagged "global" (.ofNat index.toNat)

end Variable

namespace BinaryOp

def tag : BinaryOp → String
  | .arith .add => "add"
  | .arith .sub => "sub"
  | .arith .mul => "mul"
  | .arith .div => "div"
  | .arith .mod => "mod"
  | .compare .eq => "eq"
  | .compare .ne => "ne"
  | .compare .gt => "gt"
  | .compare .ge => "ge"
  | .compare .lt => "lt"
  | .compare .le => "le"
  | .and => "and"
  | .or => "or"

end BinaryOp

namespace UnaryOp

def tag : UnaryOp → String
  | .minus => "minus"
  | .not => "not"

end UnaryOp

namespace Conversion

def tag : Conversion → String
  | .intToDouble => "int_to_double"
  | .doubleToInt => "double_to_int"
  | .booleanToString => "boolean_to_string"
  | .intToString => "int_to_string"
  | .doubleToString => "double_to_string"

end Conversion

namespace Mark

/-- A node with what it is and what it carries. -/
def node (m : Mark) (kind : Json) : Json :=
  .obj [("kind", kind), ("ty", m.ty.toJson), ("position", m.position.toJson)]

end Mark

namespace Expr

mutual

/-- The value written for an expression, its double literals written by `double`. -/
def toJson (double : Double → Json) : Expr → Json
  | .boolean m value => m.node (.tagged "boolean" (.bool value))
  | .int m value => m.node (.tagged "int" (.ofInt value.toInt))
  | .double m value => m.node (.tagged "double" (double value))
  | .string m value => m.node (.tagged "string" (.str value))
  | .null m => m.node (.str "null")
  | .var m place => m.node (.tagged "variable" place.toJson)
  | .function m i => m.node (.tagged "function" (.ofNat i.toNat))
  | .assign m target value =>
    m.node (.tagged "assign"
      (.obj [("target", toJson double target), ("value", toJson double value)]))
  | .binary m op lhs rhs =>
    m.node (.tagged "binary"
      (.obj [("op", .str op.tag), ("lhs", toJson double lhs), ("rhs", toJson double rhs)]))
  | .unary m op operand =>
    m.node (.tagged "unary" (.obj [("op", .str op.tag), ("operand", toJson double operand)]))
  | .call m callee args =>
    m.node (.tagged "call"
      (.obj [("callee", toJson double callee), ("args", .arr (toJsons double args))]))
  | .method m object i =>
    m.node (.tagged "method"
      (.obj [("object", toJson double object), ("index", .ofNat i.toNat)]))
  | .index m array i =>
    m.node (.tagged "index" (.obj [("array", toJson double array), ("index", toJson double i)]))
  | .field m object i =>
    m.node (.tagged "field"
      (.obj [("object", toJson double object), ("index", .ofNat i.toNat)]))
  | .new m i => m.node (.tagged "new" (.obj [("class", .ofNat i.toNat)]))
  | .newArray m size => m.node (.tagged "new_array" (.obj [("size", toJson double size)]))
  | .arrayLiteral m items => m.node (.tagged "array_literal" (.arr (toJsons double items)))
  | .convert m conversion operand =>
    m.node (.tagged "convert"
      (.obj [("conversion", .str conversion.tag), ("operand", toJson double operand)]))
  | .downCast m i operand =>
    m.node (.tagged "down_cast"
      (.obj [("class", .ofNat i.toNat), ("operand", toJson double operand)]))
  | .instanceOf m i operand =>
    m.node (.tagged "instance_of"
      (.obj [("class", .ofNat i.toNat), ("operand", toJson double operand)]))
  | .arrayLength m array => m.node (.tagged "array_length" (toJson double array))
  | .stringLength m text => m.node (.tagged "string_length" (toJson double text))

def toJsons (double : Double → Json) : List Expr → List Json
  | [] => []
  | e :: rest => toJson double e :: toJsons double rest

end

end Expr

namespace Stmt

/-- A statement with what it is and its position. -/
def node (position : Position) (kind : Json) : Json :=
  .obj [("kind", kind), ("position", position.toJson)]

/-- A block, given what is written for its statements. -/
def blockNode (statements : List Json) : Json := .obj [("statements", .arr statements)]

mutual

/-- The value written for a statement, its double literals written by `double`. -/
def toJson (double : Double → Json) : Stmt → Json
  | .expression p expr => node p (.tagged "expression" (expr.toJson double))
  | .declaration p place ty initial =>
    node p (.tagged "declaration"
      (.obj [("variable", place.toJson), ("ty", ty.toJson),
        ("initializer", .ofOption (Expr.toJson double) initial)]))
  | .branch p condition thenBlock elifs elseBlock =>
    node p (.tagged "if"
      (.obj [("condition", condition.toJson double), ("then_block", blockNode (toJsons double thenBlock)),
        ("elifs", .arr (elifJsons double elifs)), ("else_block", elseJson double elseBlock)]))
  | .loop p init condition post body =>
    node p (.tagged "for"
      (.obj [("init", .ofOption (Expr.toJson double) init),
        ("condition", .ofOption (Expr.toJson double) condition),
        ("post", .ofOption (Expr.toJson double) post), ("body", blockNode (toJsons double body))]))
  | .ret p value => node p (.tagged "return" (.ofOption (Expr.toJson double) value))
  | .break_ p => node p (.str "break")
  | .continue_ p => node p (.str "continue")
  | .block p statements => node p (.tagged "block" (blockNode (toJsons double statements)))

def toJsons (double : Double → Json) : List Stmt → List Json
  | [] => []
  | s :: rest => toJson double s :: toJsons double rest

def elifJsons (double : Double → Json) : List Elif → List Json
  | [] => []
  | .mk condition body :: rest =>
    .obj [("condition", condition.toJson double), ("block", blockNode (toJsons double body))]
      :: elifJsons double rest

def elseJson (double : Double → Json) : Option (List Stmt) → Json
  | none => .null
  | some body => blockNode (toJsons double body)

end

def blockJson (double : Double → Json) (body : Block) : Json := blockNode (toJsons double body)

end Stmt

namespace VariableDecl

def toJson (v : VariableDecl) : Json := .obj [("name", .str v.name), ("ty", v.ty.toJson)]

end VariableDecl

namespace FunctionDecl

def toJson (double : Double → Json) (f : FunctionDecl) : Json :=
  .obj [("name", .str f.name), ("package", .str f.package), ("return_type", f.returnType.toJson),
    ("params", .ofList VariableDecl.toJson f.params),
    ("locals", .ofList VariableDecl.toJson f.locals),
    ("body", .ofOption (Stmt.blockJson double) f.body),
    ("class", .ofOption (fun i => .ofNat i.toNat) f.class_), ("position", f.position.toJson)]

end FunctionDecl

namespace MemberDecl

def toJson : MemberDecl → Json
  | .field name ty position =>
    .tagged "field" (.obj [("name", .str name), ("ty", ty.toJson), ("position", position.toJson)])
  | .method name function position =>
    .tagged "method"
      (.obj [("name", .str name), ("function", .ofNat function.toNat),
        ("position", position.toJson)])

end MemberDecl

namespace ClassDecl

def toJson (c : ClassDecl) : Json :=
  .obj [("name", .str c.name), ("package", .str c.package),
    ("super_class", .ofOption (fun i => .ofNat i.toNat) c.superClass),
    ("members", .ofList MemberDecl.toJson c.members), ("position", c.position.toJson)]

end ClassDecl

namespace Program

/-- The value written for a program, its double literals written by `double`. -/
def toJson (double : Double → Json) (p : Program) : Json :=
  .obj [("package", .str p.package), ("globals", .ofList VariableDecl.toJson p.globals),
    ("classes", .ofList ClassDecl.toJson p.classes),
    ("functions", .ofList (FunctionDecl.toJson double) p.functions),
    ("statements", .ofList (Stmt.toJson double) p.statements)]

end Program

end Bytecode
