import Bytecode.Json.Parse
import Bytecode.Tree.Writer

/-!
# Programs from JSON

The readers accept every value that the writers produce, and more: records may be given as
arrays, fields that have a default or are optional may be left out, and names that are not
fields are ignored with all that stands under them. Trees are read down to a given depth;
`Program.ofJson?` reads a value of any depth, and `Program.parse?` a text in which what is not
ignored has at most `maxNesting` levels.
-/

namespace Bytecode

namespace Position

def ofJson? (j : Json) : Option Position := do
  let r ← Json.Record.ofJson? ["line", "column"] j
  let line ← r.required "line" Json.toUInt32?
  let column ← r.withDefault "column" Json.toUInt32? 0
  return ⟨line, column⟩

end Position

namespace Ty

/-- Read a type whose tree has at most the given depth. -/
def read : Nat → Json → Option Ty
  | 0, _ => none
  | depth + 1, j => do
    let v ← Json.Variant.ofJson? j
    match v.tag with
    | "void" => v.unit .void
    | "boolean" => v.unit .boolean
    | "int" => v.unit .int
    | "double" => v.unit .double
    | "string" => v.unit .string
    | "null" => v.unit .null
    | "class" => v.carrying fun j => j.toUInt16?.map .class
    | "array" => v.carrying fun j => (read depth j).map .array
    | "function" =>
      let r ← v.record ["ret", "params"]
      let result ← r.required "ret" (read depth)
      let params ← r.required "params" (Json.toList? (read depth))
      return .function result params
    | _ => none

def ofJson? (j : Json) : Option Ty := read (j.nesting + 1) j

end Ty

namespace Variable

def ofJson? (j : Json) : Option Variable := do
  let v ← Json.Variant.ofJson? j
  match v.tag with
  | "local" => v.carrying fun j => j.toUInt16?.map .local
  | "global" => v.carrying fun j => j.toUInt16?.map .global
  | _ => none

end Variable

namespace BinaryOp

def all : List BinaryOp :=
  [.arith .add, .arith .sub, .arith .mul, .arith .div, .arith .mod, .compare .eq, .compare .ne,
    .compare .gt, .compare .ge, .compare .lt, .compare .le, .and, .or]

def ofJson? (j : Json) : Option BinaryOp := do
  let v ← Json.Variant.ofJson? j
  let op ← all.find? fun op => op.tag = v.tag
  v.unit op

end BinaryOp

namespace UnaryOp

def ofJson? (j : Json) : Option UnaryOp := do
  let v ← Json.Variant.ofJson? j
  let op ← [.minus, .not].find? fun op : UnaryOp => op.tag = v.tag
  v.unit op

end UnaryOp

namespace Conversion

def all : List Conversion :=
  [.intToDouble, .doubleToInt, .booleanToString, .intToString, .doubleToString]

def ofJson? (j : Json) : Option Conversion := do
  let v ← Json.Variant.ofJson? j
  let conversion ← all.find? fun c => c.tag = v.tag
  v.unit conversion

end Conversion

namespace Expr

/-- Read what a node is, given a reader for the expressions in it. -/
def readKind (sub : Json → Option Expr) (m : Mark) (j : Json) : Option Expr := do
  let v ← Json.Variant.ofJson? j
  match v.tag with
  | "boolean" => v.carrying fun j => j.toBool?.map (.boolean m)
  | "int" => v.carrying fun j => j.toInt64?.map (.int m)
  | "double" => v.carrying fun j => j.toDouble?.map (.double m)
  | "string" => v.carrying fun j => j.toString?.map (.string m)
  | "null" => v.unit (.null m)
  | "variable" => v.carrying fun j => (Variable.ofJson? j).map (.var m)
  | "function" => v.carrying fun j => j.toUInt16?.map (.function m)
  | "assign" =>
    let r ← v.record ["target", "value"]
    return .assign m (← r.required "target" sub) (← r.required "value" sub)
  | "binary" =>
    let r ← v.record ["op", "lhs", "rhs"]
    return .binary m (← r.required "op" BinaryOp.ofJson?) (← r.required "lhs" sub)
      (← r.required "rhs" sub)
  | "unary" =>
    let r ← v.record ["op", "operand"]
    return .unary m (← r.required "op" UnaryOp.ofJson?) (← r.required "operand" sub)
  | "call" =>
    let r ← v.record ["callee", "args"]
    return .call m (← r.required "callee" sub) (← r.required "args" (Json.toList? sub))
  | "method" =>
    let r ← v.record ["object", "index"]
    return .method m (← r.required "object" sub) (← r.required "index" Json.toUInt16?)
  | "index" =>
    let r ← v.record ["array", "index"]
    return .index m (← r.required "array" sub) (← r.required "index" sub)
  | "field" =>
    let r ← v.record ["object", "index"]
    return .field m (← r.required "object" sub) (← r.required "index" Json.toUInt16?)
  | "new" =>
    let r ← v.record ["class"]
    return .new m (← r.required "class" Json.toUInt16?)
  | "new_array" =>
    let r ← v.record ["size"]
    return .newArray m (← r.required "size" sub)
  | "array_literal" => v.carrying fun j => (j.toList? sub).map (.arrayLiteral m)
  | "convert" =>
    let r ← v.record ["conversion", "operand"]
    return .convert m (← r.required "conversion" Conversion.ofJson?) (← r.required "operand" sub)
  | "down_cast" =>
    let r ← v.record ["class", "operand"]
    return .downCast m (← r.required "class" Json.toUInt16?) (← r.required "operand" sub)
  | "instance_of" =>
    let r ← v.record ["class", "operand"]
    return .instanceOf m (← r.required "class" Json.toUInt16?) (← r.required "operand" sub)
  | "array_length" => v.carrying fun j => (sub j).map (.arrayLength m)
  | "string_length" => v.carrying fun j => (sub j).map (.stringLength m)
  | _ => none

/-- Read an expression whose tree has at most the given depth. -/
def read : Nat → Json → Option Expr
  | 0, _ => none
  | depth + 1, j => do
    let r ← Json.Record.ofJson? ["kind", "ty", "position"] j
    let ty ← r.required "ty" Ty.ofJson?
    let position ← r.withDefault "position" Position.ofJson? {}
    r.required "kind" (readKind (read depth) ⟨ty, position⟩)

def ofJson? (j : Json) : Option Expr := read (j.nesting + 1) j

end Expr

namespace Stmt

/-- Read a block, given a reader for the statements in it. -/
def readBlock (sub : Json → Option Stmt) (j : Json) : Option Block := do
  let r ← Json.Record.ofJson? ["statements"] j
  r.required "statements" (Json.toList? sub)

def readElif (sub : Json → Option Stmt) (j : Json) : Option Elif := do
  let r ← Json.Record.ofJson? ["condition", "block"] j
  return .mk (← r.required "condition" Expr.ofJson?) (← r.required "block" (readBlock sub))

/-- Read what a statement is, given a reader for the statements in it. -/
def readKind (sub : Json → Option Stmt) (p : Position) (j : Json) : Option Stmt := do
  let v ← Json.Variant.ofJson? j
  match v.tag with
  | "expression" => v.carrying fun j => (Expr.ofJson? j).map (.expression p)
  | "declaration" =>
    let r ← v.record ["variable", "ty", "initializer"]
    return .declaration p (← r.required "variable" Variable.ofJson?) (← r.required "ty" Ty.ofJson?)
      (← r.optional "initializer" Expr.ofJson?)
  | "if" =>
    let r ← v.record ["condition", "then_block", "elifs", "else_block"]
    return .branch p (← r.required "condition" Expr.ofJson?)
      (← r.required "then_block" (readBlock sub))
      (← r.withDefault "elifs" (Json.toList? (readElif sub)) [])
      (← r.optional "else_block" (readBlock sub))
  | "for" =>
    let r ← v.record ["init", "condition", "post", "body"]
    return .loop p (← r.optional "init" Expr.ofJson?) (← r.optional "condition" Expr.ofJson?)
      (← r.optional "post" Expr.ofJson?) (← r.required "body" (readBlock sub))
  | "return" => v.carrying fun j => (j.toOption? Expr.ofJson?).map (.ret p)
  | "break" => v.unit (.break_ p)
  | "continue" => v.unit (.continue_ p)
  | "block" => v.carrying fun j => (readBlock sub j).map (.block p)
  | _ => none

/-- Read a statement whose tree has at most the given depth. -/
def read : Nat → Json → Option Stmt
  | 0, _ => none
  | depth + 1, j => do
    let r ← Json.Record.ofJson? ["kind", "position"] j
    let position ← r.withDefault "position" Position.ofJson? {}
    r.required "kind" (readKind (read depth) position)

def ofJson? (j : Json) : Option Stmt := read (j.nesting + 1) j

end Stmt

namespace VariableDecl

def ofJson? (j : Json) : Option VariableDecl := do
  let r ← Json.Record.ofJson? ["name", "ty"] j
  return ⟨← r.required "name" Json.toString?, ← r.required "ty" Ty.ofJson?⟩

end VariableDecl

namespace FunctionDecl

def ofJson? (j : Json) : Option FunctionDecl := do
  let r ← Json.Record.ofJson?
    ["name", "package", "return_type", "params", "locals", "body", "class", "position"] j
  let name ← r.required "name" Json.toString?
  let package ← r.withDefault "package" Json.toString? ""
  let returnType ← r.required "return_type" Ty.ofJson?
  let params ← r.required "params" (Json.toList? VariableDecl.ofJson?)
  let locals ← r.withDefault "locals" (Json.toList? VariableDecl.ofJson?) []
  let body ← r.optional "body" (Stmt.readBlock Stmt.ofJson?)
  let class_ ← r.withDefault "class" (Json.toOption? Json.toUInt16?) none
  let position ← r.withDefault "position" Position.ofJson? {}
  return { name, package, returnType, params, locals, body, class_, position }

end FunctionDecl

namespace MemberDecl

def ofJson? (j : Json) : Option MemberDecl := do
  let v ← Json.Variant.ofJson? j
  match v.tag with
  | "field" =>
    let r ← v.record ["name", "ty", "position"]
    return .field (← r.required "name" Json.toString?) (← r.required "ty" Ty.ofJson?)
      (← r.withDefault "position" Position.ofJson? {})
  | "method" =>
    let r ← v.record ["name", "function", "position"]
    return .method (← r.required "name" Json.toString?) (← r.required "function" Json.toUInt16?)
      (← r.withDefault "position" Position.ofJson? {})
  | _ => none

end MemberDecl

namespace ClassDecl

def ofJson? (j : Json) : Option ClassDecl := do
  let r ← Json.Record.ofJson? ["name", "package", "super_class", "members", "position"] j
  let name ← r.required "name" Json.toString?
  let package ← r.withDefault "package" Json.toString? ""
  let superClass ← r.withDefault "super_class" (Json.toOption? Json.toUInt16?) none
  let members ← r.required "members" (Json.toList? MemberDecl.ofJson?)
  let position ← r.withDefault "position" Position.ofJson? {}
  return { name, package, superClass, members, position }

end ClassDecl

namespace Program

/-- The levels of nested arrays and objects from which a program is read. -/
def maxNesting : Nat := 127

def ofJson? (j : Json) : Option Program := do
  let r ← Json.Record.ofJson? ["package", "globals", "classes", "functions", "statements"] j
  let package ← r.withDefault "package" Json.toString? ""
  let globals ← r.withDefault "globals" (Json.toList? VariableDecl.ofJson?) []
  let classes ← r.withDefault "classes" (Json.toList? ClassDecl.ofJson?) []
  let functions ← r.withDefault "functions" (Json.toList? FunctionDecl.ofJson?) []
  let statements ← r.withDefault "statements" (Json.toList? Stmt.ofJson?) []
  return { package, globals, classes, functions, statements }

/-- Read a program from its text. -/
def parse? (text : String) : Option Program := (Json.parse? maxNesting text).bind ofJson?

end Program

end Bytecode
