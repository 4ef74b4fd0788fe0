import Bytecode.Double.Basic
import Bytecode.Tree.Ty

/-!
# Resolved expressions

An expression tree in which every identifier is bound to a slot or a table index and every
node carries a `Mark`, its static type and source position. The functions after the type build
nodes whose static type follows from their parts.
-/

namespace Bytecode

/-- Where a variable is kept. -/
inductive Variable where
  /-- A parameter or local, counted from the first parameter. -/
  | local (slot : UInt16)
  /-- An entry of the table of globals. -/
  | global (index : UInt16)
  deriving DecidableEq, Repr, Inhabited

inductive ArithOp where
  | add | sub | mul | div | mod
  deriving DecidableEq, Repr, Inhabited

inductive Comparison where
  | eq | ne | gt | ge | lt | le
  deriving DecidableEq, Repr, Inhabited

/-- Operators on two operands. The last two leave out their second operand when the first
decides. -/
inductive BinaryOp where
  | arith (op : ArithOp)
  | compare (op : Comparison)
  | and
  | or
  deriving DecidableEq, Repr, Inhabited

inductive UnaryOp where
  | minus | not
  deriving DecidableEq, Repr, Inhabited

/-- Explicit conversions; there are no implicit ones. -/
inductive Conversion where
  | intToDouble | doubleToInt | booleanToString | intToString | doubleToString
  deriving DecidableEq, Repr, Inhabited

/-- What every expression carries: its static type and its position. -/
structure Mark where
  ty : Ty
  position : Position := {}
  deriving BEq, Repr, Inhabited

/-- A resolved expression. -/
inductive Expr where
  | boolean (mark : Mark) (value : Bool)
  | int (mark : Mark) (value : Int64)
  | double (mark : Mark) (value : Double)
  | string (mark : Mark) (value : String)
  | null (mark : Mark)
  | var (mark : Mark) (place : Variable)
  /-- A reference to an entry of the function table. -/
  | function (mark : Mark) (index : UInt16)
  | assign (mark : Mark) (target value : Expr)
  | binary (mark : Mark) (op : BinaryOp) (lhs rhs : Expr)
  | unary (mark : Mark) (op : UnaryOp) (operand : Expr)
  | call (mark : Mark) (callee : Expr) (args : List Expr)
  /-- A method slot of an object, which can only be called. -/
  | method (mark : Mark) (object : Expr) (index : UInt16)
  | index (mark : Mark) (array index : Expr)
  | field (mark : Mark) (object : Expr) (index : UInt16)
  | new (mark : Mark) (class_ : UInt16)
  /-- A new array, whose element type is that of the expression's type. -/
  | newArray (mark : Mark) (size : Expr)
  | arrayLiteral (mark : Mark) (items : List Expr)
  | convert (mark : Mark) (conversion : Conversion) (operand : Expr)
  | downCast (mark : Mark) (class_ : UInt16) (operand : Expr)
  | instanceOf (mark : Mark) (class_ : UInt16) (operand : Expr)
  | arrayLength (mark : Mark) (array : Expr)
  | stringLength (mark : Mark) (string : Expr)
  deriving BEq, Repr

namespace Expr

/-- The mark of the outermost node. -/
def mark : Expr → Mark
  | .boolean m _ | .int m _ | .double m _ | .string m _ | .null m | .var m _
  | .function m _ | .assign m _ _ | .binary m _ _ _ | .unary m _ _ | .call m _ _
  | .method m _ _ | .index m _ _ | .field m _ _ | .new m _ | .newArray m _
  | .arrayLiteral m _ | .convert m _ _ | .downCast m _ _ | .instanceOf m _ _
  | .arrayLength m _ | .stringLength m _ => m

def ty (e : Expr) : Ty := e.mark.ty

def position (e : Expr) : Position := e.mark.position

/-- The same node with another mark. -/
def withMark (m : Mark) : Expr → Expr
  | .boolean _ value => .boolean m value
  | .int _ value => .int m value
  | .double _ value => .double m value
  | .string _ value => .string m value
  | .null _ => .null m
  | .var _ place => .var m place
  | .function _ i => .function m i
  | .assign _ target value => .assign m target value
  | .binary _ op lhs rhs => .binary m op lhs rhs
  | .unary _ op operand => .unary m op operand
  | .call _ callee args => .call m callee args
  | .method _ object i => .method m object i
  | .index _ array i => .index m array i
  | .field _ object i => .field m object i
  | .new _ i => .new m i
  | .newArray _ size => .newArray m size
  | .arrayLiteral _ items => .arrayLiteral m items
  | .convert _ conversion operand => .convert m conversion operand
  | .downCast _ i operand => .downCast m i operand
  | .instanceOf _ i operand => .instanceOf m i operand
  | .arrayLength _ array => .arrayLength m array
  | .stringLength _ text => .stringLength m text

/-- The expression placed on a line. -/
def atLine (line : UInt32) (e : Expr) : Expr := e.withMark ⟨e.ty, .ofLine line⟩

/-! ### Nodes whose type follows from their parts -/

def ofBool (value : Bool) : Expr := .boolean ⟨.boolean, {}⟩ value

def ofInt (value : Int64) : Expr := .int ⟨.int, {}⟩ value

def ofDouble (value : Double) : Expr := .double ⟨.double, {}⟩ value

def ofString (value : String) : Expr := .string ⟨.string, {}⟩ value

def nullLiteral : Expr := .null ⟨.null, {}⟩

def readLocal (slot : UInt16) (ty : Ty) : Expr := .var ⟨ty, {}⟩ (.local slot)

def readGlobal (index : UInt16) (ty : Ty) : Expr := .var ⟨ty, {}⟩ (.global index)

def functionRef (index : UInt16) (ty : Ty) : Expr := .function ⟨ty, {}⟩ index

/-- An assignment has the type of its target. -/
def assignment (target value : Expr) : Expr := .assign ⟨target.ty, {}⟩ target value

/-- Arithmetic has the type of the left operand; the other operators give a boolean. -/
def operation (op : BinaryOp) (lhs rhs : Expr) : Expr :=
  let ty := match op with
    | .arith _ => lhs.ty
    | _ => .boolean
  .binary ⟨ty, {}⟩ op lhs rhs

def unaryOperation (op : UnaryOp) (operand : Expr) : Expr := .unary ⟨operand.ty, {}⟩ op operand

def callOf (callee : Expr) (args : List Expr) (ty : Ty) : Expr := .call ⟨ty, {}⟩ callee args

def methodCall (object : Expr) (index : UInt16) (args : List Expr) (ty : Ty) : Expr :=
  callOf (.method ⟨.void, {}⟩ object index) args ty

/-- An element has the element type of the array, or `void` if that is no array type. -/
def elementOf (array position : Expr) : Expr :=
  .index ⟨array.ty.element?.getD .void, {}⟩ array position

def fieldOf (object : Expr) (index : UInt16) (ty : Ty) : Expr := .field ⟨ty, {}⟩ object index

def newObject (index : UInt16) : Expr := .new ⟨.class index, {}⟩ index

def newArrayOf (element : Ty) (size : Expr) : Expr := .newArray ⟨.array element, {}⟩ size

def arrayOf (element : Ty) (items : List Expr) : Expr := .arrayLiteral ⟨.array element, {}⟩ items

def conversionOf (conversion : Conversion) (operand : Expr) : Expr :=
  let ty : Ty := match conversion with
    | .intToDouble => .double
    | .doubleToInt => .int
    | _ => .string
  .convert ⟨ty, {}⟩ conversion operand

def downCastTo (index : UInt16) (operand : Expr) : Expr :=
  .downCast ⟨.class index, {}⟩ index operand

def instanceTest (index : UInt16) (operand : Expr) : Expr :=
  .instanceOf ⟨.boolean, {}⟩ index operand

def lengthOfArray (array : Expr) : Expr := .arrayLength ⟨.int, {}⟩ array

def lengthOfString (string : Expr) : Expr := .stringLength ⟨.int, {}⟩ string

end Expr

end Bytecode
