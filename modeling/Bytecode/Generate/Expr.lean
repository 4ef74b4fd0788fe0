import Bytecode.Generate.Draft

/-!
# Code of expressions

The code of an expression leaves exactly one value on the stack. Operands are pushed from left
to right before their operator, except that an assignment pushes its value before the operands
of its target.
-/

namespace Bytecode

/-- The operand family of a binary operator. -/
inductive OperandKind where
  | int
  | double
  | string
  | object
  deriving DecidableEq, Repr

namespace OperandKind

/-- The family for operands of two types; one string suffices, so that a string can be compared
with null. -/
def ofTypes (lhs rhs : Ty) : OperandKind :=
  if lhs.isString ∨ rhs.isString then .string
  else if lhs.isDouble then .double
  else if lhs.isReference then .object
  else .int

def arithOp (op : ArithOp) : OperandKind → Op
  | .double => .arithDouble op
  | .string => if op = .add then .addString else .arithInt op
  | _ => .arithInt op

def compareOp (op : Comparison) : OperandKind → Op
  | .int => .compareInt op
  | .double => .compareDouble op
  | .string => .compareString op
  | .object =>
    match op with
    | .eq => .eqObject
    | .ne => .neObject
    | op => .compareInt op

end OperandKind

namespace Gen

/-- The opcode of an operator that evaluates both operands. -/
def binaryOp (op : BinaryOp) (lhs rhs : Ty) : Op :=
  let kind := OperandKind.ofTypes lhs rhs
  match op with
  | .arith op => kind.arithOp op
  | .compare op => kind.compareOp op
  | .and | .or => .pop

/-- The jump over the second operand, for an operator that may leave it out. -/
def shortCut? : BinaryOp → Option Op
  | .and => some .jumpIfFalse
  | .or => some .jumpIfTrue
  | _ => none

def unaryOp (op : UnaryOp) (operand : Ty) : Op :=
  match op with
  | .minus => if operand.isDouble then .minusDouble else .minusInt
  | .not => .logicalNot

/-- The kind of the elements of an array type. -/
def elementKind (ty : Ty) : SlotKind := (ty.element?.map Ty.slotKind).getD .object

/-- Only variables, elements and fields can be assigned to. -/
def checkTarget (target : Expr) (position : Position) : Gen Unit :=
  match target with
  | .var _ _ | .index _ _ _ | .field _ _ _ => pure ()
  | .method _ _ _ => fail .assignToMethod position
  | _ => fail .invalidAssignTarget position

mutual

/-- Generate an expression. -/
def expr (scope : Scope) : Expr → Gen Unit
  | .boolean m value => emit m.position .pushInt1Byte [if value then 1 else 0]
  | .int m value => emitInt m.position value
  | .double m value => emitDouble m.position value
  | .string m value => emitString m.position value
  | .null m => emit m.position .pushNull []
  | .var m place => pushVariable m.position place m.ty
  | .function m i => do
    checkFunction scope i m.position
    emit m.position .pushFunction [i.toNat]
  | .assign m target value => do
    checkTarget target m.position
    expr scope value
    emit m.position .duplicate []
    store scope m.position target
  | .binary m op lhs rhs =>
    match shortCut? op with
    | some skip => do
      let done ← newLabel
      expr scope lhs
      emit m.position .duplicate []
      emitJump m.position skip done
      emit m.position .pop []
      expr scope rhs
      setLabel done
    | none => do
      expr scope lhs
      expr scope rhs
      emit m.position (binaryOp op lhs.ty rhs.ty) []
  | .unary m op operand => do
    expr scope operand
    emit m.position (unaryOp op operand.ty) []
  | .call m callee args => do
    exprs scope args
    match callee with
    | .method _ object i =>
      checkMethod scope object.ty i m.position
      expr scope object
      emit m.position .pushMethod [i.toNat]
      emit m.position .invoke []
    | callee =>
      expr scope callee
      emit m.position .invoke []
  | .method m _ _ => fail .methodNotCalled m.position
  | .index m array i => do
    expr scope array
    expr scope i
    emit m.position (.pushArray m.ty.slotKind) []
  | .field m object i => do
    checkField scope object.ty i m.position
    expr scope object
    emit m.position (.pushField m.ty.slotKind) [i.toNat]
  | .new m i => do
    discard (lookupClass scope i m.position)
    emit m.position .new [i.toNat]
  | .newArray m size => do
    expr scope size
    emit m.position (.newArray (elementKind m.ty)) []
  | .arrayLiteral m items => do
    exprs scope items
    emit m.position (.newArrayLiteral (elementKind m.ty)) [items.length]
  | .convert m conversion operand => do
    expr scope operand
    emit m.position (.cast conversion) []
  | .downCast m i operand => do
    discard (lookupClass scope i m.position)
    expr scope operand
    emit m.position .downCast [i.toNat]
  | .instanceOf m i operand => do
    discard (lookupClass scope i m.position)
    expr scope operand
    emit m.position .instanceOf [i.toNat]
  | .arrayLength m array => do
    expr scope array
    emit m.position .arraySize []
  | .stringLength m text => do
    expr scope text
    emit m.position .stringLength []

/-- Generate expressions from left to right. -/
def exprs (scope : Scope) : List Expr → Gen Unit
  | [] => pure ()
  | e :: rest => do
    expr scope e
    exprs scope rest

/-- Push the operands of an assignment's target and store the value below them. -/
def store (scope : Scope) (position : Position) : Expr → Gen Unit
  | .var m place => popVariable position place m.ty
  | .index m array i => do
    expr scope array
    expr scope i
    emit position (.popArray m.ty.slotKind) []
  | .field m object i => do
    checkField scope object.ty i position
    expr scope object
    emit position (.popField m.ty.slotKind) [i.toNat]
  | _ => pure ()

end

/-- Generate an expression for its effect alone. An assignment does not leave a copy of its
value; any other value is popped. -/
def effect (scope : Scope) (e : Expr) : Gen Unit :=
  match e with
  | .assign m target value => do
    checkTarget target m.position
    expr scope value
    store scope m.position target
  | e => do
    expr scope e
    emit e.position .pop []

end Gen

end Bytecode
