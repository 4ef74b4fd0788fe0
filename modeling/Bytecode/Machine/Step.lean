import Bytecode.Machine.Call
import Bytecode.Machine.Object

/-!
# One step of a machine

`Machine.execute` carries out an instruction, `Machine.step` fetches the next one and executes
it. Before each fetch a collection is run if one is due.
-/

namespace Bytecode

/-- The result of an operation on integers of 64 bits, which wraps. A quotient is truncated
toward zero; there is none by zero. -/
def ArithOp.onInts : ArithOp → Int64 → Int64 → Except Fault Int64
  | .add, a, b => .ok (a + b)
  | .sub, a, b => .ok (a - b)
  | .mul, a, b => .ok (a * b)
  | .div, a, b => if b = 0 then .error .divisionByZero else .ok (a / b)
  | .mod, a, b => if b = 0 then .error .divisionByZero else .ok (a % b)

def ArithOp.onDoubles : ArithOp → Double → Double → Double
  | .add => .add
  | .sub => .sub
  | .mul => .mul
  | .div => .div
  | .mod => .rem

def Comparison.onInts : Comparison → Int64 → Int64 → Bool
  | .eq, a, b => a = b
  | .ne, a, b => a ≠ b
  | .gt, a, b => b < a
  | .ge, a, b => b ≤ a
  | .lt, a, b => a < b
  | .le, a, b => a ≤ b

def Comparison.onDoubles : Comparison → Double → Double → Bool
  | .eq, a, b => a.eq b
  | .ne, a, b => !a.eq b
  | .gt, a, b => b.lt a
  | .ge, a, b => b.le a
  | .lt, a, b => a.lt b
  | .le, a, b => a.le b

/-- Strings are ordered by the code points of their characters. -/
def Comparison.onStrings : Comparison → String → String → Bool
  | .eq, a, b => a = b
  | .ne, a, b => a ≠ b
  | .gt, a, b => b < a
  | .ge, a, b => ¬a < b
  | .lt, a, b => a < b
  | .le, a, b => ¬b < a

namespace Machine

/-- How a machine goes on after an instruction. -/
inductive Next where
  | running
  /-- The code has come to its end, or a frame entered by the host has returned a value. -/
  | finished (result : Option Value)
  deriving DecidableEq, Repr

/-- Replace two operands by a result computed from them. -/
def binary (f : Value → Value → MachineM Value) : MachineM Unit := do
  let rhs ← pop
  let lhs ← peek 0
  replaceTop (← f lhs rhs)

def unary (f : Value → MachineM Value) : MachineM Unit := do
  let v ← peek 0
  replaceTop (← f v)

def arithInts (op : ArithOp) (lhs rhs : Value) : MachineM Value :=
  match op.onInts lhs.toInt rhs.toInt with
  | .ok i => pure (.ofInt i)
  | .error f => fault f

/-- Strings are equal also when both are null; for the order both must be strings. -/
def compareStrings (op : Comparison) (lhs rhs : Value) : MachineM Value := do
  match op with
  | .eq => return .ofBool (← sameString lhs rhs)
  | .ne => return .ofBool (!(← sameString lhs rhs))
  | op =>
    let a ← expectString lhs
    let b ← expectString rhs
    return .ofBool (op.onStrings a b)

def convert (conversion : Conversion) (v : Value) : MachineM Value :=
  match conversion with
  | .intToDouble => pure (.ofDouble (.ofInt64 v.toInt))
  | .doubleToInt => pure (.ofInt v.toDouble.toInt64)
  | .booleanToString => newString (if v.toBool then "true" else "false")
  | .intToString => newString (toString v.toInt.toInt)
  | .doubleToString => newString (Layout.plain.render v.toDouble)

/-- Replace two strings by a new one. -/
def concatenate : MachineM Unit := do
  let rhs ← peek 0
  let lhs ← peek 1
  let joined ← newString ((← textOrNull lhs) ++ (← textOrNull rhs))
  onStack (Stack.shrink 2)
  push joined

def compareReferences (equal : Bool) : MachineM Unit := do
  let rhs ← pop
  let lhs ← pop
  push (.ofBool ((lhs.handle? == rhs.handle?) == equal))

/-- Push a constant by its index in the pool. -/
def pushConstant (index : Nat) (select : Constant → Option (MachineM Value)) :
    MachineM Unit := do
  match ((← get).exe.constants[index]?).bind select with
  | some value => push (← value)
  | none => fault (.decode (.badConstant index))

def literalInt? : Constant → Option (MachineM Value)
  | .int i => some (pure (.ofInt i))
  | _ => none

def literalDouble? : Constant → Option (MachineM Value)
  | .double x => some (pure (.ofDouble x))
  | _ => none

def literalString? : Constant → Option (MachineM Value)
  | .string text => some (newString text)
  | _ => none

/-- Jump if the value on top, which is dropped, has the given truth. -/
def jumpIf (truth : Bool) (target : Nat) : MachineM Unit := do
  if (← pop).toBool == truth then setPc target

/-- The index of a slot of the frame in the stack. -/
def frameSlot (offset : Nat) : MachineM Nat := return (← get).registers.base + offset

/-- Carry out an instruction. The program counter is behind it. A value is yielded when the
run ends. -/
def execute (i : Instruction) : MachineM (Option Value) := do
  let operand := (i.operand.getD 0).toNat
  match i.op with
  | .pushInt1Byte => push (.ofNat operand)
  | .pushInt2Byte => push (.ofInt (i.operand.getD 0).toInt16.toInt64)
  | .pushInt => pushConstant operand literalInt?
  | .pushDouble0 => push (.ofDouble .zero)
  | .pushDouble1 => push (.ofDouble .one)
  | .pushDouble => pushConstant operand literalDouble?
  | .pushString => pushConstant operand literalString?
  | .pushNull => push .null
  | .pushStack _ => push (← onStack (Stack.get (← frameSlot operand)))
  | .popStack _ =>
    let v ← pop
    onStack (Stack.set (← frameSlot operand) v)
  | .pushStatic _ => push (← getGlobal operand)
  | .popStatic _ => setGlobal operand (← pop)
  | .pushArray _ =>
    let index ← pop
    let array ← pop
    push (← arrayGet array index.toInt)
  | .popArray _ =>
    let index ← pop
    let array ← pop
    let v ← pop
    arraySet array index.toInt v
  | .pushField _ =>
    let v ← pop
    push (← getField v operand)
  | .popField _ =>
    let target ← pop
    let v ← pop
    setField target operand v
  | .arithInt op => binary (arithInts op)
  | .arithDouble op =>
    binary fun lhs rhs => pure (.ofDouble (op.onDoubles lhs.toDouble rhs.toDouble))
  | .addString => concatenate
  | .minusInt => unary fun v => pure (.ofInt (-v.toInt))
  | .minusDouble => unary fun v => pure (.ofDouble v.toDouble.neg)
  | .cast conversion => unary (convert conversion)
  | .compareInt op => binary fun lhs rhs => pure (.ofBool (op.onInts lhs.toInt rhs.toInt))
  | .compareDouble op =>
    binary fun lhs rhs => pure (.ofBool (op.onDoubles lhs.toDouble rhs.toDouble))
  | .compareString op => binary (compareStrings op)
  | .eqObject => compareReferences true
  | .neObject => compareReferences false
  | .logicalNot => unary fun v => pure (.ofBool (!v.toBool))
  | .pop => discard pop
  | .duplicate => push (← peek 0)
  | .jump => setPc operand
  | .jumpIfTrue => jumpIf true operand
  | .jumpIfFalse => jumpIf false operand
  | .pushFunction => push (.ofNat operand)
  | .pushMethod =>
    let v ← peek 0
    push (.ofNat (← methodFunction v operand).toNat)
  | .invoke =>
    setPc i.pc
    invoke
  | .ret =>
    setPc i.pc
    return ← returnValue
  | .new => push (← newInstance operand)
  | .newArray kind =>
    let size ← pop
    push (← newArray kind size.toInt)
  | .newArrayLiteral kind =>
    let values ← onStack (Stack.top operand)
    let array ← allocate (arrayOfValues kind values)
    onStack (Stack.shrink operand)
    push array
  | .arraySize => unary fun v => return .ofNat (← arrayLength v)
  | .stringLength => unary fun v => return .ofNat (← expectString v).length
  | .downCast => downCast (← peek 0) (i.operand.getD 0)
  | .instanceOf => unary fun v => return .ofBool (← instanceOf v (i.operand.getD 0))
  return none

/-- Run a collection if there are too many objects. -/
def collectIfDue : MachineM Unit := do
  if (← get).heap.needsCollection then discard collect

/-- Take one step. -/
def step : MachineM Next := do
  collectIfDue
  let code := (← get).code
  let pc := (← get).registers.pc
  if code.size ≤ pc then return .finished none
  match fetch code pc with
  | .error e => fault (.decode e)
  | .ok i =>
    modify fun m => { m with registers := { m.registers with opPc := pc, pc := i.nextPc } }
    match ← execute i with
    | none => return .running
    | some v => return .finished (some v)

end Machine

end Bytecode
