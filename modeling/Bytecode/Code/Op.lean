import Bytecode.Tree.Expr

/-!
# Opcodes

`Op` is the instruction set, by families: most loads and stores exist for each `SlotKind`, the
arithmetic and the comparisons for each operator. `Op.table` lists all opcodes in the order of
their bytes. An instruction has at most one operand, whose form is its `Op.shape?`.
-/

namespace Bytecode

/-- The form of an operand. Two-byte operands have the high byte first. -/
inductive Shape where
  /-- One unsigned byte. -/
  | byte
  /-- Two bytes: a signed number, or an index into a table. -/
  | short
  /-- Two bytes: an index into the constant pool. -/
  | pool
  deriving DecidableEq, Repr, Inhabited

namespace Shape

def width : Shape → Nat
  | .byte => 1
  | .short | .pool => 2

/-- The letter that stands for the shape. -/
def letter : Shape → Char
  | .byte => 'b'
  | .short => 's'
  | .pool => 'p'

end Shape

/-- An opcode. -/
inductive Op where
  | pushInt1Byte
  | pushInt2Byte
  | pushInt
  | pushDouble0
  | pushDouble1
  | pushDouble
  | pushString
  | pushNull
  /-- Push the slot at an offset from the base of the frame. -/
  | pushStack (kind : SlotKind)
  | popStack (kind : SlotKind)
  | pushStatic (kind : SlotKind)
  | popStatic (kind : SlotKind)
  /-- Array and index are replaced by the element. -/
  | pushArray (kind : SlotKind)
  /-- Value, array and index are consumed. -/
  | popArray (kind : SlotKind)
  | pushField (kind : SlotKind)
  | popField (kind : SlotKind)
  | arithInt (op : ArithOp)
  | arithDouble (op : ArithOp)
  | addString
  | minusInt
  | minusDouble
  | cast (conversion : Conversion)
  | compareInt (op : Comparison)
  | compareDouble (op : Comparison)
  | compareString (op : Comparison)
  /-- Reference identity. -/
  | eqObject
  | neObject
  | logicalNot
  | pop
  | duplicate
  | jump
  | jumpIfTrue
  | jumpIfFalse
  | pushFunction
  /-- Push the function of a method slot of the object on top, which stays. -/
  | pushMethod
  | invoke
  | ret
  | new
  | newArray (kind : SlotKind)
  /-- Gather as many values as the operand says into an array. -/
  | newArrayLiteral (kind : SlotKind)
  | arraySize
  | stringLength
  | downCast
  | instanceOf
  deriving DecidableEq, Repr, Inhabited

namespace SlotKind

/-- The members of a family, in the order of their opcodes. -/
def all : List SlotKind := [.int, .double, .object]

def mnemonic : SlotKind → String
  | .int => "INT"
  | .double => "DOUBLE"
  | .object => "OBJECT"

end SlotKind

namespace ArithOp

def mnemonic : ArithOp → String
  | .add => "ADD"
  | .sub => "SUB"
  | .mul => "MUL"
  | .div => "DIV"
  | .mod => "MOD"

end ArithOp

namespace Comparison

def mnemonic : Comparison → String
  | .eq => "EQ"
  | .ne => "NE"
  | .gt => "GT"
  | .ge => "GE"
  | .lt => "LT"
  | .le => "LE"

end Comparison

namespace Conversion

def mnemonic : Conversion → String
  | .intToDouble => "INT_TO_DOUBLE"
  | .doubleToInt => "DOUBLE_TO_INT"
  | .booleanToString => "BOOLEAN_TO_STRING"
  | .intToString => "INT_TO_STRING"
  | .doubleToString => "DOUBLE_TO_STRING"

end Conversion

namespace Op

/-- All opcodes; the place of an opcode is its byte. -/
def table : Array Op := #[
  .pushInt1Byte, .pushInt2Byte, .pushInt, .pushDouble0, .pushDouble1, .pushDouble, .pushString,
  .pushNull,
  .pushStack .int, .pushStack .double, .pushStack .object,
  .popStack .int, .popStack .double, .popStack .object,
  .pushStatic .int, .pushStatic .double, .pushStatic .object,
  .popStatic .int, .popStatic .double, .popStatic .object,
  .pushArray .int, .pushArray .double, .pushArray .object,
  .popArray .int, .popArray .double, .popArray .object,
  .pushField .int, .pushField .double, .pushField .object,
  .popField .int, .popField .double, .popField .object,
  .arithInt .add, .arithDouble .add, .addString, .arithInt .sub, .arithDouble .sub,
  .arithInt .mul, .arithDouble .mul, .arithInt .div, .arithDouble .div,
  .arithInt .mod, .arithDouble .mod, .minusInt, .minusDouble,
  .cast .intToDouble, .cast .doubleToInt, .cast .booleanToString, .cast .intToString,
  .cast .doubleToString,
  .compareInt .eq, .compareDouble .eq, .compareString .eq, .eqObject,
  .compareInt .ne, .compareDouble .ne, .compareString .ne, .neObject,
  .compareInt .gt, .compareDouble .gt, .compareString .gt,
  .compareInt .ge, .compareDouble .ge, .compareString .ge,
  .compareInt .lt, .compareDouble .lt, .compareString .lt,
  .compareInt .le, .compareDouble .le, .compareString .le,
  .logicalNot, .pop, .duplicate, .jump, .jumpIfTrue, .jumpIfFalse,
  .pushFunction, .pushMethod, .invoke, .ret, .new,
  .newArray .int, .newArray .double, .newArray .object,
  .newArrayLiteral .int, .newArrayLiteral .double, .newArrayLiteral .object,
  .arraySize, .stringLength, .downCast, .instanceOf]

/-- The byte of the first opcode of a family counted up to the given kind. -/
def familyByte (first : UInt8) : SlotKind → UInt8
  | .int => first
  | .double => first + 1
  | .object => first + 2

/-- The byte that encodes an opcode. -/
def byte : Op → UInt8
  | .pushInt1Byte => 0
  | .pushInt2Byte => 1
  | .pushInt => 2
  | .pushDouble0 => 3
  | .pushDouble1 => 4
  | .pushDouble => 5
  | .pushString => 6
  | .pushNull => 7
  | .pushStack kind => familyByte 8 kind
  | .popStack kind => familyByte 11 kind
  | .pushStatic kind => familyByte 14 kind
  | .popStatic kind => familyByte 17 kind
  | .pushArray kind => familyByte 20 kind
  | .popArray kind => familyByte 23 kind
  | .pushField kind => familyByte 26 kind
  | .popField kind => familyByte 29 kind
  | .arithInt .add => 32
  | .arithDouble .add => 33
  | .addString => 34
  | .arithInt .sub => 35
  | .arithDouble .sub => 36
  | .arithInt .mul => 37
  | .arithDouble .mul => 38
  | .arithInt .div => 39
  | .arithDouble .div => 40
  | .arithInt .mod => 41
  | .arithDouble .mod => 42
  | .minusInt => 43
  | .minusDouble => 44
  | .cast .intToDouble => 45
  | .cast .doubleToInt => 46
  | .cast .booleanToString => 47
  | .cast .intToString => 48
  | .cast .doubleToString => 49
  | .compareInt .eq => 50
  | .compareDouble .eq => 51
  | .compareString .eq => 52
  | .eqObject => 53
  | .compareInt .ne => 54
  | .compareDouble .ne => 55
  | .compareString .ne => 56
  | .neObject => 57
  | .compareInt .gt => 58
  | .compareDouble .gt => 59
  | .compareString .gt => 60
  | .compareInt .ge => 61
  | .compareDouble .ge => 62
  | .compareString .ge => 63
  | .compareInt .lt => 64
  | .compareDouble .lt => 65
  | .compareString .lt => 66
  | .compareInt .le => 67
  | .compareDouble .le => 68
  | .compareString .le => 69
  | .logicalNot => 70
  | .pop => 71
  | .duplicate => 72
  | .jump => 73
  | .jumpIfTrue => 74
  | .jumpIfFalse => 75
  | .pushFunction => 76
  | .pushMethod => 77
  | .invoke => 78
  | .ret => 79
  | .new => 80
  | .newArray kind => familyByte 81 kind
  | .newArrayLiteral kind => familyByte 84 kind
  | .arraySize => 87
  | .stringLength => 88
  | .downCast => 89
  | .instanceOf => 90

/-- The opcode that a byte encodes. -/
def ofByte? (byte : UInt8) : Option Op := table[byte.toNat]?

@[simp] theorem ofByte?_byte (op : Op) : ofByte? op.byte = some op := by
  cases op
  all_goals first
    | rfl
    | rename_i member; cases member <;> rfl

def mnemonic : Op → String
  | .pushInt1Byte => "PUSH_INT_1BYTE"
  | .pushInt2Byte => "PUSH_INT_2BYTE"
  | .pushInt => "PUSH_INT"
  | .pushDouble0 => "PUSH_DOUBLE_0"
  | .pushDouble1 => "PUSH_DOUBLE_1"
  | .pushDouble => "PUSH_DOUBLE"
  | .pushString => "PUSH_STRING"
  | .pushNull => "PUSH_NULL"
  | .pushStack kind => "PUSH_STACK_" ++ kind.mnemonic
  | .popStack kind => "POP_STACK_" ++ kind.mnemonic
  | .pushStatic kind => "PUSH_STATIC_" ++ kind.mnemonic
  | .popStatic kind => "POP_STATIC_" ++ kind.mnemonic
  | .pushArray kind => "PUSH_ARRAY_" ++ kind.mnemonic
  | .popArray kind => "POP_ARRAY_" ++ kind.mnemonic
  | .pushField kind => "PUSH_FIELD_" ++ kind.mnemonic
  | .popField kind => "POP_FIELD_" ++ kind.mnemonic
  | .arithInt op => op.mnemonic ++ "_INT"
  | .arithDouble op => op.mnemonic ++ "_DOUBLE"
  | .addString => "ADD_STRING"
  | .minusInt => "MINUS_INT"
  | .minusDouble => "MINUS_DOUBLE"
  | .cast conversion => "CAST_" ++ conversion.mnemonic
  | .compareInt op => op.mnemonic ++ "_INT"
  | .compareDouble op => op.mnemonic ++ "_DOUBLE"
  | .compareString op => op.mnemonic ++ "_STRING"
  | .eqObject => "EQ_OBJECT"
  | .neObject => "NE_OBJECT"
  | .logicalNot => "LOGICAL_NOT"
  | .pop => "POP"
  | .duplicate => "DUPLICATE"
  | .jump => "JUMP"
  | .jumpIfTrue => "JUMP_IF_TRUE"
  | .jumpIfFalse => "JUMP_IF_FALSE"
  | .pushFunction => "PUSH_FUNCTION"
  | .pushMethod => "PUSH_METHOD"
  | .invoke => "INVOKE"
  | .ret => "RETURN"
  | .new => "NEW"
  | .newArray kind => "NEW_ARRAY_" ++ kind.mnemonic
  | .newArrayLiteral kind => "NEW_ARRAY_LITERAL_" ++ kind.mnemonic
  | .arraySize => "ARRAY_SIZE"
  | .stringLength => "STRING_LENGTH"
  | .downCast => "DOWN_CAST"
  | .instanceOf => "INSTANCEOF"

def ofMnemonic? (name : String) : Option Op := table.find? fun op => op.mnemonic = name

/-- The form of the operand, if the opcode has one. -/
def shape? : Op → Option Shape
  | .pushInt1Byte => some .byte
  | .pushInt | .pushDouble | .pushString => some .pool
  | .pushInt2Byte | .pushStack _ | .popStack _ | .pushStatic _ | .popStatic _ | .pushField _
  | .popField _ | .jump | .jumpIfTrue | .jumpIfFalse | .pushFunction | .pushMethod | .new
  | .newArrayLiteral _ | .downCast | .instanceOf => some .short
  | _ => none

/-- The bytes of an instruction, the opcode included. -/
def size (op : Op) : Nat := 1 + (op.shape?.map Shape.width).getD 0

/-- The change of the stack's height. Calls, returns and array literals, whose effect depends
on the callee or the operand, count as zero. -/
def stackEffect : Op → Int
  | .pushInt1Byte | .pushInt2Byte | .pushInt | .pushDouble0 | .pushDouble1 | .pushDouble
  | .pushString | .pushNull | .pushStack _ | .pushStatic _ | .duplicate | .pushFunction
  | .pushMethod | .new => 1
  | .popStack _ | .popStatic _ | .pushArray _ | .arithInt _ | .arithDouble _ | .addString
  | .compareInt _ | .compareDouble _ | .compareString _ | .eqObject | .neObject | .pop
  | .jumpIfTrue | .jumpIfFalse => -1
  | .popArray _ => -3
  | .popField _ => -2
  | _ => 0

/-- The operand is a label until the code is finished, and then a place in the code. -/
def isJump : Op → Bool
  | .jump | .jumpIfTrue | .jumpIfFalse => true
  | _ => false

/-- The opcode takes so many operands. -/
def arity (op : Op) : Nat := if op.shape?.isSome then 1 else 0

end Op

end Bytecode
