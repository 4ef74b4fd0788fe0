import Bytecode.Code.Op
import Bytecode.Error

/-!
# Instructions in a byte sequence

`fetch` decodes the instruction at one place, `decode` all instructions from the start up to the
end or the first place where none can be decoded.
-/

namespace Bytecode

/-- A decoded instruction and its place. -/
structure Instruction where
  pc : Nat
  op : Op
  operand : Option UInt16
  deriving DecidableEq, Repr

namespace Instruction

/-- The place after the instruction. -/
def nextPc (i : Instruction) : Nat := i.pc + i.op.size

def operands (i : Instruction) : List UInt16 := i.operand.toList

end Instruction

/-- The number with the given high and low byte. -/
def joinBytes (high low : UInt8) : UInt16 := high.toUInt16 * 256 + low.toUInt16

/-- The byte at a place, zero past the end. -/
def byteAt (code : Array UInt8) (pc : Nat) : UInt8 := code.getD pc 0

/-- The operand at a place, by its form. -/
def operandAt (code : Array UInt8) (pc : Nat) : Shape → UInt16
  | .byte => (byteAt code pc).toUInt16
  | .short | .pool => joinBytes (byteAt code pc) (byteAt code (pc + 1))

/-- Decode the instruction at a place in the code. -/
def fetch (code : Array UInt8) (pc : Nat) : Except DecodeError Instruction :=
  let byte := byteAt code pc
  match Op.ofByte? byte with
  | none => .error (.unknownOpcode byte pc)
  | some op =>
    if code.size < pc + op.size then .error (.truncated pc)
    else .ok ⟨pc, op, op.shape?.map (operandAt code (pc + 1))⟩

/-- The instructions of a byte sequence, and why the last bytes are none, if so. -/
structure Decoded where
  instructions : List Instruction
  error : Option DecodeError
  deriving DecidableEq, Repr

/-- Decode from a place on; `fuel` bounds the number of instructions. -/
def decodeFrom (code : Array UInt8) : Nat → Nat → Decoded
  | 0, _ => ⟨[], none⟩
  | fuel + 1, pc =>
    if pc < code.size then
      match fetch code pc with
      | .error e => ⟨[], some e⟩
      | .ok i =>
        let rest := decodeFrom code fuel i.nextPc
        ⟨i :: rest.instructions, rest.error⟩
    else ⟨[], none⟩

/-- Decode a byte sequence. Every instruction has at least one byte, so there are at most as
many instructions as bytes. -/
def decode (code : Array UInt8) : Decoded := decodeFrom code code.size 0

end Bytecode
