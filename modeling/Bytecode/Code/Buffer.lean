import Bytecode.Code.Instruction
import Bytecode.Code.Lines

/-!
# Code buffers

A `CodeBuffer` takes up the instructions of one body. Jumps name labels, whose places may
become known later; `CodeBuffer.finish` replaces each label by its place and yields a
`CodeBlock`.
-/

namespace Bytecode

/-- Finished code: the bytes and the lines they come from. -/
structure CodeBlock where
  code : Array UInt8 := #[]
  lines : Array LineRun := #[]
  deriving DecidableEq, Repr, Inhabited

/-- A place in the code that may not be known yet. -/
structure Label where
  number : UInt16
  deriving DecidableEq, Repr, Inhabited

/-- The code of a body while it is being written. -/
structure CodeBuffer where
  code : Array UInt8 := #[]
  /-- The places of the labels, by number. -/
  labels : Array (Option Nat) := #[]
  lines : Array LineRun := #[]
  deriving Repr, Inhabited

/-- The bytes of an operand, if it fits its form. A two-byte operand may be given as a signed
or as an unsigned number. -/
def Shape.encode? : Shape → Int → Option (Array UInt8)
  | .byte, value => if 0 ≤ value ∧ value < 256 then some #[value.toNat.toUInt8] else none
  | .short, value | .pool, value =>
    if -32768 ≤ value ∧ value < 65536 then
      let n := (value % 65536).toNat
      some #[(n / 256).toUInt8, n.toUInt8]
    else none

/-- The longest code whose places can all be operands of jumps. -/
def maxCodeSize : Nat := 65535

namespace CodeBuffer

def size (b : CodeBuffer) : Nat := b.code.size

/-- Append an instruction and yield its place. An operand that does not fit is refused after
the opcode has been written. -/
def emit (line : UInt32) (op : Op) (operands : List Int) : EStateM Defect CodeBuffer Nat :=
  fun b =>
    let start := b.code.size
    let b := { b with code := b.code.push op.byte }
    match op.shape?, operands with
    | some shape, value :: _ =>
      match shape.encode? value with
      | none => .error (.operandOutOfRange op.mnemonic value) b
      | some bytes =>
        .ok start { b with
          code := b.code ++ bytes
          lines := addLine b.lines line start (1 + bytes.size) }
    | _, _ => .ok start { b with lines := addLine b.lines line start 1 }

/-- Make a label whose place is not known yet. Its number is its rank among the labels, in
sixteen bits. -/
def newLabel (b : CodeBuffer) : Label × CodeBuffer :=
  (⟨b.labels.size.toUInt16⟩, { b with labels := b.labels.push none })

/-- Bind a label to the end of the code so far. -/
def setLabel (label : Label) (b : CodeBuffer) : CodeBuffer :=
  { b with labels := b.labels.setIfInBounds label.number.toNat (some b.code.size) }

/-- Append a jump to a label. -/
def emitJump (line : UInt32) (op : Op) (label : Label) : EStateM Defect CodeBuffer Nat :=
  emit line op [label.number.toNat]

/-- The place of a label that has been set. -/
def place? (b : CodeBuffer) (number : UInt16) : Option Nat := (b.labels[number.toNat]?).join

/-- Overwrite a two-byte operand. -/
def patchAt (code : Array UInt8) (at_ address : Nat) : Array UInt8 :=
  (code.setIfInBounds at_ (address / 256).toUInt8).setIfInBounds (at_ + 1) address.toUInt8

/-- Replace the labels in the given instructions by their places. -/
def resolve (b : CodeBuffer) : List Instruction → Array UInt8 → Except Defect (Array UInt8)
  | [], code => .ok code
  | i :: rest, code =>
    if i.op.isJump then
      let number := i.operand.getD 0
      match b.place? number with
      | none => .error (.unresolvedLabel number)
      | some address => b.resolve rest (patchAt code (i.pc + 1) address)
    else b.resolve rest code

/-- The finished code. The labels of all instructions before the first undecodable byte are
looked up before that byte is reported. -/
def finish (b : CodeBuffer) : Except Defect CodeBlock :=
  if maxCodeSize < b.code.size then .error .codeTooLarge
  else
    let decoded := decode b.code
    match b.resolve decoded.instructions b.code, decoded.error with
    | .error defect, _ => .error defect
    | .ok _, some e => .error (.malformedCode e)
    | .ok code, none => .ok ⟨code, b.lines⟩

/-! ### Requests that may be out of order

The actions above are given operands that match the opcode and labels that exist. The
following ones check this first and crash if it does not hold. -/

/-- Append an instruction with as many operands as its opcode takes. -/
def tryEmit (line : UInt32) (op : Op) (operands : List Int) :
    EStateM (Stop Defect) CodeBuffer Nat :=
  fun b =>
    if operands.length = op.arity then
      match emit line op operands b with
      | .ok pc b => .ok pc b
      | .error defect b => .error (.error defect) b
    else .error .crash b

/-- Append a jump to a label. -/
def tryEmitJump (line : UInt32) (op : Op) (label : Label) :
    EStateM (Stop Defect) CodeBuffer Nat :=
  fun b => if op.isJump then tryEmit line op [label.number.toNat] b else .error .crash b

/-- Bind a label that has been made. -/
def trySetLabel (label : Label) : EStateM (Stop Defect) CodeBuffer Unit :=
  fun b =>
    if label.number.toNat < b.labels.size then .ok () (b.setLabel label) else .error .crash b

end CodeBuffer

end Bytecode
