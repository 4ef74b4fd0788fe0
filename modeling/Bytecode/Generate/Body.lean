import Bytecode.Code.Buffer
import Bytecode.Frame
import Bytecode.Tree.Program

/-!
# Bodies under generation

A `Body` is what is known while the code of one function or of the top level is written: the
code so far, the enclosing blocks, and the line of the innermost statement, which stands in
for positions without a line.
-/

namespace Bytecode

/-- What an enclosing block offers to `break` and `continue`. -/
inductive BlockKind where
  | plain
  | loop (breakLabel continueLabel : Label)
  deriving DecidableEq, Repr, Inhabited

/-- The state of the generation of one body. -/
structure Body where
  buffer : CodeBuffer := {}
  /-- The enclosing blocks, innermost first. -/
  blocks : List BlockKind := []
  /-- The function, unless this is the top level. -/
  function : Option FunctionDecl := none
  line : UInt32 := 0

namespace Body

/-- Make a line current, if it is known. The line before is `b.line`. -/
def enterLine (line : UInt32) (b : Body) : Body := if line = 0 then b else { b with line }

def restoreLine (line : UInt32) (b : Body) : Body := { b with line }

/-- The line under which something at a position is generated. -/
def lineOf (b : Body) (position : Position) : UInt32 :=
  if position.line = 0 then b.line else position.line

/-- Apply an action to the code. Its defects are placed at the position. -/
def onBuffer {α : Type} (position : Position) (action : EStateM Defect CodeBuffer α) :
    EStateM CompileError Body α :=
  fun ⟨buffer, blocks, function, line⟩ =>
    match action buffer with
    | .ok a buffer => .ok a ⟨buffer, blocks, function, line⟩
    | .error defect buffer => .error ⟨defect, position⟩ ⟨buffer, blocks, function, line⟩

def emit (position : Position) (op : Op) (operands : List Int) : EStateM CompileError Body Nat :=
  fun b => onBuffer position (CodeBuffer.emit (b.lineOf position) op operands) b

def emitJump (position : Position) (op : Op) (label : Label) : EStateM CompileError Body Nat :=
  fun b => onBuffer position (CodeBuffer.emitJump (b.lineOf position) op label) b

def newLabel (b : Body) : Label × Body :=
  let (label, buffer) := b.buffer.newLabel
  (label, { b with buffer })

def setLabel (label : Label) (b : Body) : Body := { b with buffer := b.buffer.setLabel label }

def enterBlock (kind : BlockKind) (b : Body) : Body := { b with blocks := kind :: b.blocks }

def leaveBlock (b : Body) : Body := { b with blocks := b.blocks.tail }

/-- The labels for `break` and `continue` of the innermost loop. -/
def innermostLoop? (b : Body) : Option (Label × Label) :=
  b.blocks.findSome? fun
    | .loop breakLabel continueLabel => some (breakLabel, continueLabel)
    | .plain => none

/-- The offset of a slot from the base of the frame. -/
def localOffset (b : Body) (slot : UInt16) (position : Position) : Except CompileError Int :=
  match b.function with
  | none => .error ⟨.localOutsideFunction, position⟩
  | some f => .ok (Frame.slotOffset f.params.length slot.toNat)

/-! ### Requests that may be out of order

As the actions above, but an instruction with the wrong number of operands and a label that
does not exist are crashes. -/

/-- Apply an action that may crash to the code. -/
def tryOnBuffer {α : Type} (position : Position)
    (action : EStateM (Stop Defect) CodeBuffer α) : EStateM (Stop CompileError) Body α :=
  fun ⟨buffer, blocks, function, line⟩ =>
    match action buffer with
    | .ok a buffer => .ok a ⟨buffer, blocks, function, line⟩
    | .error (.error defect) buffer =>
      .error (.error ⟨defect, position⟩) ⟨buffer, blocks, function, line⟩
    | .error .crash buffer => .error .crash ⟨buffer, blocks, function, line⟩

def tryEmit (position : Position) (op : Op) (operands : List Int) :
    EStateM (Stop CompileError) Body Nat :=
  fun b => tryOnBuffer position (CodeBuffer.tryEmit (b.lineOf position) op operands) b

def tryEmitJump (position : Position) (op : Op) (label : Label) :
    EStateM (Stop CompileError) Body Nat :=
  fun b => tryOnBuffer position (CodeBuffer.tryEmitJump (b.lineOf position) op label) b

def trySetLabel (label : Label) : EStateM (Stop CompileError) Body Unit :=
  tryOnBuffer {} (CodeBuffer.trySetLabel label)

/-! ### The result -/

def finish (b : Body) (position : Position) : Except CompileError CodeBlock :=
  match b.buffer.finish with
  | .error defect => .error ⟨defect, position⟩
  | .ok block => .ok block

end Body

end Bytecode
