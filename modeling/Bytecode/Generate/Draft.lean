import Bytecode.Executable.Basic
import Bytecode.Generate.Body

/-!
# Drafts

A `Draft` joins the constants of a compilation unit, which all bodies share, with the body
under generation. The actions here are those from which the code of expressions and
statements is put together.
-/

namespace Bytecode

/-- What the trees of a program may refer to. -/
structure Scope where
  functionCount : Nat
  classes : Array Class

namespace Scope

def class? (scope : Scope) (index : UInt16) : Option Class := scope.classes[index.toNat]?

end Scope

structure Draft where
  pool : ConstantPool := {}
  body : Body := {}

/-- An action that generates code; it ends at the first defect. -/
abbrev Gen := EStateM CompileError Draft

namespace Gen

def fail {α : Type} (defect : Defect) (position : Position) : Gen α := throw ⟨defect, position⟩

/-- Apply an action to the body. -/
def onBody {α : Type} (action : EStateM CompileError Body α) : Gen α :=
  fun ⟨pool, body⟩ =>
    match action body with
    | .ok a body => .ok a ⟨pool, body⟩
    | .error e body => .error e ⟨pool, body⟩

def emit (position : Position) (op : Op) (operands : List Int) : Gen Unit :=
  onBody do discard (Body.emit position op operands)

def emitJump (position : Position) (op : Op) (label : Label) : Gen Unit :=
  onBody do discard (Body.emitJump position op label)

def newLabel : Gen Label :=
  onBody fun b => let (label, b) := b.newLabel; .ok label b

def setLabel (label : Label) : Gen Unit := onBody fun b => .ok () (b.setLabel label)

def getBody : Gen Body := return (← get).body

/-- Change what is known of the body besides its code. -/
def modifyBody (f : Body → Body) : Gen Unit := onBody fun b => .ok () (f b)

/-- Yield a result or end with its error. -/
def ofExcept {α : Type} : Except CompileError α → Gen α
  | .ok a => pure a
  | .error e => throw e

/-- The index of a constant in the pool. -/
def addConstant (c : Constant) (position : Position) : Gen Nat :=
  fun ⟨pool, body⟩ =>
    match pool.add c with
    | .ok (index, pool) => .ok index ⟨pool, body⟩
    | .error defect => .error ⟨defect, position⟩ ⟨pool, body⟩

/-- Push an integer by the shortest instruction that can. -/
def emitInt (position : Position) (value : Int64) : Gen Unit := do
  let i := value.toInt
  if 0 ≤ i ∧ i < 256 then emit position .pushInt1Byte [i]
  else if -32768 ≤ i ∧ i < 32768 then emit position .pushInt2Byte [i]
  else
    let index ← addConstant (.int value) position
    emit position .pushInt [index]

/-- Push a double. Positive zero and one have instructions of their own. -/
def emitDouble (position : Position) (value : Double) : Gen Unit := do
  if value = .zero then emit position .pushDouble0 []
  else if value = .one then emit position .pushDouble1 []
  else
    let index ← addConstant (.double value) position
    emit position .pushDouble [index]

def emitString (position : Position) (value : String) : Gen Unit := do
  let index ← addConstant (.string value) position
  emit position .pushString [index]

/-- Push the value that a `return` without one yields. -/
def emitDefault (position : Position) (ty : Ty) : Gen Unit :=
  match ty with
  | .double => emit position .pushDouble0 []
  | .string => emitString position ""
  | ty => if ty.isReference then emit position .pushNull [] else emit position .pushInt1Byte [0]

def pushVariable (position : Position) (place : Variable) (ty : Ty) : Gen Unit := do
  match place with
  | .local slot =>
    let offset ← ofExcept ((← getBody).localOffset slot position)
    emit position (.pushStack ty.slotKind) [offset]
  | .global index => emit position (.pushStatic ty.slotKind) [index.toNat]

/-- Store the top of the stack into a variable. -/
def popVariable (position : Position) (place : Variable) (ty : Ty) : Gen Unit := do
  match place with
  | .local slot =>
    let offset ← ofExcept ((← getBody).localOffset slot position)
    emit position (.popStack ty.slotKind) [offset]
  | .global index => emit position (.popStatic ty.slotKind) [index.toNat]

/-! ### Checks of table indices -/

def checkFunction (scope : Scope) (index : UInt16) (position : Position) : Gen Unit :=
  if index.toNat < scope.functionCount then pure () else fail (.unknownFunction index) position

def lookupClass (scope : Scope) (index : UInt16) (position : Position) : Gen Class :=
  match scope.class? index with
  | some c => pure c
  | none => fail (.unknownClass index) position

/-- A field of an object of a class must exist. -/
def checkField (scope : Scope) (object : Ty) (index : UInt16) (position : Position) : Gen Unit :=
  match object.classIndex? with
  | none => pure ()
  | some classIndex => do
    let c ← lookupClass scope classIndex position
    if index.toNat < c.fields.length then pure () else fail (.memberNotFound c.name index) position

/-- A method of an object of a class must exist. -/
def checkMethod (scope : Scope) (object : Ty) (index : UInt16) (position : Position) : Gen Unit :=
  match object.classIndex? with
  | none => pure ()
  | some classIndex => do
    let c ← lookupClass scope classIndex position
    if index.toNat < c.methods.length then pure ()
    else fail (.memberNotFound c.name index) position

end Gen

end Bytecode
