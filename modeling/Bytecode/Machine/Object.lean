import Bytecode.Machine.Basic

/-!
# Objects in instructions

What the instructions on strings, arrays and instances do with the objects that values refer
to. A value that refers to nothing is a null pointer; a handle without an object crashes.
-/

namespace Bytecode

namespace Machine

/-- The object that a value refers to. -/
def object (v : Value) : MachineM Object :=
  fun m =>
    match v.handle? with
    | none => .error (.error .nullPointer) m
    | some handle =>
      match m.heap.get? handle with
      | none => .error .crash m
      | some o => .ok o m

/-- The object that a value refers to is changed in place. -/
def updateObject (v : Value) (f : Object → Object) : MachineM Unit :=
  match v.handle? with
  | none => fault .nullPointer
  | some handle => modifyHeap fun heap => ((), heap.update handle f)

/-! ### Strings -/

/-- The text of a value that must be a string. -/
def expectString (v : Value) : MachineM String := do
  match ← object v with
  | .string text => return text
  | other => fault (.typeMismatch "string" other.kindName)

/-- The text of a value in a concatenation. -/
def textOrNull (v : Value) : MachineM String := return (← text? v).getD "null"

/-- Two values are equal as strings: they refer to nothing both, or to equal texts. Objects
that are no strings have no text and are all equal. -/
def sameString (lhs rhs : Value) : MachineM Bool := do
  match lhs.handle?, rhs.handle? with
  | none, none => return true
  | some _, some _ => return (← text? lhs) == (← text? rhs)
  | _, _ => return false

/-! ### Arrays -/

/-- An index that lies within a size. -/
def checkIndex (index : Int64) (size : Nat) : MachineM Nat :=
  if 0 ≤ index.toInt ∧ index.toInt < size then pure index.toInt.toNat
  else fault (.indexOutOfBounds index size)

/-- An element of an array. An object that is no array has no elements. -/
def arrayGet (array : Value) (index : Int64) : MachineM Value := do
  let o ← object array
  let i ← checkIndex index (o.arrayLength?.getD 0)
  match o.element? i with
  | some v => return v
  | none => crash

/-- Overwrite an element of an array. -/
def arraySet (array : Value) (index : Int64) (v : Value) : MachineM Unit := do
  let size := (← object array).arrayLength?.getD 0
  let i ← checkIndex index size
  updateObject array (Object.setElement i v)

/-- The number of elements from which on an array is too large to be addressed. -/
def maxArrayLength : Nat := 1 <<< 60

/-- An array of zeros or nulls. -/
def zeroArray (kind : SlotKind) (size : Nat) : Object :=
  match kind with
  | .int => .ints (Array.replicate size 0)
  | .double => .doubles (Array.replicate size .zero)
  | .object => .refs (Array.replicate size none)

/-- An array with the given elements, of each of which it takes what it holds. -/
def arrayOfValues (kind : SlotKind) (values : List Value) : Object :=
  match kind with
  | .int => .ints (values.map Value.toInt).toArray
  | .double => .doubles (values.map Value.toDouble).toArray
  | .object => .refs (values.map Value.handle?).toArray

/-- Allocate an object. -/
def allocate (o : Object) : MachineM Value :=
  modifyHeap fun heap => let (handle, heap) := heap.alloc o; (.ref handle, heap)

def newArray (kind : SlotKind) (size : Int64) : MachineM Value :=
  if size.toInt < 0 then fault (.indexOutOfBounds size 0)
  else if maxArrayLength ≤ size.toInt then crash
  else allocate (zeroArray kind size.toInt.toNat)

/-- The length of a value that must be an array. -/
def arrayLength (v : Value) : MachineM Nat := do
  let o ← object v
  match o.arrayLength? with
  | some n => return n
  | none => fault (.typeMismatch "array" o.kindName)

/-! ### Instances -/

/-- The class and the fields of a value that must be an instance. -/
def expectInstance (v : Value) : MachineM (UInt16 × Array Value) := do
  match ← object v with
  | .inst class_ fields => return (class_, fields)
  | other => fault (.typeMismatch "instance" other.kindName)

/-- An instance of a class with the default values of its fields. -/
def newInstance (index : Nat) : MachineM Value := do
  match (← get).exe.classes[index]? with
  | none => crash
  | some c =>
    modifyHeap fun heap =>
      let (fields, heap) := heap.defaultValues (c.fields.map (·.ty))
      let (handle, heap) := heap.alloc (.inst index.toUInt16 fields.toArray)
      (.ref handle, heap)

def getField (v : Value) (index : Nat) : MachineM Value := do
  let (_, fields) ← expectInstance v
  match fields[index]? with
  | some field => return field
  | none => crash

def setField (object : Value) (index : Nat) (v : Value) : MachineM Unit := do
  let size := (← expectInstance object).2.size
  if index < size then updateObject object (Object.setField index v) else crash

/-- The function of a method slot of an instance. -/
def methodFunction (v : Value) (index : Nat) : MachineM UInt16 := do
  let (class_, _) ← expectInstance v
  match ((← get).exe.classes[class_.toNat]?).bind fun c => c.methods[index]? with
  | some method => return method.function
  | none => crash

/-- Null passes; an instance must be of the class or of a subclass. -/
def downCast (v : Value) (target : UInt16) : MachineM Unit := do
  if v.isNull then return
  let (class_, _) ← expectInstance v
  let exe := (← get).exe
  if ¬exe.isSubclass class_ target then
    fault (.classCast (exe.className class_) (exe.className target))

/-- The value is an instance of the class or of a subclass. -/
def instanceOf (v : Value) (target : UInt16) : MachineM Bool := do
  match v.handle? with
  | none => return false
  | some _ =>
    match ← object v with
    | .inst class_ _ => return (← get).exe.isSubclass class_ target
    | _ => return false

end Machine

end Bytecode
