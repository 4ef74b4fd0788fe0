import Bytecode.Config
import Bytecode.Executable.Basic
import Bytecode.Heap.Collect
import Bytecode.Native
import Bytecode.Stack

/-!
# The machine

A `Machine` runs one executable. Its registers say which code it is in and where, and where
the frame of that code starts on the stack. Actions on the stack, the heap or the host side
alone are lifted to actions on the machine; an action that ends in a trap leaves the machine
as it was when it stopped.
-/

namespace Bytecode

/-- Where a machine is. -/
structure Registers where
  /-- The function whose code runs, or the top level. -/
  current : Option Nat := none
  pc : Nat := 0
  /-- The lowest cell of the frame. -/
  base : Nat := 0
  /-- The start of the instruction executed last. -/
  opPc : Nat := 0
  deriving DecidableEq, Repr, Inhabited

structure Machine where
  exe : Executable
  /-- The procedures bound to native functions, by function index. -/
  natives : Array (Option Native)
  stack : Stack
  host : Host
  globals : Array Value
  registers : Registers := {}

/-- An action of a machine. -/
abbrev MachineM := EStateM Trap Machine

namespace Heap

/-- The value that a slot of a type starts with: zero, null or a new empty string. -/
def defaultValue (ty : Ty) (h : Heap) : Value × Heap :=
  match ty with
  | .string => let (handle, h) := h.allocString ""; (.ref handle, h)
  | ty => (if ty.isReference then .null else .zero, h)

/-- The values that slots of the given types start with, allocated in order. -/
def defaultValues : List Ty → Heap → List Value × Heap
  | [], h => ([], h)
  | ty :: rest, h =>
    let (v, h) := h.defaultValue ty
    let (vs, h) := defaultValues rest h
    (v :: vs, h)

end Heap

namespace Machine

/-- A machine before its first run, with no native function bound and a given stack. -/
def ofStack (exe : Executable) (config : Config) (clock : Int64) (stack : Stack) : Machine :=
  let masks := exe.classes.map Class.referenceFields
  let heap := Heap.new config.gcThreshold config.gcThresholdIncrement masks
  let (globals, heap) := heap.defaultValues (exe.globals.toList.map (·.ty))
  { exe
    natives := Array.replicate exe.functions.size none
    stack
    host := ⟨heap, #[], clock⟩
    globals := globals.toArray }

/-- A machine before its first run, with no native function bound. There is none if its stack
cannot be made. -/
def new? (exe : Executable) (config : Config) (clock : Int64) : Option Machine :=
  (Stack.tryNew config.initialStackSize config.maxStackSize).map (ofStack exe config clock)

def heap (m : Machine) : Heap := m.host.heap

def output (m : Machine) : Array String := m.host.output

def global? (m : Machine) (index : Nat) : Option Value := m.globals[index]?

/-- The bytes of the code that runs. -/
def code (m : Machine) : Array UInt8 := ((m.exe.code? m.registers.current).map (·.code)).getD #[]

/-- The objects referred to from globals and from the cells in use. -/
def roots (m : Machine) : List Handle :=
  m.globals.toList.filterMap Value.handle? ++ m.stack.roots

/-! ### Actions on parts of a machine -/

@[inline] def onStack {α : Type} (action : StackM α) : MachineM α :=
  fun ⟨exe, natives, stack, host, globals, registers⟩ =>
    match action stack with
    | .ok a stack => .ok a ⟨exe, natives, stack, host, globals, registers⟩
    | .error trap stack => .error trap ⟨exe, natives, stack, host, globals, registers⟩

@[inline] def onHost {α : Type} (action : EStateM Trap Host α) : MachineM α :=
  fun ⟨exe, natives, stack, host, globals, registers⟩ =>
    match action host with
    | .ok a host => .ok a ⟨exe, natives, stack, host, globals, registers⟩
    | .error trap host => .error trap ⟨exe, natives, stack, host, globals, registers⟩

@[inline] def onHeap {α : Type} (action : EStateM Trap Heap α) : MachineM α :=
  onHost fun ⟨heap, output, clock⟩ =>
    match action heap with
    | .ok a heap => .ok a ⟨heap, output, clock⟩
    | .error trap heap => .error trap ⟨heap, output, clock⟩

/-- Change the heap, which cannot fail. -/
@[inline] def modifyHeap {α : Type} (f : Heap → α × Heap) : MachineM α :=
  onHeap fun heap => let (a, heap) := f heap; .ok a heap

def fault {α : Type} (f : Fault) : MachineM α := throw (.error f)

def crash {α : Type} : MachineM α := throw .crash

def setPc (pc : Nat) : MachineM Unit :=
  modify fun m => { m with registers := { m.registers with pc } }

def push (v : Value) : MachineM Unit := onStack (Stack.push v)

def pop : MachineM Value := onStack Stack.pop

def peek (depth : Nat) : MachineM Value := onStack (Stack.peek depth)

def replaceTop (v : Value) : MachineM Unit := onStack (Stack.replace 0 v)

/-- Free what cannot be reached, and count it. -/
def collect : MachineM Nat := fun m => onHeap (Heap.collect m.roots) m

def getGlobal (index : Nat) : MachineM Value :=
  fun m =>
    match m.globals[index]? with
    | some v => .ok v m
    | none => .error .crash m

def setGlobal (index : Nat) (v : Value) : MachineM Unit :=
  fun m =>
    if index < m.globals.size then .ok () { m with globals := m.globals.setIfInBounds index v }
    else .error .crash m

/-- The text of a string. There is none for null and for words. -/
def text? (v : Value) : MachineM (Option String) :=
  fun m =>
    match m.host.text? v with
    | .ok text => .ok text m
    | .error trap => .error trap m

/-- Allocate a string. -/
def newString (text : String) : MachineM Value :=
  modifyHeap fun heap => let (handle, heap) := heap.allocString text; (.ref handle, heap)

end Machine

end Bytecode
