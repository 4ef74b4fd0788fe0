import Bytecode.Double.Text
import Bytecode.Executable.Basic
import Bytecode.Heap.Basic

/-!
# Native functions

A native function is a procedure of the host program. It is found by its package and name in a
`Registry`, which keeps the order of registration; a later procedure under the same key takes
the place of the earlier one.
-/

namespace Bytecode

/-- What a native function may use and change. -/
structure Host where
  heap : Heap
  /-- The texts written so far, in order. -/
  output : Array String
  /-- Milliseconds since the start of 1970. -/
  clock : Int64

namespace Host

/-- The text of a string. There is none for null and for words; a handle without an object
crashes. -/
def text? (host : Host) (v : Value) : Except Trap (Option String) :=
  match v.handle? with
  | none => .ok none
  | some handle =>
    match host.heap.get? handle with
    | none => .error .crash
    | some object => .ok object.text?

/-- The text of a string, or `null`. -/
def textOrNull (host : Host) (v : Value) : Except Trap String :=
  (host.text? v).map fun text => text.getD "null"

/-- Allocate a string. -/
def newString (text : String) (host : Host) : Value × Host :=
  let (handle, heap) := host.heap.allocString text
  (.ref handle, { host with heap })

def write (text : String) (host : Host) : Host := { host with output := host.output.push text }

end Host

/-- A procedure of the host program and the number of its arguments. -/
structure Native where
  package : String
  name : String
  arity : Nat
  run : List Value → EStateM Trap Host Value

namespace Native

def qualifiedName (n : Native) : String := n.package ++ "." ++ n.name

/-- A description for debugging. -/
def describe (n : Native) : String := s!"NativeFunction({n.qualifiedName}/{n.arity})"

end Native

/-- The native functions by package and name. -/
structure Registry where
  natives : List Native := []

namespace Registry

/-- Put a procedure in the place of the one with the same key, or at the end. -/
def put (native : Native) : List Native → List Native
  | [] => [native]
  | first :: rest =>
    if first.package = native.package ∧ first.name = native.name then native :: rest
    else first :: put native rest

def register (native : Native) (r : Registry) : Registry := ⟨put native r.natives⟩

def lookup? (r : Registry) (package name : String) : Option Native :=
  r.natives.find? fun native => native.package = package ∧ native.name = name

end Registry

/-- The package of the built-in natives. -/
def langPackage : String := "fourg.lang"

namespace Native

/-- Fail with a fault of the native function with the given name. -/
def fault {α : Type} (name text : String) : EStateM Trap Host α :=
  throw (.error (.native name text))

/-- An argument, which exists since as many are passed as the function takes. -/
def argument (args : List Value) (i : Nat) : EStateM Trap Host Value :=
  match args[i]? with
  | some v => pure v
  | none => throw .crash

/-- The text of an argument. -/
def textArgument (args : List Value) (i : Nat) : EStateM Trap Host String := do
  let v ← argument args i
  match (← get).textOrNull v with
  | .ok text => return text
  | .error trap => throw trap

/-- Write a text. -/
def print : Native where
  package := langPackage
  name := "print"
  arity := 1
  run args := do
    let text ← textArgument args 0
    modify (Host.write text)
    return .zero

/-- Write a text and end the line. -/
def println : Native where
  package := langPackage
  name := "println"
  arity := 1
  run args := do
    let text ← textArgument args 0
    modify (Host.write (text ++ "\n"))
    return .zero

/-- The square root of a number that is not negative. -/
def sqrt : Native where
  package := langPackage
  name := "sqrt"
  arity := 1
  run args := do
    let x := (← argument args 0).toDouble
    if x.lt .zero then fault "sqrt" s!"negative argument {Layout.plain.render x}"
    return .ofDouble x.sqrt

/-- The time in milliseconds. -/
def nowMillis : Native where
  package := langPackage
  name := "now_millis"
  arity := 0
  run _ := do
    return .ofInt (← get).clock

end Native

/-- The built-in natives. -/
def Registry.defaults : Registry := ⟨[.print, .println, .sqrt, .nowMillis]⟩

end Bytecode
