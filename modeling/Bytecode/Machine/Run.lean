import Bytecode.Machine.Step

/-!
# Runs, host calls and linking

`Machine.resume` takes steps until the run ends or its fuel does. `Machine.run` runs the top
level, `Machine.callFunction` one function, after which registers and stack pointer are those
before the call, whatever has come of it. `Machine.link` binds native functions.
-/

namespace Bytecode

/-- What has come of a run. -/
inductive Ending (ε α : Type) where
  | done (result : α)
  | failed (error : ε)
  /-- The machine was asked for something impossible by broken code. -/
  | crashed
  /-- The run has not come to an end within the given number of steps. -/
  | outOfFuel
  deriving Repr

namespace Ending

def map {ε α β : Type} (f : α → β) : Ending ε α → Ending ε β
  | .done result => .done (f result)
  | .failed error => .failed error
  | .crashed => .crashed
  | .outOfFuel => .outOfFuel

def mapError {ε δ α : Type} (f : ε → δ) : Ending ε α → Ending δ α
  | .done result => .done result
  | .failed error => .failed (f error)
  | .crashed => .crashed
  | .outOfFuel => .outOfFuel

end Ending

namespace Machine

/-- A fault with the function and the line of the instruction executed last. There is none if
the line cannot be looked up. -/
def locate (m : Machine) (f : Fault) : Option RuntimeError :=
  let function := match m.registers.current with
    | none => "<top level>"
    | some index => (m.exe.functions[index]?.map Function.qualifiedName).getD ""
  match m.exe.code? m.registers.current with
  | none => some ⟨f, function, 0⟩
  | some block =>
    (tryLineAt block.lines m.registers.opPc).map fun line => ⟨f, function, line.getD 0⟩

/-- Take steps until the run ends. -/
def resume : Nat → Machine → Ending RuntimeError (Option Value) × Machine
  | 0, m => (.outOfFuel, m)
  | fuel + 1, m =>
    match step m with
    | .ok .running m => resume fuel m
    | .ok (.finished result) m => (.done result, m)
    | .error (.error f) m =>
      match m.locate f with
      | some e => (.failed e, m)
      | none => (.crashed, m)
    | .error .crash m => (.crashed, m)

/-- The machine at the start of the top level, with an empty stack. -/
def restart (m : Machine) : Machine :=
  { m with
    registers := { m.registers with current := none, pc := 0, base := 0 }
    stack := { m.stack with sp := 0 } }

/-- Run the top level. -/
def run (fuel : Nat) (m : Machine) : Ending RuntimeError Unit × Machine :=
  let (ending, m) := resume fuel m.restart
  (ending.map fun _ => (), m)

/-! ### Calls from the host -/

/-- A fault that is raised before the function's code runs. -/
def hostError (m : Machine) (index : Nat) (f : Fault) : RuntimeError :=
  ⟨f, (m.exe.functions[index]?.map Function.qualifiedName).getD s!"#{index}", 0⟩

def pushAll : List Value → MachineM Unit
  | [] => pure ()
  | v :: rest => do
    push v
    pushAll rest

/-- Push the arguments and call a native function, or enter another one. The result of a
native function is yielded. -/
def beginCall (index : Nat) (f : Function) (args : List Value) : MachineM (Option Value) := do
  pushAll args
  if f.isNative then
    callNative index f
    return some (← pop)
  else
    enterFunction index f .host
    return none

/-- Call a function and run it to its end. -/
def enterFromHost (fuel index : Nat) (args : List Value) (m : Machine) :
    Ending RuntimeError Value × Machine :=
  match m.exe.functions[index]? with
  | none => (.failed (m.hostError index (.native "host" s!"no function #{index}")), m)
  | some f =>
    if f.params.length ≠ args.length then
      (.failed (m.hostError index (.argumentCount f.params.length args.length)), m)
    else
      match beginCall index f args m with
      | .error (.error e) m => (.failed (m.hostError index e), m)
      | .error .crash m => (.crashed, m)
      | .ok (some result) m => (.done result, m)
      | .ok none m =>
        let (ending, m) := resume fuel m
        (ending.map fun result => result.getD .zero, m)

/-- Call a function from the host. -/
def callFunction (fuel index : Nat) (args : List Value) (m : Machine) :
    Ending RuntimeError Value × Machine :=
  let registers := m.registers
  let sp := m.stack.sp
  let (ending, m) := enterFromHost fuel index args m
  (ending, { m with registers, stack := { m.stack with sp } })

/-! ### Linking -/

/-- Bind the native functions from an index on. -/
def linkFrom (registry : Registry) :
    Nat → List Function → Array (Option Native) → Except LinkError Unit × Array (Option Native)
  | _, [], natives => (.ok (), natives)
  | index, f :: rest, natives =>
    if f.isNative then
      match registry.lookup? f.package f.name with
      | none => (.error (.nativeNotFound f.package f.name), natives)
      | some native =>
        if native.arity ≠ f.params.length then
          (.error (.argumentCountMismatch native.qualifiedName native.arity f.params.length),
            natives)
        else linkFrom registry (index + 1) rest (natives.setIfInBounds index (some native))
    else linkFrom registry (index + 1) rest natives

/-- Bind every native function to the procedure with its package and name. The functions before
the first one that cannot be bound stay bound. -/
def link (registry : Registry) (m : Machine) : Except LinkError Unit × Machine :=
  let (result, natives) := linkFrom registry 0 m.exe.functions.toList m.natives
  (result, { m with natives })

end Machine

end Bytecode
