import Bytecode.Frame
import Bytecode.Machine.Basic

/-!
# Calls and returns

A caller pushes the arguments and the index of the function. The frame of the callee starts at
its first argument; a call record is pushed above the arguments and the locals above it. A
return drops the whole frame and leaves the result where the first argument was.
-/

namespace Bytecode

namespace Machine

/-- Push the locals of a frame with their default values. -/
def pushLocals : List VariableDecl → MachineM Unit
  | [] => pure ()
  | v :: rest => do
    let value ← modifyHeap (Heap.defaultValue v.ty)
    push value
    pushLocals rest

/-- Enter a function whose arguments are on top of the stack. -/
def enterFunction (index : Nat) (f : Function) (caller : Caller) : MachineM Unit := do
  let registers := (← get).registers
  onStack (Stack.reserve (Frame.recordSize + f.locals.length))
  let sp := (← get).stack.sp
  if sp < f.params.length then crash
  onStack (Stack.pushCall ⟨caller, registers.pc, registers.base⟩)
  pushLocals f.locals
  modify fun m =>
    { m with registers :=
      { m.registers with current := some index, pc := 0, base := sp - f.params.length } }

/-- Call a native function on its arguments and replace them by the result. -/
def callNative (index : Nat) (f : Function) : MachineM Unit := do
  match ((← get).natives[index]?).join with
  | none => fault (.native f.qualifiedName "not linked")
  | some native =>
    let args ← onStack (Stack.top native.arity)
    let result ← onHost (native.run args)
    onStack (Stack.shrink native.arity)
    push result

/-- Call the function whose index is on top of the stack. The registers are at the call. -/
def invoke : MachineM Unit := do
  let index := (← pop).bits.toNat
  match (← get).exe.functions[index]? with
  | none => crash
  | some f =>
    if f.isNative then
      callNative index f
      modify fun m => { m with registers := { m.registers with pc := m.registers.pc + 1 } }
    else
      let caller := match (← get).registers.current with
        | none => Caller.topLevel
        | some current => Caller.function current
      enterFunction index f caller

/-- Return from the current frame. The value is yielded if the host goes on. -/
def returnValue : MachineM (Option Value) := do
  let v ← pop
  match (← get).registers.current with
  | none => return some v
  | some index =>
    let paramCount := (((← get).exe.functions[index]?).map (·.params.length)).getD 0
    let slot := (← get).registers.base + Frame.recordOffset paramCount
    match (← get).stack.callInfo? slot with
    | none => fault (.corruptStack slot)
    | some info =>
      onStack (Stack.truncate (← get).registers.base)
      push v
      modify fun m =>
        { m with registers := { m.registers with base := info.base, pc := info.pc + 1 } }
      match info.caller with
      | .host => return some v
      | .topLevel =>
        modify fun m => { m with registers := { m.registers with current := none } }
        return none
      | .function caller =>
        modify fun m => { m with registers := { m.registers with current := some caller } }
        return none

end Machine

end Bytecode
