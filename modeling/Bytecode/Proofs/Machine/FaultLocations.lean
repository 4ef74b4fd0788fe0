import Mathlib
import Bytecode.Proofs.Generate.Origins
import Bytecode.Proofs.Machine.ControlFlow
import Bytecode.Proofs.Semantics.Stepping

/-!
# Where faults are reported

A fault is reported with the function and the line of the instruction that has raised it,
`located_of_failsFrom`. The location is looked up when the run has ended, by the registers of the
machine. These are right because an action that fails does so before it changes the code that the
machine is in: a call does so after the frame of the callee is built, a return after the result is
pushed.
-/

namespace Bytecode

open Machine

/-! ### Failing in place -/

/-- The machines are in the same code and have executed the same instruction last. -/
structure SamePlace (m m' : Machine) : Prop where
  current : m'.registers.current = m.registers.current
  opPc : m'.registers.opPc = m.registers.opPc

instance : IsPreorder Machine SamePlace where
  refl _ := ⟨rfl, rfl⟩
  trans _ _ _ first second :=
    ⟨second.current.trans first.current, second.opPc.trans first.opPc⟩

theorem SamePlace.of_registers {m m' : Machine} (same : m'.registers = m.registers) :
  SamePlace m m'
  := ⟨by rw [same], by rw [same]⟩

theorem SamePlace.onStack {α : Type} (action : StackM α) :
  Follows SamePlace (Machine.onStack action)
  := by
  intro m
  rw [stateOf_onStack]
  exact .of_registers rfl

/-- Instructions that neither call nor return stay in place. -/
theorem SamePlace.law :
  LocalLaw SamePlace
  where
  onValues _ := SamePlace.onStack _
  offStack off _ m := .of_registers (off.registers m)
  atPc _ _ := ⟨rfl, rfl⟩

/-- If the action fails, it does so in the place where it began. -/
def FailsInPlace {α : Type} (x : MachineM α) : Prop :=
  ∀ m trap m', x m = .error trap m' → SamePlace m m'

namespace FailsInPlace

variable {α β : Type}

theorem of_follows {x : MachineM α} (follows : Follows SamePlace x) :
  FailsInPlace x
  := by
  intro m trap m' failed
  have same := follows m
  rw [failed] at same
  exact same

/-- What comes before the last action must stay in place also if it succeeds. -/
theorem bind {x : MachineM α} {f : α → MachineM β} (first : Follows SamePlace x)
    (second : ∀ a, FailsInPlace (f a)) :
  FailsInPlace (x >>= f)
  := by
  intro m trap m' failed
  rcases bind_eq_error.1 failed with failed | ⟨a, m₁, ran, failed⟩
  · exact of_follows first m trap m' failed
  · have same := first m
    rw [ran] at same
    exact trans_of SamePlace same (second a m₁ trap m' failed)

theorem get_bind {f : Machine → MachineM β} (each : ∀ m, FailsInPlace (f m)) :
  FailsInPlace (get >>= f)
  := fun m trap m' failed => each m m trap m' failed

theorem enterFunction (index : Nat) (f : Function) (caller : Caller) :
  FailsInPlace (Machine.enterFunction index f caller)
  := by
  have entered (sp : Nat) (r : Registers) : FailsInPlace (do
      Machine.onStack (Stack.pushCall ⟨caller, r.pc, r.base⟩)
      pushLocals f.locals
      modify fun m => { m with registers :=
        { m.registers with current := some index, pc := 0, base := sp - f.params.length } }) := by
    apply bind (SamePlace.onStack _)
    intro _
    apply bind (SamePlace.law.made (made_pushLocals _))
    intro _ m trap m' failed
    cases failed
  apply get_bind
  intro m
  apply bind (SamePlace.onStack _)
  intro _
  apply get_bind
  intro m₁
  dsimp only
  split
  · exact bind (.throw _) fun _ => entered _ _
  · exact entered _ _

theorem invoke :
  FailsInPlace Machine.invoke
  := by
  have called (index : Nat) (f : Function) : Follows SamePlace (callNative index f) := by
    apply Law.follows_callNative SamePlace.law.onValues
    intro m _ native args _
    have off : OffStack (onHost (native.run args)) := .onHost _
    exact .of_registers (off.registers m)
  have popped {f : Value → MachineM Unit} (each : ∀ v, FailsInPlace (f v)) :
      FailsInPlace (pop >>= f) := bind (SamePlace.law.onValues .pop) each
  apply popped
  intro v
  apply get_bind
  intro m
  cases m.exe.functions[v.bits.toNat]? with
  | none => exact of_follows (.throw _)
  | some f =>
    dsimp only
    split
    · apply bind (called _ f)
      intro _ m₁ trap m' failed
      cases failed
    · exact get_bind fun _ => enterFunction _ f _

theorem returnValue :
  FailsInPlace Machine.returnValue
  := by
  have popped {f : Value → MachineM (Option Value)} (each : ∀ v, FailsInPlace (f v)) :
      FailsInPlace (pop >>= f) := bind (SamePlace.law.onValues .pop) each
  apply popped
  intro v
  apply get_bind
  intro m
  cases m.registers.current with
  | none => exact of_follows (.pure _)
  | some index =>
    apply get_bind
    intro m₁
    apply get_bind
    intro m₂
    apply get_bind
    intro m₃
    dsimp only
    split
    · exact of_follows (.throw _)
    · next info _ =>
        apply get_bind
        intro m₄
        apply bind (SamePlace.onStack _)
        intro _
        apply bind (SamePlace.onStack _)
        intro _ m₅ trap m' failed
        -- Nothing can fail any more once the result is pushed.
        cases goesOn : info.caller with
        | host | topLevel | function caller =>
          rw [goesOn] at failed
          cases failed

/-- An instruction that fails does so before the machine is in other code. -/
theorem execute (i : Instruction) :
  FailsInPlace (Machine.execute i)
  := by
  by_cases call : i.op = .invoke
  · intro m trap m' failed
    rw [execute_invoke call] at failed
    rcases bind_eq_error.1 failed with failed | ⟨_, _, -, impossible⟩
    · exact trans_of SamePlace (SamePlace.law.atPc i.pc m) (invoke _ trap m' failed)
    · cases impossible
  · by_cases returns : i.op = .ret
    · intro m trap m' failed
      rw [execute_ret returns] at failed
      exact trans_of SamePlace (SamePlace.law.atPc i.pc m) (returnValue _ trap m' failed)
    · exact of_follows (SamePlace.law.execute call returns)

end FailsInPlace

namespace Machine

variable {p : Program} {exe : Executable} {usage : Usage} {m m' start : Machine} {f : Fault}
  {e : RuntimeError}

/-- The instruction before the machine raises the fault. There may be a collection before it. -/
def Raises (m : Machine) (i : Instruction) (f : Fault) : Prop :=
  fetch m.code m.registers.pc = .ok i ∧ ∃ host m',
    execute i ({ m with host }.advanced i) = .error (.error f) m' ∧ step m = .error (.error f) m'

/-- The error is reported where the instruction that has raised its fault comes from: it names
the function that the machine is in, and the line of the origin of the instruction. -/
structure Locates (p : Program) (m : Machine) (e : RuntimeError) : Prop where
  function : e.function = p.nameOf m.registers.current
  line : ∃ (i : Instruction) (k : Nat) (origin : Origin), m.Raises i e.fault ∧ (decode m.code).instructions[k]? = some i
    ∧ (p.origins m.registers.current)[k]? = some origin ∧ e.line = origin.line

/-- A step that raises a fault has executed an instruction that was planned. -/
theorem OnTrack.exists_raises (track : m.OnTrack p)
    (failed : Machine.step m = .error (.error f) m') :
  ∃ (k : Nat) (point : Point) (i : Instruction), (p.points m.registers.current)[k]? = some point ∧ point.pc = m.registers.pc
    ∧ (decode m.code).instructions[k]? = some i ∧ fetch m.code m.registers.pc = .ok i
    ∧ ∃ host, execute i ({ m with host }.advanced i) = .error (.error f) m'
  := by
  rw [step_eq] at failed
  obtain ⟨host, collected⟩ := stateOf_collectIfDue m
  cases due : collectIfDue m with
  | error trap m₁ =>
    rw [due] at failed
    cases failed
    cases eq_crash_of_collectIfDue due
  | ok _ m₁ =>
    rw [due] at collected failed
    obtain rfl : m₁ = { m with host } := collected
    dsimp only at failed
    split at failed
    · cases failed
    · next inside =>
        obtain ⟨k, point, i, found, decoded, fetched, -, -, _, encodes⟩ :=
          track.fetched (Nat.not_le.1 inside)
        rw [show ({ m with host } : Machine).code = m.code from rfl, fetched] at failed
        refine ⟨k, point, i, found, encodes.1.symm.trans (fetch_pc fetched), decoded, fetched,
          host, ?_⟩
        dsimp only at failed
        split at failed
        · next ran =>
            cases failed
            exact ran
        · cases failed
        · cases failed

/-- A fault is reported, and where it was raised. -/
theorem OnTrack.locates (track : m.OnTrack p)
    (failed : Machine.step m = .error (.error f) m') :
  ∃ e, m'.locate f = some e ∧ e.fault = f ∧ m.Locates p e
  := by
  obtain ⟨k, point, i, found, pc, decoded, fetched, host, ran⟩ := track.exists_raises failed
  obtain ⟨origin, origins, line⟩ := Program.exists_origin found
  have place := FailsInPlace.execute i _ _ _ ran
  have last : m'.registers.opPc = point.pc := by
    rw [place.opPc, pc]
    rfl
  have program := SameProgram.law.step m
  rw [failed] at program
  have exe : m'.exe = m.exe := program.exe
  refine ⟨_, track.compiled.locate_eq (List.mem_of_getElem? found) exe place.current last f, rfl,
    rfl, i, k, origin, ⟨fetched, host, m', ran, failed⟩, decoded, origins, line.symm⟩

/-- A run that ends with an error has come to a machine whose step raises the fault. -/
theorem exists_step_of_resume {fuel : Nat} (failed : resume fuel start = (.failed e, m')) :
  ∃ m f, Reaches (fun _ => True) start m ∧ step m = .error (.error f) m'
    ∧ m'.locate f = some e
  := by
  induction fuel generalizing start with
  | zero => cases failed
  | succ fuel ih =>
    unfold resume at failed
    split at failed
    · next m₁ stepped =>
        obtain ⟨m, f, reaches, faulted⟩ := ih failed
        exact ⟨m, f, reaches.head trivial stepped, faulted⟩
    · cases failed
    · next f m₁ stepped =>
        split at failed
        · next located =>
            cases failed
            exact ⟨start, f, .refl, stepped, located⟩
        · cases failed
    · cases failed

/-- A run of the top level, or a call from the host that has come to execute code, ends with an
error. Given is the machine with which the code is entered. -/
inductive FailsFrom (m : Machine) : Machine → RuntimeError → Prop
  | run {fuel : Nat} {e : RuntimeError} {m' : Machine} :
      run fuel m = (.failed e, m') → FailsFrom m m.restart e
  | call {fuel index : Nat} {f : Function} {args : List Value} {start : Machine}
      {e : RuntimeError} {m' : Machine} :
      m.exe.functions[index]? = some f → f.params.length = args.length →
      beginCall index f args m = .ok none start →
      callFunction fuel index args m = (.failed e, m') → FailsFrom m start e

theorem FailsFrom.enters (fails : m.FailsFrom start e) :
  ∃ entry, m.Enters entry start
  := by
  cases fails with
  | run _ => exact ⟨0, .run⟩
  | call found count begun _ => exact ⟨_, .call found count begun⟩

theorem FailsFrom.resume_eq (fails : m.FailsFrom start e) :
  ∃ fuel m', resume fuel start = (.failed e, m')
  := by
  have of_map {α β : Type} {g : α → β} {ending : Ending RuntimeError α}
      (failed : ending.map g = .failed e) : ending = .failed e := by
    cases ending
    all_goals cases failed
    rfl
  cases fails with
  | @run fuel _ m' failed =>
    have ended := congrArg Prod.fst failed
    exact ⟨fuel, _, Prod.ext (of_map ended) rfl⟩
  | @call fuel index f args _ _ m' found count begun failed =>
    have ended : (enterFromHost fuel index args m).1 = .failed e := congrArg Prod.fst failed
    rw [enterFromHost, found] at ended
    dsimp only at ended
    rw [if_neg (not_not.2 count), begun] at ended
    exact ⟨fuel, _, Prod.ext (of_map ended) rfl⟩

/-- Whatever the native functions of a compiled program do, every error in which a run ends is
located by the instruction that has raised its fault: its function is the one whose code contains
the instruction, and its line is the line of the position with which the instruction was emitted,
or else of the innermost statement around it whose line is known. -/
theorem located_of_failsFrom {p : Program} {exe : Executable} {usage : Usage} {m₀ start : Machine}
    {e : RuntimeError} (compiled : compile p = .ok exe) (session : Session exe usage m₀)
    (fails : m₀.FailsFrom start e) :
  ∃ m, Reaches (fun _ => True) start m ∧ m.Locates p e
  := by
  have fromProgram := compile_eq_ok compiled
  have program : CompiledFrom p m₀.exe := session.exe_eq ▸ fromProgram
  obtain ⟨entry, enters⟩ := fails.enters
  obtain ⟨fuel, m', failed⟩ := fails.resume_eq
  obtain ⟨m, f, reaches, stepped, located⟩ := exists_step_of_resume failed
  have track := (enters.onTrack program (session.recorded fromProgram)).of_reaches reaches
  obtain ⟨e', located', -, locates⟩ := track.locates stepped
  rw [located] at located'
  cases located'
  exact ⟨m, reaches, locates⟩

/-- A program that calls a function which divides by zero. The line of the division is known only
from the block around it. -/
def divisionCall : Program where
  functions := [{
    name := "divide", params := [⟨"x", .int⟩], returnType := .int
    body := some [.block (.ofLine 7)
      [.ret {} (some (.operation (.arith .div) (.readLocal 0 .int) (.ofInt 0)))]] }]
  statements := [.expression (.ofLine 3) (.callOf (.functionRef 0 .int) [.ofInt 7] .int)]

def divisionExecutable : Executable where
  functions := #[{
    name := "divide", package := "", class_ := none, returnType := .int
    params := [⟨"x", .int⟩], locals := []
    code := some ⟨#[8, 0, 0, 0, 0, 39, 79, 0, 0, 79], #[⟨7, 0, 7⟩, ⟨0, 7, 3⟩]⟩ }]
  topLevel := ⟨#[0, 7, 76, 0, 0, 78, 71], #[⟨3, 0, 7⟩]⟩

def divisionMachine : Machine :=
  ofStack divisionExecutable { initialStackSize := 4, maxStackSize := 8 } 0 (Stack.new 4 8)

/-- The division is located in the function, on the line of the block. -/
theorem located_division :
  (run 6 divisionMachine).1 = .failed ⟨.divisionByZero, "divide", 7⟩
    ∧ ∃ m, Reaches (fun _ => True) divisionMachine.restart m
      ∧ m.Locates divisionCall ⟨.divisionByZero, "divide", 7⟩
  := by
  have compiled : compile divisionCall = .ok divisionExecutable := by cbv
  have made : new? divisionExecutable { initialStackSize := 4, maxStackSize := 8 } 0
      = some divisionMachine := rfl
  have failed : (run 6 divisionMachine).1 = .failed ⟨.divisionByZero, "divide", 7⟩ := rfl
  have session : Session divisionExecutable .any divisionMachine := .start made
  exact ⟨failed, located_of_failsFrom compiled session (.run (Prod.ext failed rfl))⟩

end Machine

end Bytecode
