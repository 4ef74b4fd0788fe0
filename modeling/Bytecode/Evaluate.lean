import Bytecode.Generate.Program
import Bytecode.Machine.Run

/-!
# Running programs

From a program to a machine that has run it, with the built-in natives.
-/

namespace Bytecode

/-- A machine for an executable, linked to the built-in natives. -/
def Executable.start (exe : Executable) (config : Config) (clock : Int64) :
    Except (Stop LinkError) Machine :=
  match Machine.new? exe config clock with
  | none => .error .crash
  | some m =>
    match m.link .defaults with
    | (.ok (), m) => .ok m
    | (.error e, _) => .error (.error e)

/-- Compile a program and run its top level. -/
def Program.run (fuel : Nat) (config : Config) (clock : Int64) (program : Program) :
    Ending Failure Machine :=
  match compile program with
  | .error e => .failed (.compile e)
  | .ok exe =>
    match exe.start config clock with
    | .error .crash => .crashed
    | .error (.error e) => .failed (.link e)
    | .ok m =>
      let (ending, m) := m.run fuel
      (ending.mapError .runtime).map fun () => m

end Bytecode
