import Std.Time.DateTime.Timestamp
import Bytecode.CommandLine.Execute
import Bytecode.CommandLine.Parse

/-!
# The program
-/

namespace Bytecode

/-- The number that the system gives for a cause. Where a file cannot be opened the error holds
its negative. -/
def osCode? : IO.Error → Option UInt32
  | .noFileOrDirectory _ code _ | .permissionDenied _ code _ | .inappropriateType _ code _
  | .invalidArgument _ code _ | .resourceExhausted _ code _ | .otherError code _ =>
    some (min code (-code))
  | _ => none

/-- The text of a file. -/
def readSource (path : String) : IO (Except FileError String) := do
  try
    match String.fromUTF8? (← IO.FS.readBinFile path) with
    | some text => return .ok text
    | none => return .error .notText
  catch e =>
    return .error (((osCode? e).bind FileError.ofCode?).getD (.other (toString e)))

/-- Milliseconds since the start of 1970. -/
def currentTime : IO Int64 := do
  let now ← Std.Time.Timestamp.now
  return Int64.ofInt now.toMillisecondsSinceUnixEpoch.toInt

/-- Run a machine and write its output as it comes. -/
partial def watch (m : Machine) (written : Nat) : IO (Ending RuntimeError Unit × Machine) := do
  let (ending, m) := m.resume 100000
  for text in m.output.toList.drop written do
    (← IO.getStdout).putStr text
  (← IO.getStdout).flush
  match ending with
  | .outOfFuel => watch m m.output.size
  | ending => return (ending.map fun _ => (), m)

def writeReport (r : Report) : IO UInt32 := do
  (← IO.getStdout).putStr r.stdout
  (← IO.getStderr).putStr r.stderr
  return r.exit.toUInt32

/-- Carry out a request. -/
def serve : Request → IO UInt32
  | .tell text => writeReport { stdout := text }
  | .command c => do
    let source ← readSource c.path
    match c.start (← currentTime) (source.mapError .unreadable) with
    | .finished report => writeReport report
    | .running text m options =>
      (← IO.getStdout).putStr text
      let (ending, m) ← watch m.restart 0
      writeReport (options.closing ending m)

end Bytecode

def main (args : List String) : IO UInt32 :=
  match Bytecode.CommandLine.parse args with
  | none => Bytecode.writeReport Bytecode.CommandLine.usageReport
  | some request => Bytecode.serve request
