import Bytecode.CommandLine.Basic
import Bytecode.Evaluate
import Bytecode.Executable.Dump
import Bytecode.Listing
import Bytecode.Tree.Reader

/-!
# Carrying out commands

`Command.execute` carries out a command on the text of a program and tells what is to be
written, in a `Report`. It is `Command.start`, which does all but the run, followed by the run
and `RunOptions.closing`.
-/

namespace Bytecode

namespace GcStats

/-- The statistics as a line for a person. -/
def text (s : GcStats) : String :=
  s!"gc: {s.cycles} cycles, {s.allocated} allocated, {s.freed} freed, " ++
    s!"{s.live} live, threshold {s.threshold}"

def toJson (s : GcStats) : Json :=
  .obj [("cycles", .ofNat s.cycles), ("allocated", .ofNat s.allocated),
    ("freed", .ofNat s.freed), ("live", .ofNat s.live), ("threshold", .ofNat s.threshold)]

end GcStats

namespace Report

def ofFailure (f : Failure) : Report := { exit := 1, stderr := s!"error: {f.message}\n" }

/-- The report of a machine that broke down. -/
def crash : Report := { exit := 101, stderr := "the machine broke down\n" }

/-- The report of a run that is given up. -/
def givenUp : Report := { exit := 1, stderr := "error: the run takes too long\n" }

end Report

namespace RunOptions

def config (o : RunOptions) : Config :=
  let defaults : Config := {}
  { defaults with
    gcThreshold := o.gcThreshold.getD defaults.gcThreshold
    gcThresholdIncrement := o.gcIncrement.getD defaults.gcThresholdIncrement
    maxStackSize := o.maxStack.getD defaults.maxStackSize
    echoOutput := true }

/-- What is written after a run. -/
def closing (o : RunOptions) (ending : Ending RuntimeError Unit) (m : Machine) : Report :=
  match ending with
  | .done () =>
    if ¬o.stats then {}
    else if o.json then { stderr := m.heap.stats.toJson.pretty ++ "\n" }
    else { stderr := m.heap.stats.text ++ "\n" }
  | .failed e => .ofFailure (.runtime e)
  | .crashed => .crash
  | .outOfFuel => .givenUp

end RunOptions

/-- How a command begins. -/
inductive Job where
  | finished (report : Report)
  /-- A text is written, then the machine is run. -/
  | running (text : String) (m : Machine) (options : RunOptions)

/-- The executable of a program text. -/
def load (source : Except Failure String) : Except Failure Executable := do
  let text ← source
  match Program.parse? text with
  | none => .error .invalid
  | some program => (compile program).mapError .compile

namespace Command

def path : Command → String
  | .run path _ => path
  | .disasm path _ => path

/-- Begin to carry out a command on the text of its program. -/
def start (clock : Int64) (source : Except Failure String) (c : Command) : Job :=
  match load source with
  | .error f => .finished (.ofFailure f)
  | .ok exe =>
    match c with
    | .disasm _ json =>
      .finished { stdout := if json then exe.toJson.pretty ++ "\n" else exe.listing }
    | .run _ options =>
      let text := if options.disassemble then exe.listing ++ "\n" else ""
      match exe.start options.config clock with
      | .error .crash => .finished .crash
      | .error (.error e) => .finished { Report.ofFailure (.link e) with stdout := text }
      | .ok m => .running text m options

/-- Carry out a command on the text of its program. -/
def execute (fuel : Nat) (clock : Int64) (source : Except Failure String) (c : Command) :
    Report :=
  match c.start clock source with
  | .finished report => report
  | .running text m options =>
    let (ending, m) := m.run fuel
    let report := options.closing ending m
    { report with stdout := text ++ String.join m.output.toList }

end Command

end Bytecode
