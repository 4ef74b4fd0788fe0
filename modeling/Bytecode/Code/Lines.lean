/-!
# Line tables

A line table divides code into runs of bytes that come from one source line each. `lineAt`
looks up the line of a place. Tables that were not made by compilation may have runs that end
beyond the places of 64 bits; `tryLineAt` breaks off when it comes to the end of one.
-/

namespace Bytecode

/-- Consecutive bytes that come from one source line. -/
structure LineRun where
  line : UInt32
  startPc : Nat
  pcCount : Nat
  deriving DecidableEq, Repr, Inhabited

namespace LineRun

/-- The place after the run. -/
def endPc (run : LineRun) : Nat := run.startPc + run.pcCount

def covers (run : LineRun) (pc : Nat) : Bool := run.startPc ≤ pc ∧ pc < run.endPc

/-- The end of the run is a place of 64 bits. -/
def fits (run : LineRun) : Bool := run.endPc < 1 <<< 64

end LineRun

/-- The line of the first run that covers a place. -/
def lineAt (runs : Array LineRun) (pc : Nat) : Option UInt32 :=
  (runs.find? fun run => run.covers pc).map (·.line)

/-- The runs fit that have to be compared with a place in order to find its line: those that
do not begin after it, up to the first one that covers it. -/
def lookupFits : List LineRun → Nat → Bool
  | [], _ => true
  | run :: rest, pc =>
    if run.startPc ≤ pc then run.fits && (run.covers pc || lookupFits rest pc)
    else lookupFits rest pc

/-- The line of the first run that covers a place, if the runs looked at fit. -/
def tryLineAt (runs : Array LineRun) (pc : Nat) : Option (Option UInt32) :=
  if lookupFits runs.toList pc then some (lineAt runs pc) else none

/-- Add bytes at the end: the last run is extended if it has the same line. -/
def addLine (runs : Array LineRun) (line : UInt32) (startPc count : Nat) : Array LineRun :=
  match runs.back? with
  | some last =>
    if last.line = line then runs.pop.push { last with pcCount := last.pcCount + count }
    else runs.push ⟨line, startPc, count⟩
  | none => runs.push ⟨line, startPc, count⟩

end Bytecode
