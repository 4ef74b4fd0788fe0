/-!
# Commands

What the command line asks for, and what is written in answer.
-/

namespace Bytecode

/-- The options of the command that runs a program. -/
structure RunOptions where
  disassemble : Bool := false
  stats : Bool := false
  json : Bool := false
  gcThreshold : Option Nat := none
  gcIncrement : Option Nat := none
  maxStack : Option Nat := none
  deriving DecidableEq, Repr, Inhabited

inductive Command where
  | run (path : String) (options : RunOptions)
  | disasm (path : String) (json : Bool)
  deriving DecidableEq, Repr

/-- What a command line asks for. -/
inductive Request where
  | command (c : Command)
  /-- Some text about the program itself. -/
  | tell (text : String)
  deriving DecidableEq, Repr

/-- What a command writes, and its exit code. -/
structure Report where
  exit : UInt8 := 0
  stdout : String := ""
  stderr : String := ""
  deriving DecidableEq, Repr, Inhabited

end Bytecode
