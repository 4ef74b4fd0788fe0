import Bytecode.CommandLine.Basic
import Bytecode.CommandLine.Help

/-!
# Reading the command line

Arguments are read from left to right. A request for help or for the version is granted when
it is met, so a mistake further on does not count.
-/

namespace Bytecode

namespace CommandLine

/-- The form of an argument. -/
inductive Argument where
  /-- What follows is no option, whatever its form. -/
  | separator
  | long (name : String) (value : Option String)
  | short (first : Char)
  | plain (text : String)
  deriving DecidableEq, Repr

/-- A single dash is a plain argument. -/
def Argument.ofString (arg : String) : Argument :=
  match arg.toList with
  | ['-', '-'] => .separator
  | '-' :: '-' :: rest =>
    let name := rest.takeWhile (· != '=')
    match rest.drop name.length with
    | [] => .long (String.ofList name) none
    | _ :: value => .long (String.ofList name) (some (String.ofList value))
  | '-' :: first :: _ => .short first
  | _ => .plain arg

/-- A number of 64 bits in decimal digits, with or without a plus sign. -/
def size? (text : String) : Option Nat :=
  let digits := match text.toList with
    | '+' :: rest => rest
    | rest => rest
  if digits.isEmpty || !digits.all Char.isDigit then none
  else
    let n := digits.foldl (fun n c => 10 * n + (c.toNat - '0'.toNat)) 0
    if n < UInt64.size then some n else none

/-- The options that a command knows. -/
structure Grammar where
  flags : List String
  /-- The options that take a number. -/
  sizes : List String

/-- The arguments read so far. -/
structure Arguments where
  path : Option String := none
  flags : List String := []
  sizes : List (String × Nat) := []
  deriving DecidableEq, Repr, Inhabited

namespace Arguments

/-- The one argument that is no option. It cannot be empty. -/
def addPath (text : String) (a : Arguments) : Option Arguments :=
  if text.isEmpty || a.path.isSome then none else some { a with path := some text }

def addFlag (name : String) (a : Arguments) : Option Arguments :=
  if a.flags.contains name then none else some { a with flags := name :: a.flags }

def addSize (name value : String) (a : Arguments) : Option Arguments := do
  if (a.sizes.lookup name).isSome then none
  return { a with sizes := (name, ← size? value) :: a.sizes }

def hasFlag (name : String) (a : Arguments) : Bool := a.flags.contains name

def find? (name : String) (a : Arguments) : Option Nat := a.sizes.lookup name

end Arguments

/-- What the arguments of a command amount to. -/
inductive Reading where
  | mistake
  | help
  | arguments (a : Arguments)
  deriving DecidableEq, Repr

/-- Read the arguments after a separator. -/
def readPlain : List String → Arguments → Reading
  | [], a => .arguments a
  | arg :: rest, a =>
    match a.addPath arg with
    | none => .mistake
    | some a => readPlain rest a

/-- Read the arguments of a command. The value of an option is attached to it after an equals
sign or is the next argument, if that one is plain. -/
def readArguments (g : Grammar) : List String → Arguments → Reading
  | [], a => .arguments a
  | arg :: rest, a =>
    match Argument.ofString arg with
    | .separator => readPlain rest a
    | .short first => if first = 'h' then .help else .mistake
    | .plain text =>
      match a.addPath text with
      | none => .mistake
      | some a => readArguments g rest a
    | .long name (some value) =>
      if g.sizes.contains name then
        match a.addSize name value with
        | none => .mistake
        | some a => readArguments g rest a
      else .mistake
    | .long name none =>
      if name = "help" then .help
      else if g.flags.contains name then
        match a.addFlag name with
        | none => .mistake
        | some a => readArguments g rest a
      else if g.sizes.contains name then
        match rest with
        | [] => .mistake
        | next :: rest =>
          match Argument.ofString next with
          | .plain value =>
            match a.addSize name value with
            | none => .mistake
            | some a => readArguments g rest a
          | _ => .mistake
      else .mistake

def runGrammar : Grammar where
  flags := ["disassemble", "stats", "json"]
  sizes := ["gc-threshold", "gc-increment", "max-stack"]

def disasmGrammar : Grammar where
  flags := ["json"]
  sizes := []

/-- The command to run a program. Statistics are written as JSON only if they are written. -/
def runCommand? (a : Arguments) : Option Command := do
  let path ← a.path
  let options : RunOptions :=
    { disassemble := a.hasFlag "disassemble"
      stats := a.hasFlag "stats"
      json := a.hasFlag "json"
      gcThreshold := a.find? "gc-threshold"
      gcIncrement := a.find? "gc-increment"
      maxStack := a.find? "max-stack" }
  if options.json && !options.stats then none
  return .run path options

def disasmCommand? (a : Arguments) : Option Command := do
  return .disasm (← a.path) (a.hasFlag "json")

/-- What is asked for by the arguments of a command. -/
def request? (help : String) (command? : Arguments → Option Command) :
    Reading → Option Request
  | .mistake => none
  | .help => some (.tell help)
  | .arguments a => (command? a).map .command

/-- The help on a command. -/
def helpOn? : List String → Option Request
  | [] => some (.tell help)
  | ["run"] => some (.tell runHelp)
  | ["disasm"] => some (.tell disasmHelp)
  | ["help"] => some (.tell helpHelp)
  | _ => none

/-- Read a command line. There is no request in one that has a mistake. -/
def parse : List String → Option Request
  | [] => none
  | "run" :: rest => request? runHelp runCommand? (readArguments runGrammar rest {})
  | "disasm" :: rest => request? disasmHelp disasmCommand? (readArguments disasmGrammar rest {})
  | "help" :: rest => helpOn? rest
  | first :: _ =>
    match Argument.ofString first with
    | .short 'h' | .long "help" none => some (.tell help)
    | .short 'V' | .long "version" none => some (.tell version)
    | _ => none

/-- The report on a command line that has a mistake. -/
def usageReport : Report := { exit := 2, stderr := "error: invalid arguments\n" }

end CommandLine

end Bytecode
