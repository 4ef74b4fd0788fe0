import Bytecode.Json.Basic

/-!
# Settings of a machine
-/

namespace Bytecode

/-- The sizes and limits of a machine. -/
structure Config where
  /-- The cells that the stack has at first. -/
  initialStackSize : Nat := 1024
  /-- The cells that the stack may have at most. -/
  maxStackSize : Nat := 1024 * 1024
  /-- The objects above which the first collection is due. -/
  gcThreshold : Nat := 256 * 1024
  /-- What each collection adds to the threshold. -/
  gcThresholdIncrement : Nat := 256 * 1024
  /-- Output is also passed on to the standard output. -/
  echoOutput : Bool := false
  deriving DecidableEq, Repr, Inhabited

namespace Config

def withGcThreshold (threshold increment : Nat) (c : Config) : Config :=
  { c with gcThreshold := threshold, gcThresholdIncrement := increment }

def withEcho (echo : Bool) (c : Config) : Config := { c with echoOutput := echo }

/-- Read settings; every one that is left out has its default. Sizes have 64 bits. -/
def ofJson? (j : Json) : Option Config := do
  let defaults : Config := {}
  let size := Json.toNatBelow? UInt64.size
  let r ← Json.Record.ofJson? ["initial_stack_size", "max_stack_size", "gc_threshold",
    "gc_threshold_increment", "echo_output"] j
  return {
    initialStackSize := ← r.withDefault "initial_stack_size" size defaults.initialStackSize
    maxStackSize := ← r.withDefault "max_stack_size" size defaults.maxStackSize
    gcThreshold := ← r.withDefault "gc_threshold" size defaults.gcThreshold
    gcThresholdIncrement :=
      ← r.withDefault "gc_threshold_increment" size defaults.gcThresholdIncrement
    echoOutput := ← r.withDefault "echo_output" Json.toBool? defaults.echoOutput }

end Config

end Bytecode
