/-!
# Frames

The frame of a call has its parameters, then one call record, then its locals. Slots number
parameters and locals through; offsets count cells from the base of the frame.
-/

namespace Bytecode

namespace Frame

/-- The cells between the parameters and the locals. -/
def recordSize : Nat := 1

/-- The offset of the call record in a frame with so many parameters. -/
def recordOffset (paramCount : Nat) : Nat := paramCount

/-- The offset of a slot in a frame with so many parameters. -/
def slotOffset (paramCount slot : Nat) : Nat :=
  if slot < paramCount then slot else slot + recordSize

end Frame

end Bytecode
