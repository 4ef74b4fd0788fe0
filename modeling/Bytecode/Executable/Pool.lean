import Bytecode.Double.Basic
import Bytecode.Error

/-!
# Constant pools

The literals of a compilation unit. Equal literals share one entry; doubles are equal when
their bits are.
-/

namespace Bytecode

inductive Constant where
  | int (value : Int64)
  | double (value : Double)
  | string (value : String)
  deriving DecidableEq, Repr, Inhabited

/-- The literals in the order in which they were first added. -/
structure ConstantPool where
  constants : Array Constant := #[]
  deriving Repr, Inhabited

namespace ConstantPool

def size (p : ConstantPool) : Nat := p.constants.size

def isEmpty (p : ConstantPool) : Bool := p.constants.isEmpty

/-- The index of a constant, which is appended if it is new. Indices have sixteen bits. -/
def add (c : Constant) (p : ConstantPool) : Except Defect (Nat × ConstantPool) :=
  match p.constants.idxOf? c with
  | some index => .ok (index, p)
  | none =>
    if p.constants.size < 65536 then .ok (p.constants.size, ⟨p.constants.push c⟩)
    else .error .constantPoolOverflow

end ConstantPool

end Bytecode
