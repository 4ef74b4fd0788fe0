import Bytecode.Double.Basic

/-!
# Values

A `Value` is what a slot holds: a 64-bit word, read as an integer, a truth value or a double by
the instruction that takes it, or a reference. Only references are told apart from words at
run time, since the collector follows them; a reference still reads as a word, its index or
all ones for null.
-/

namespace Bytecode

/-- The name of a heap object: a 32-bit index. -/
structure Handle where
  word : UInt32
  deriving DecidableEq, Repr, Inhabited

namespace Handle

def ofIndex (index : Nat) : Handle := ⟨index.toUInt32⟩

def index (h : Handle) : Nat := h.word.toNat

@[simp] theorem index_ofIndex {n : Nat} (h : n < 1 <<< 32) : (ofIndex n).index = n := by
  simp only [ofIndex, index, Nat.toUInt32, UInt32.toNat_ofNat']
  omega

end Handle

/-- The contents of a slot. -/
inductive Value where
  | word (bits : UInt64)
  | null
  | ref (handle : Handle)
  deriving DecidableEq, Repr

namespace Value

def zero : Value := .word 0

instance : Inhabited Value := ⟨zero⟩

def ofInt (i : Int64) : Value := .word i.toUInt64

def ofNat (n : Nat) : Value := .word n.toUInt64

def ofBool (b : Bool) : Value := .word (if b then 1 else 0)

def ofDouble (x : Double) : Value := .word x.bits

def ofHandle? : Option Handle → Value
  | none => .null
  | some h => .ref h

/-- The value read as a word. -/
def bits : Value → UInt64
  | .word bits => bits
  | .null => 0xffffffffffffffff
  | .ref h => h.index.toUInt64

def toInt (v : Value) : Int64 := v.bits.toInt64

def toBool (v : Value) : Bool := v.bits != 0

def toDouble (v : Value) : Double := ⟨v.bits⟩

/-- The object referred to. -/
def handle? : Value → Option Handle
  | .ref h => some h
  | _ => none

def isReference : Value → Bool
  | .word _ => false
  | .null | .ref _ => true

def isNull : Value → Bool
  | .null => true
  | _ => false

/-- A description for debugging. -/
def describe : Value → String
  | .word bits => "Scalar(0x" ++ String.ofList (Nat.toDigits 16 bits.toNat) ++ ")"
  | .null => "Null"
  | .ref h => s!"Object(#{h.index})"

end Value

end Bytecode
