/-!
# Doubles as bit patterns

A `Double` is an IEEE 754 binary64 number given by its 64 bits, so signed zeros and the
payloads of NaNs are told apart. A finite number is `± mantissa * 2 ^ scale`.

The sum, difference, product, quotient and square root round to nearest, as `Float` does;
what they do to a NaN is settled here: the first NaN operand is passed on, made quiet, and
an operation that has no result yields `Double.invalid`.
-/

namespace Bytecode

/-- A binary64 number, held as its bit pattern. -/
structure Double where
  bits : UInt64
  deriving DecidableEq, Inhabited, Repr

namespace Double

/-- Positive zero. -/
def zero : Double := ⟨0⟩

def one : Double := ⟨0x3ff0000000000000⟩

/-- The NaN produced by an operation that has no result, such as zero over zero. -/
def invalid : Double := ⟨0xfff8000000000000⟩

def isNegative (x : Double) : Bool := 0x8000000000000000 ≤ x.bits

/-- The eleven exponent bits. -/
def exponentField (x : Double) : Nat := (x.bits.toNat >>> 52) % 2048

/-- The low 52 bits. -/
def fractionField (x : Double) : Nat := x.bits.toNat % (1 <<< 52)

def isNaN (x : Double) : Bool := x.exponentField = 2047 ∧ x.fractionField ≠ 0

def isInfinite (x : Double) : Bool := x.exponentField = 2047 ∧ x.fractionField = 0

/-- Either zero. -/
def isZero (x : Double) : Bool := x.exponentField = 0 ∧ x.fractionField = 0

/-- The whole number that the power of two `2 ^ scale` multiplies. -/
def mantissa (x : Double) : Nat :=
  if x.exponentField = 0 then x.fractionField else x.fractionField + (1 <<< 52)

def scale (x : Double) : Int := (max x.exponentField 1 : Nat) - 1075

def toFloat (x : Double) : Float := Float.ofBits x.bits

/-- The bits of a computed number; every NaN that a computation makes is `invalid`. -/
def ofFloat (f : Float) : Double := if f.isNaN then invalid else ⟨f.toBits⟩

/-- A NaN with its quiet bit set. -/
def quiet (x : Double) : Double := ⟨x.bits ||| 0x0008000000000000⟩

/-- Apply `f` to two numbers, neither of which is a NaN; otherwise pass on the first NaN. -/
def lift₂ (f : Double → Double → Double) (x y : Double) : Double :=
  if x.isNaN then x.quiet else if y.isNaN then y.quiet else f x y

def add : Double → Double → Double := lift₂ fun x y => ofFloat (x.toFloat + y.toFloat)

def sub : Double → Double → Double := lift₂ fun x y => ofFloat (x.toFloat - y.toFloat)

def mul : Double → Double → Double := lift₂ fun x y => ofFloat (x.toFloat * y.toFloat)

def div : Double → Double → Double := lift₂ fun x y => ofFloat (x.toFloat / y.toFloat)

/-- The opposite sign, also of a zero and of a NaN. -/
def neg (x : Double) : Double := ⟨x.bits ^^^ 0x8000000000000000⟩

def sqrt (x : Double) : Double := if x.isNaN then x.quiet else ofFloat x.toFloat.sqrt

/-- The number `± n * 2 ^ e`, for `n < 2 ^ 53` and `-1074 ≤ e`, which is represented exactly. -/
def ofScaled (negative : Bool) (n : Nat) (e : Int) : Double :=
  let shift := min (52 - n.log2) (e + 1074).toNat
  let m := n <<< shift
  let exponent := (e - shift + 1075).toNat
  let magnitude := if m < (1 <<< 52) then m else (exponent <<< 52) + (m - (1 <<< 52))
  ⟨(if negative then 0x8000000000000000 else 0) ||| magnitude.toUInt64⟩

/-- The exact remainder of the division truncated toward zero, with the sign of the dividend. -/
def rem : Double → Double → Double :=
  lift₂ fun x y =>
    if x.isInfinite ∨ y.isZero then invalid
    else if y.isInfinite then x
    else
      let e := min x.scale y.scale
      let a := x.mantissa <<< (x.scale - e).toNat
      let b := y.mantissa <<< (y.scale - e).toNat
      ofScaled x.isNegative (a % b) e

/-- Equality of numbers: the two zeros are equal, a NaN equals nothing. -/
def eq (x y : Double) : Bool := x.toFloat == y.toFloat

def lt (x y : Double) : Bool := x.toFloat < y.toFloat

def le (x y : Double) : Bool := x.toFloat ≤ y.toFloat

/-- The double nearest to an integer. -/
def ofInt64 (i : Int64) : Double := ⟨(Float.ofInt i.toInt).toBits⟩

/-- The integer part of the magnitude. -/
def wholePart (x : Double) : Nat :=
  if 0 ≤ x.scale then x.mantissa <<< x.scale.toNat else x.mantissa >>> (-x.scale).toNat

/-- Truncate toward zero. Numbers beyond the range go to its nearer end, and a NaN to zero. -/
def toInt64 (x : Double) : Int64 :=
  if x.isNaN then 0
  else if x.isNegative then Int64.ofInt (max (-x.wholePart) Int64.minValue.toInt)
  else Int64.ofInt (min x.wholePart Int64.maxValue.toInt)

end Double

end Bytecode
