import Bytecode.Double.Basic

/-!
# The shortest decimal of a double

A finite positive double is the nearest double of every real in an interval around it. Its
shortest decimal is the one with the fewest digits in that interval, and the nearest to the
double among those. `Double.shortest` finds it by trying one digit, two digits and so on; at
each length only the two decimals around the double can be the answer.
-/

namespace Bytecode

/-- The decimal `digits * 10 ^ exponent`. -/
structure Decimal where
  digits : Nat
  exponent : Int
  deriving DecidableEq, Repr

namespace Decimal

/-- The digits, most significant first; a zero has one. -/
def digitList (d : Decimal) : List Char := Nat.toDigits 10 d.digits

/-- The power of ten of the leading digit. -/
def leadingExponent (d : Decimal) : Int := d.exponent + (d.digitList.length - 1 : Nat)

end Decimal

/-- Which of two equally near decimals is taken. -/
inductive Tie where
  /-- The larger one. -/
  | up
  /-- The one whose last digit is even. -/
  | even
  deriving DecidableEq, Repr

/-- The lower of two equally near decimals, with the given digits, is taken. -/
def Tie.takesLower (tie : Tie) (digits : Nat) : Bool :=
  match tie with
  | .up => false
  | .even => digits % 2 = 0

/-- The reals `n / den` with `low ≤ n ≤ high` that round to the double `middle / den`.
The end points belong to it when `closed` holds. -/
structure RoundingInterval where
  low : Nat
  middle : Nat
  high : Nat
  den : Nat
  closed : Bool

namespace RoundingInterval

/-- The interval of a finite positive double: half a unit on either side, and a quarter below
a power of two, where the doubles are twice as dense. -/
def ofDouble (x : Double) : RoundingInterval :=
  let m := x.mantissa
  let below := if x.fractionField = 0 ∧ 1 < x.exponentField then 1 else 2
  let num := 1 <<< (x.scale - 2).toNat
  { low := (4 * m - below) * num
    middle := 4 * m * num
    high := (4 * m + 2) * num
    den := 1 <<< (2 - x.scale).toNat
    closed := m % 2 = 0 }

/-- The real `a / b` lies in the interval. -/
def contains (i : RoundingInterval) (a b : Nat) : Bool :=
  if i.closed then i.low * b ≤ a * i.den ∧ a * i.den ≤ i.high * b
  else i.low * b < a * i.den ∧ a * i.den < i.high * b

/-- The power of ten of the leading digit of the middle. -/
def magnitude (i : RoundingInterval) : Int :=
  let guess : Int := ((i.middle.log2 : Int) - i.den.log2) * 30103 / 100000 - 1
  let reaches (e : Int) : Bool := Nat.pow 10 e.toNat * i.den ≤ i.middle * Nat.pow 10 (-e).toNat
  if reaches (guess + 2) then guess + 2 else if reaches (guess + 1) then guess + 1 else guess

/-- The nearest decimal in the interval that is a whole multiple of `10 ^ e`, if there is one. -/
def nearest? (tie : Tie) (i : RoundingInterval) (e : Int) : Option Decimal :=
  let up := Nat.pow 10 e.toNat
  let down := Nat.pow 10 (-e).toNat
  let d := i.middle * down / (i.den * up)
  let lower := i.contains (d * up) down
  let upper := i.contains ((d + 1) * up) down
  let twice := 2 * i.middle * down
  let center := (2 * d + 1) * up * i.den
  let nearLower := twice < center ∨ (twice = center ∧ tie.takesLower d)
  if upper ∧ ¬(lower ∧ nearLower) then some ⟨d + 1, e⟩
  else if lower then some ⟨d, e⟩
  else none

/-- Try the decimals with the leading digit at `10 ^ e`, then those with one digit more. -/
def firstHit (tie : Tie) (i : RoundingInterval) : Nat → Int → Decimal
  | 0, e => ⟨i.middle / i.den, e⟩
  | fuel + 1, e => (i.nearest? tie e).getD (i.firstHit tie fuel (e - 1))

end RoundingInterval

namespace Decimal

/-- The same number without a final zero among its digits. -/
def dropZero (d : Decimal) : Decimal :=
  if d.digits % 10 = 0 then ⟨d.digits / 10, d.exponent + 1⟩ else d

end Decimal

/-- The shortest decimal of the magnitude of a finite double. Seventeen digits always suffice. -/
def Double.shortest (tie : Tie) (x : Double) : Decimal :=
  if x.isZero then ⟨0, 0⟩
  else
    let i := RoundingInterval.ofDouble x
    (i.firstHit tie 18 i.magnitude).dropZero

end Bytecode
