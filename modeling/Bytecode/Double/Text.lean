import Bytecode.Double.Shortest

/-!
# Doubles in decimal text

`Layout` says how the shortest decimal of a double is set out; `Layout.plain` is the text of
a number converted to a string, `Layout.listing` that of a constant in a listing, and
`Layout.json` that of a number in JSON.

`Double.ofDecimalDigits?` reads a decimal: the leading digits that fit a 64-bit word are
rounded to a double, which is then multiplied or divided by a power of ten.
-/

namespace Bytecode

/-- How a finite number is set out. -/
structure Layout where
  /-- The powers of ten of the leading digit for which no exponent is written. -/
  positional : Int → Bool
  /-- A whole number written without an exponent ends in `.0`. -/
  fraction : Bool
  /-- How the shortest decimal is chosen where two are equally near. -/
  tie : Tie := .up

namespace Layout

/-- All digits are written out, and a whole number has no point. -/
def plain : Layout where
  positional _ := true
  fraction := false

/-- Numbers below `1e-4` and from `1e16` on have an exponent. -/
def listing : Layout where
  positional e := -4 ≤ e ∧ e < 16
  fraction := true

/-- Numbers below `1e-5` and from `1e16` on have an exponent. -/
def json : Layout where
  positional e := -5 ≤ e ∧ e < 16
  fraction := true
  tie := .even

/-- Digits with the point after the first `1 + e` of them, zeros filling up on either side. -/
def positionalText (fraction : Bool) (digits : List Char) (e : Int) : List Char :=
  if e < 0 then '0' :: '.' :: (List.replicate (-e - 1).toNat '0' ++ digits)
  else
    let n := e.toNat + 1
    let whole := digits.take n ++ List.replicate (n - digits.length) '0'
    if n < digits.length then whole ++ '.' :: digits.drop n
    else if fraction then whole ++ ['.', '0']
    else whole

/-- One digit before the point, and the power of ten after an `e`. -/
def exponentText (digits : List Char) (e : Int) : List Char :=
  let mantissa := match digits with
    | d :: rest@(_ :: _) => d :: '.' :: rest
    | short => short
  mantissa ++ 'e' :: (toString e).toList

/-- The magnitude of a finite number. -/
def magnitudeText (layout : Layout) (d : Decimal) : List Char :=
  let e := d.leadingExponent
  if layout.positional e then positionalText layout.fraction d.digitList e
  else exponentText d.digitList e

/-- The text of a double. -/
def render (layout : Layout) (x : Double) : String :=
  if x.isNaN then "NaN"
  else
    let sign := if x.isNegative then ['-'] else []
    let magnitude :=
      if x.isInfinite then ['i', 'n', 'f'] else layout.magnitudeText (x.shortest layout.tie)
    String.ofList (sign ++ magnitude)

end Layout

namespace Double

/-- The double nearest to `10 ^ n`, for `n ≤ 308`. -/
def tenPower (n : Nat) : Float := Float.ofScientific 1 false n

/-- Divide by `10 ^ e` in steps of at most `1e308`. -/
def divTenPower (f : Float) (e : Nat) : Float :=
  if e ≤ 308 then f / tenPower e
  else if f == 0.0 then f
  else divTenPower (f / tenPower 308) (e - 308)
termination_by e

/-- The double read for `n * 10 ^ e`; there is none when it would be infinite. -/
def ofScientific? (n : Nat) (e : Int) : Option Double :=
  let f := Float.ofNat n
  if e < 0 then some ⟨(divTenPower f (-e).toNat).toBits⟩
  else if e ≤ 308 then
    let product := f * tenPower e.toNat
    if product.isInf then none else some ⟨product.toBits⟩
  else if f == 0.0 then some zero
  else none

/-- Append a digit, unless the number would no longer fit a 64-bit word. -/
def pushDigit? (n digit : Nat) : Option Nat :=
  if n * 10 + digit < UInt64.size then some (n * 10 + digit) else none

/-- Take up the digits before the point. From the first one that does not fit on, each digit
only raises the power of ten. -/
def takeWhole : List Nat → Nat → Nat × Nat
  | [], n => (n, 0)
  | digit :: rest, n =>
    match pushDigit? n digit with
    | some n => takeWhole rest n
    | none => (n, rest.length + 1)

/-- Take up the digits after the point, as many as fit, and count them. -/
def takeFraction : List Nat → Nat → Nat × Nat
  | [], n => (n, 0)
  | digit :: rest, n =>
    match pushDigit? n digit with
    | some n => let (m, count) := takeFraction rest n; (m, count + 1)
    | none => (n, 0)

/-- The double read for a decimal with the given digits before and after the point and the
given power of ten. -/
def ofDecimalDigits? (negative : Bool) (whole fraction : List Nat) (exponent : Int) :
    Option Double :=
  let (n, raised) := takeWhole whole 0
  let (n, lowered) := takeFraction fraction n
  (ofScientific? n (raised - lowered + exponent)).map fun x => if negative then x.neg else x

end Double

end Bytecode
