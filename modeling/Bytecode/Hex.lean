/-!
# Bytes in hexadecimal digits

Digits are lower-case, and each byte has two of them.
-/

namespace Bytecode

/-- A byte in two hexadecimal digits. -/
def hexByte (byte : UInt8) : String :=
  String.ofList [Nat.digitChar (byte.toNat / 16), Nat.digitChar (byte.toNat % 16)]

namespace Hex

/-- The value of a digit. -/
def digit? (c : Char) : Option Nat :=
  if '0' ≤ c ∧ c ≤ '9' then some (c.toNat - '0'.toNat)
  else if 'a' ≤ c ∧ c ≤ 'f' then some (c.toNat - 'a'.toNat + 10)
  else none

/-- The number that digits stand for, the most significant one first. -/
def number? (digits : List Char) : Option Nat :=
  digits.foldlM (fun n c => (digit? c).map fun d => 16 * n + d) 0

/-- A number in at least so many digits. -/
def ofNat (width n : Nat) : String :=
  String.ofList ((Nat.toDigits 16 n).leftpad width '0')

def encode (bytes : List UInt8) : String := String.join (bytes.map hexByte)

/-- The bytes of a sequence of digits. -/
def bytes? : List Char → Option (List UInt8)
  | [] => some []
  | [_] => none
  | high :: low :: rest => do
    let byte ← number? [high, low]
    return byte.toUInt8 :: (← bytes? rest)

def decode? (text : String) : Option (List UInt8) := bytes? text.toList

end Hex

end Bytecode
