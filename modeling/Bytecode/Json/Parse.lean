import Bytecode.Json.Basic

/-!
# Reading JSON text

`Json.parse?` accepts exactly one value with blanks around it, written by the strict grammar:
no leading zeros, no comma before a closing bracket, no bare control character in a string.
Strings with escapes of surrogates that form no pair are `unreadable`, and so is what lies
deeper than a given number of arrays and objects; the grammar holds for them too.
-/

namespace Bytecode.Json

/-- A reader consumes characters from the front and yields a value and what is left. -/
abbrev Reader (α : Type) := List Char → Option (α × List Char)

namespace Reader

def isBlank (c : Char) : Bool := c = ' ' ∨ c = '\n' ∨ c = '\t' ∨ c = '\r'

def skipBlanks (cs : List Char) : List Char := cs.dropWhile isBlank

/-- Consume one given character after blanks. -/
def expect (c : Char) (cs : List Char) : Option (List Char) :=
  match skipBlanks cs with
  | d :: rest => if d = c then some rest else none
  | [] => none

/-- Consume a given word. -/
def word (w : List Char) (cs : List Char) : Option (List Char) :=
  if w.isPrefixOf cs then some (cs.drop w.length) else none

/-! ### Numbers -/

def digitValue (c : Char) : Nat := c.toNat - '0'.toNat

/-- The digits at the front. -/
def digits (cs : List Char) : List Nat × List Char :=
  ((cs.takeWhile Char.isDigit).map digitValue, cs.dropWhile Char.isDigit)

/-- The digits before the point: a zero stands alone. -/
def whole : Reader (List Nat)
  | '0' :: rest => some ([0], rest)
  | cs =>
    match digits cs with
    | ([], _) => none
    | (ds, rest) => some (ds, rest)

/-- A point and at least one digit, or nothing. -/
def fraction : Reader (List Nat)
  | '.' :: cs =>
    match digits cs with
    | ([], _) => none
    | (ds, rest) => some (ds, rest)
  | cs => some ([], cs)

def sign : List Char → Bool × List Char
  | '-' :: rest => (true, rest)
  | '+' :: rest => (false, rest)
  | cs => (false, cs)

/-- The mark of an exponent, an optional sign and at least one digit, or nothing. -/
def exponent : Reader (Option Int)
  | [] => some (none, [])
  | c :: cs =>
    if c = 'e' ∨ c = 'E' then
      let (negative, cs) := sign cs
      match digits cs with
      | ([], _) => none
      | (ds, rest) =>
        let n : Int := Number.natOfDigits ds
        some (some (if negative then -n else n), rest)
    else some (none, c :: cs)

def number (cs : List Char) : Option (Number × List Char) := do
  let (negative, cs) := match cs with
    | '-' :: rest => (true, rest)
    | cs => (false, cs)
  let (whole, cs) ← whole cs
  let (fraction, cs) ← fraction cs
  let (exponent, cs) ← exponent cs
  return (⟨negative, whole, fraction, exponent⟩, cs)

/-! ### Strings -/

def hexValue? (c : Char) : Option Nat :=
  if c.isDigit then some (c.toNat - '0'.toNat)
  else if 'a' ≤ c ∧ c ≤ 'f' then some (c.toNat - 'a'.toNat + 10)
  else if 'A' ≤ c ∧ c ≤ 'F' then some (c.toNat - 'A'.toNat + 10)
  else none

/-- The number written in four hexadecimal digits. -/
def hexUnit? (a b c d : Char) : Option Nat := do
  let a ← hexValue? a
  let b ← hexValue? b
  let c ← hexValue? c
  let d ← hexValue? d
  return ((a * 16 + b) * 16 + c) * 16 + d

/-- The first half of a pair of surrogates. -/
def isHighSurrogate (unit : Nat) : Bool := 0xD800 ≤ unit ∧ unit < 0xDC00

def isLowSurrogate (unit : Nat) : Bool := 0xDC00 ≤ unit ∧ unit < 0xE000

/-- The character that a pair of surrogates stands for. -/
def joinSurrogates (high low : Nat) : Char :=
  Char.ofNat (0x10000 + (high - 0xD800) * 0x400 + (low - 0xDC00))

/-- The character of an escape with one letter. -/
def escape? : Char → Option Char
  | '"' => some '"'
  | '\\' => some '\\'
  | '/' => some '/'
  | 'b' => some '\x08'
  | 'f' => some '\x0c'
  | 'n' => some '\n'
  | 'r' => some '\r'
  | 't' => some '\t'
  | _ => none

/-- The rest of a string after its opening quote. `seen` holds the characters before,
backwards, and `high` the first half of a pair of surrogates whose second half should follow.
There is no text from the first half on that stands alone. -/
def stringTail (seen : Option (List Char)) (high : Option Nat) :
    List Char → Option (Option String × List Char)
  | '\\' :: 'u' :: a :: b :: c :: d :: rest =>
    match hexUnit? a b c d, high with
    | none, _ => none
    | some unit, some first =>
      if isLowSurrogate unit then
        stringTail (seen.map fun cs => joinSurrogates first unit :: cs) none rest
      else stringTail none none rest
    | some unit, none =>
      if isHighSurrogate unit then stringTail seen (some unit) rest
      else if isLowSurrogate unit then stringTail none none rest
      else stringTail (seen.map fun cs => Char.ofNat unit :: cs) none rest
  | '\\' :: c :: rest =>
    match escape? c, high with
    | none, _ => none
    | some d, none => stringTail (seen.map fun cs => d :: cs) none rest
    | some _, some _ => stringTail none none rest
  | c :: rest =>
    if c = '"' then
      some (if high.isSome then none else seen.map fun cs => String.ofList cs.reverse, rest)
    else if c = '\\' ∨ c.toNat < 0x20 then none
    else stringTail (if high.isSome then none else seen.map fun cs => c :: cs) none rest
  | [] => none

/-- A string after blanks. -/
def string (cs : List Char) : Option (Option String × List Char) :=
  (expect '"' cs).bind (stringTail (some []) none)

/-- The name of a member, and the colon after it. -/
def name (cs : List Char) : Option (Option String × List Char) := do
  let (name, rest) ← string cs
  return (name, ← expect ':' rest)

/-! ### Values -/

/-- A value that is neither an array nor an object. -/
def scalar : Reader Json
  | 'n' :: rest => (word ['u', 'l', 'l'] rest).map fun rest => (.null, rest)
  | 't' :: rest => (word ['r', 'u', 'e'] rest).map fun rest => (.bool true, rest)
  | 'f' :: rest => (word ['a', 'l', 's', 'e'] rest).map fun rest => (.bool false, rest)
  | '"' :: rest =>
    (stringTail (some []) none rest).map fun (text, rest) =>
      (match text with
        | some s => .str s
        | none => .unreadable, rest)
  | cs => (number cs).map fun (n, rest) => (.num n, rest)

/-- What has been opened and not yet closed. -/
inductive Bracket where
  | array
  | object
  deriving DecidableEq, Repr

/-- Where a scan is. -/
inductive Place where
  | beforeValue
  | beforeName
  | afterValue
  deriving DecidableEq, Repr

/-- Scan a value of which nothing is kept, to its end. `outer` holds the open brackets,
innermost first. Each step but the last consumes a character, and `fuel` bounds the steps. -/
def skip (fuel : Nat) (place : Place) (outer : List Bracket) (cs : List Char) :
    Option (List Char) :=
  match fuel with
  | 0 => none
  | fuel + 1 =>
    match place with
    | .beforeName =>
      match name cs with
      | none => none
      | some (_, rest) => skip fuel .beforeValue outer rest
    | .beforeValue =>
      match skipBlanks cs with
      | '[' :: rest =>
        match skipBlanks rest with
        | ']' :: rest => skip fuel .afterValue outer rest
        | rest => skip fuel .beforeValue (.array :: outer) rest
      | '\x7b' :: rest =>
        match skipBlanks rest with
        | '\x7d' :: rest => skip fuel .afterValue outer rest
        | rest => skip fuel .beforeName (.object :: outer) rest
      | cs =>
        match scalar cs with
        | none => none
        | some (_, rest) => skip fuel .afterValue outer rest
    | .afterValue =>
      match outer with
      | [] => some cs
      | .array :: further =>
        match skipBlanks cs with
        | ',' :: rest => skip fuel .beforeValue (.array :: further) rest
        | ']' :: rest => skip fuel .afterValue further rest
        | _ => none
      | .object :: further =>
        match skipBlanks cs with
        | ',' :: rest => skip fuel .beforeName (.object :: further) rest
        | '\x7d' :: rest => skip fuel .afterValue further rest
        | _ => none

mutual

/-- A value after blanks. `fuel` bounds the characters still to be read, and `levels` the
arrays and objects inside one another of which something is kept. -/
def value (fuel levels : Nat) (cs : List Char) : Option (Json × List Char) :=
  match fuel with
  | 0 => none
  | fuel + 1 =>
    match skipBlanks cs with
    | '[' :: rest =>
      if levels = 0 then
        (skip fuel .beforeValue [] ('[' :: rest)).map fun rest => (.unreadable, rest)
      else
        match skipBlanks rest with
        | ']' :: rest => some (.arr [], rest)
        | rest => items fuel (levels - 1) [] rest
    | '\x7b' :: rest =>
      if levels = 0 then
        (skip fuel .beforeValue [] ('\x7b' :: rest)).map fun rest => (.unreadable, rest)
      else
        match skipBlanks rest with
        | '\x7d' :: rest => some (.obj [], rest)
        | rest => members fuel (levels - 1) (some []) rest
    | cs => scalar cs

/-- An array from its first or a further item on; `seen` holds the items before, backwards. -/
def items (fuel levels : Nat) (seen : List Json) (cs : List Char) :
    Option (Json × List Char) :=
  match fuel with
  | 0 => none
  | fuel + 1 =>
    match value fuel levels cs with
    | none => none
    | some (j, rest) =>
      match skipBlanks rest with
      | ',' :: rest => items fuel levels (j :: seen) rest
      | ']' :: rest => some (.arr (j :: seen).reverse, rest)
      | _ => none

/-- An object from its first or a further member on; `seen` holds the members before,
backwards, if their names are readable. -/
def members (fuel levels : Nat) (seen : Option (List (String × Json))) (cs : List Char) :
    Option (Json × List Char) :=
  match fuel with
  | 0 => none
  | fuel + 1 =>
    match name cs with
    | none => none
    | some (name, rest) =>
      match value fuel levels rest with
      | none => none
      | some (j, rest) =>
        let seen := name.bind fun name => seen.map fun ms => (name, j) :: ms
        match skipBlanks rest with
        | ',' :: rest => members fuel levels seen rest
        | '\x7d' :: rest =>
          some (match seen with
            | some ms => .obj ms.reverse
            | none => .unreadable, rest)
        | _ => none

end

end Reader

/-- Read a text that holds one value. What lies deeper than `levels` arrays and objects is
unreadable. -/
def parse? (levels : Nat) (text : String) : Option Json :=
  let cs := text.toList
  match Reader.value (cs.length + 2) levels cs with
  | some (j, rest) => if (Reader.skipBlanks rest).isEmpty then some j else none
  | none => none

end Bytecode.Json
