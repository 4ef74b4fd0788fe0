import Bytecode.Json.Basic

/-!
# Writing JSON text

`Json.compact` writes a value on one line, `Json.pretty` one item or member to a line with an
indentation of two blanks. In strings only quotes, backslashes and control characters are
escaped. An exponent has a sign.
-/

namespace Bytecode.Json

namespace Number

/-- The text of a number. -/
def render (n : Number) : String :=
  let digits (ds : List Nat) : String := String.ofList (ds.map Nat.digitChar)
  let sign := if n.negative then "-" else ""
  let fraction := if n.fraction.isEmpty then "" else "." ++ digits n.fraction
  let exponent := match n.exponent with
    | none => ""
    | some e => (if e < 0 then "e" else "e+") ++ toString e
  sign ++ digits n.whole ++ fraction ++ exponent

end Number

/-- The shortest number that is read as a double; there is none for an infinity or a NaN,
which are written `null`. -/
def ofDouble (x : Double) : Json :=
  if x.isNaN ∨ x.isInfinite then .null
  else
    let d := x.shortest Layout.json.tie
    let e := d.leadingExponent
    let values := Number.digitValues d.digits
    if Layout.json.positional e then
      if e < 0 then
        .num ⟨x.isNegative, [0], List.replicate (-e - 1).toNat 0 ++ values, none⟩
      else
        let n := e.toNat + 1
        let whole := values.take n ++ List.replicate (n - values.length) 0
        let fraction := if n < values.length then values.drop n else [0]
        .num ⟨x.isNegative, whole, fraction, none⟩
    else
      match values with
      | [] => .null
      | leading :: rest => .num ⟨x.isNegative, [leading], rest, some e⟩

def hexDigit (n : Nat) : Char := Nat.digitChar n

/-- A character inside a string. -/
def escapeChar (c : Char) : List Char :=
  if c = '"' then ['\\', '"']
  else if c = '\\' then ['\\', '\\']
  else if c = '\n' then ['\\', 'n']
  else if c = '\r' then ['\\', 'r']
  else if c = '\t' then ['\\', 't']
  else if c = '\x08' then ['\\', 'b']
  else if c = '\x0c' then ['\\', 'f']
  else if c.toNat < 0x20 then
    ['\\', 'u', '0', '0', hexDigit (c.toNat / 16), hexDigit (c.toNat % 16)]
  else [c]

def quote (s : String) : String :=
  String.ofList ('"' :: s.toList.flatMap escapeChar ++ ['"'])

/-- A text for an unreadable value, which reads as such: half of a pair of surrogates. -/
def unreadableText : String := "\"\\ud800\""

mutual

/-- A value on one line. -/
def compact : Json → String
  | .null => "null"
  | .bool b => if b then "true" else "false"
  | .num n => n.render
  | .str s => quote s
  | .arr items => "[" ++ String.intercalate "," (compactItems items) ++ "]"
  | .obj members => "\x7b" ++ String.intercalate "," (compactMembers members) ++ "\x7d"
  | .unreadable => unreadableText

def compactItems : List Json → List String
  | [] => []
  | item :: rest => item.compact :: compactItems rest

def compactMembers : List (String × Json) → List String
  | [] => []
  | (name, value) :: rest => (quote name ++ ":" ++ value.compact) :: compactMembers rest

end

/-- A new line with the given depth of indentation. -/
def newline (depth : Nat) : String := "\n" ++ String.ofList (List.replicate (2 * depth) ' ')

/-- Parts between brackets, each on a line of its own. -/
def block (opening closing : String) (depth : Nat) (parts : List String) : String :=
  if parts.isEmpty then opening ++ closing
  else
    opening ++ newline (depth + 1) ++ String.intercalate ("," ++ newline (depth + 1)) parts
      ++ newline depth ++ closing

mutual

/-- A value spread over lines, the first of which is indented already. -/
def prettyAt (depth : Nat) : Json → String
  | .arr items => block "[" "]" depth (prettyItems (depth + 1) items)
  | .obj members => block "\x7b" "\x7d" depth (prettyMembers (depth + 1) members)
  | .null => "null"
  | .bool b => if b then "true" else "false"
  | .num n => n.render
  | .str s => quote s
  | .unreadable => unreadableText

def prettyItems (depth : Nat) : List Json → List String
  | [] => []
  | item :: rest => item.prettyAt depth :: prettyItems depth rest

def prettyMembers (depth : Nat) : List (String × Json) → List String
  | [] => []
  | (name, value) :: rest =>
    (quote name ++ ": " ++ value.prettyAt depth) :: prettyMembers depth rest

end

/-- A value spread over lines. -/
def pretty (j : Json) : String := j.prettyAt 0

end Bytecode.Json
