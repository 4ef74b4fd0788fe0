import Bytecode.Double.Text

/-!
# JSON values

A number is kept as it is written, since an integer is told from a fraction by its form:
`1` is an integer and `1.0` is not. An object keeps its members in order, repeated names
included. A text may hold values of which nothing can be kept; they are well-formed and may
stand where nobody looks, but no reader accepts them. `Json.Record` and `Json.Variant` say which values stand for a record with named
fields and for a tagged alternative.
-/

namespace Bytecode

namespace Json

/-- A number as written: a sign, the digits before and after the point, a power of ten. -/
structure Number where
  negative : Bool
  whole : List Nat
  fraction : List Nat
  exponent : Option Int
  deriving DecidableEq, Repr, Inhabited

namespace Number

/-- The values of the digits of a natural number, most significant first. -/
def digitValues (n : Nat) : List Nat := (Nat.toDigits 10 n).map fun c => c.toNat - '0'.toNat

/-- The natural number with the given digits. -/
def natOfDigits (digits : List Nat) : Nat := digits.foldl (fun n d => n * 10 + d) 0

def ofInt (i : Int) : Number := ⟨i < 0, digitValues i.natAbs, [], none⟩

/-- The integer that is written without point and exponent. A minus sign before a zero makes
a fraction of it. -/
def toInt? (n : Number) : Option Int :=
  let magnitude := natOfDigits n.whole
  if n.fraction = [] ∧ n.exponent = none ∧ ¬(n.negative ∧ magnitude = 0) then
    some (if n.negative then -magnitude else magnitude)
  else none

/-- The double that a number is read as; there is none for a number out of range. -/
def toDouble? (n : Number) : Option Double :=
  Double.ofDecimalDigits? n.negative n.whole n.fraction (n.exponent.getD 0)

end Number

end Json

/-- A JSON value. -/
inductive Json where
  | null
  | bool (value : Bool)
  | num (value : Json.Number)
  | str (value : String)
  | arr (items : List Json)
  | obj (members : List (String × Json))
  /-- A string with half of a pair of surrogates, an object with such a name, or a value that
  is nested too deep. -/
  | unreadable
  deriving BEq, Repr, Inhabited

namespace Json

def ofInt (i : Int) : Json := .num (.ofInt i)

def ofNat (n : Nat) : Json := ofInt n

/-- An optional value: nothing is `null`. -/
def ofOption {α : Type} (f : α → Json) : Option α → Json
  | none => .null
  | some a => f a

def ofList {α : Type} (f : α → Json) (items : List α) : Json := .arr (items.map f)

/-- An object with one member, the form of a tagged alternative. -/
def tagged (tag : String) (payload : Json) : Json := .obj [(tag, payload)]

mutual

/-- The depth of nested arrays and objects. -/
def nesting : Json → Nat
  | .arr items => nestingItems items + 1
  | .obj members => nestingMembers members + 1
  | _ => 0

def nestingItems : List Json → Nat
  | [] => 0
  | item :: rest => max item.nesting (nestingItems rest)

def nestingMembers : List (String × Json) → Nat
  | [] => 0
  | (_, value) :: rest => max value.nesting (nestingMembers rest)

end

/-! ### Reading scalars -/

def toBool? : Json → Option Bool
  | .bool b => some b
  | _ => none

def toString? : Json → Option String
  | .str s => some s
  | _ => none

/-- An integer from `low` to `high`. -/
def toIntIn? (low high : Int) : Json → Option Int
  | .num n => n.toInt?.filter fun i => low ≤ i ∧ i ≤ high
  | _ => none

/-- A natural number below `bound`. -/
def toNatBelow? (bound : Nat) (j : Json) : Option Nat :=
  (j.toIntIn? 0 (bound - 1 : Nat)).map Int.toNat

def toUInt16? (j : Json) : Option UInt16 := (j.toNatBelow? UInt16.size).map Nat.toUInt16

def toUInt32? (j : Json) : Option UInt32 := (j.toNatBelow? UInt32.size).map Nat.toUInt32

def toInt64? (j : Json) : Option Int64 :=
  (j.toIntIn? Int64.minValue.toInt Int64.maxValue.toInt).map Int64.ofInt

/-- Any number in range, integers too. -/
def toDouble? : Json → Option Double
  | .num n => n.toDouble?
  | _ => none

/-- An array with every item read. -/
def toList? {α : Type} (read : Json → Option α) : Json → Option (List α)
  | .arr items => items.mapM read
  | _ => none

/-- A value or `null`. -/
def toOption? {α : Type} (read : Json → Option α) : Json → Option (Option α)
  | .null => some none
  | j => (read j).map some

/-! ### Records -/

/-- The fields present in a record. The form `positional` gives the first fields in their
order and leaves out the others; the other form names them. -/
structure Record where
  positional : Bool
  fields : List (String × Json)

namespace Record

/-- Read a record with the given field names: an array of at most so many values, or an object
in which none of the names is repeated. Other members are ignored. -/
def ofJson? (names : List String) : Json → Option Record
  | .arr items => if items.length ≤ names.length then some ⟨true, names.zip items⟩ else none
  | .obj members =>
    let known := members.filter fun m => names.contains m.1
    if (known.map Prod.fst).Nodup then some ⟨false, known⟩ else none
  | _ => none

def find? (r : Record) (name : String) : Option Json := r.fields.lookup name

/-- A field that must be present. -/
def required {α : Type} (r : Record) (name : String) (read : Json → Option α) : Option α :=
  (r.find? name).bind read

/-- A field with a value of its own when it is left out. -/
def withDefault {α : Type} (r : Record) (name : String) (read : Json → Option α) (default : α) :
    Option α :=
  match r.find? name with
  | none => some default
  | some j => read j

/-- An optional field: `null` is nothing, and so is a name left out of an object. -/
def optional {α : Type} (r : Record) (name : String) (read : Json → Option α) :
    Option (Option α) :=
  match r.find? name with
  | none => if r.positional then none else some none
  | some j => j.toOption? read

end Record

/-! ### Alternatives -/

/-- A tagged alternative: a string that is the tag, or an object with the tag as its only
name. -/
structure Variant where
  tag : String
  payload : Option Json

namespace Variant

def ofJson? : Json → Option Variant
  | .str tag => some ⟨tag, none⟩
  | .obj [(tag, payload)] => some ⟨tag, some payload⟩
  | _ => none

/-- The alternative carries nothing: the bare tag, or `null` under it. -/
def unit {α : Type} (v : Variant) (value : α) : Option α :=
  match v.payload with
  | none | some .null => some value
  | some _ => none

/-- The alternative carries one value. -/
def carrying {α : Type} (v : Variant) (read : Json → Option α) : Option α := v.payload.bind read

/-- The alternative carries the named fields. -/
def record (v : Variant) (names : List String) : Option Record :=
  v.payload.bind (Record.ofJson? names)

end Variant

end Json

end Bytecode
