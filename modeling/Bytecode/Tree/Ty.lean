/-!
# Static types and source positions

Every expression, variable and member of a resolved program carries its static type `Ty`. The
machine only distinguishes three kinds of slot, `SlotKind`, and each type is kept in a slot of
one kind.
-/

namespace Bytecode

/-- A line and a column, counted from one; zero stands for unknown. -/
structure Position where
  line : UInt32 := 0
  column : UInt32 := 0
  deriving DecidableEq, Repr, Inhabited

namespace Position

/-- A position of which only the line is known. -/
def ofLine (line : UInt32) : Position := ⟨line, 0⟩

def text (p : Position) : String := s!"{p.line}:{p.column}"

end Position

/-- A static type. Classes are named by their index in the class table. -/
inductive Ty where
  | void
  | boolean
  | int
  | double
  | string
  /-- The type of the null literal. -/
  | null
  | class (index : UInt16)
  | array (element : Ty)
  | function (result : Ty) (params : List Ty)
  deriving BEq, Repr, Inhabited

/-- What a slot of a given type holds: a whole number, a double, or a reference. -/
inductive SlotKind where
  | int
  | double
  | object
  deriving DecidableEq, Repr, Inhabited

namespace Ty

/-- The values of the type live on the heap. -/
def isReference : Ty → Bool
  | .string | .null | .class _ | .array _ => true
  | _ => false

def slotKind : Ty → SlotKind
  | .double => .double
  | .string | .null | .class _ | .array _ => .object
  | _ => .int

def element? : Ty → Option Ty
  | .array element => some element
  | _ => none

def classIndex? : Ty → Option UInt16
  | .class index => some index
  | _ => none

def isDouble : Ty → Bool
  | .double => true
  | _ => false

def isString : Ty → Bool
  | .string => true
  | _ => false

def isBoolean : Ty → Bool
  | .boolean => true
  | _ => false

def isVoid : Ty → Bool
  | .void => true
  | _ => false

mutual

/-- The type as it is shown to the user. -/
def text : Ty → String
  | .void => "void"
  | .boolean => "boolean"
  | .int => "int"
  | .double => "double"
  | .string => "string"
  | .null => "null"
  | .class index => s!"class#{index}"
  | .array element => element.text ++ "[]"
  | .function result params =>
    result.text ++ "(" ++ String.intercalate ", " (texts params) ++ ")"

def texts : List Ty → List String
  | [] => []
  | ty :: rest => ty.text :: texts rest

end

end Ty

end Bytecode
