import Bytecode.Code.Buffer
import Bytecode.Executable.Pool
import Bytecode.Tree.Program

/-!
# Executables

What compilation produces and a machine runs: constants, globals, functions, classes and the
code of the top level. A `Class` has the flattened layout of its members, those of its
superclass first.
-/

namespace Bytecode

/-- A function of an executable. A native function has no code. -/
structure Function where
  name : String
  package : String
  /-- The class that a method belongs to. -/
  class_ : Option UInt16
  returnType : Ty
  params : List VariableDecl
  locals : List VariableDecl
  code : Option CodeBlock
  deriving Repr, Inhabited

/-- A name with its package in front, if the package has a name. -/
def qualify (package name : String) : String :=
  if package.isEmpty then name else package ++ "." ++ name

namespace Function

def isNative (f : Function) : Bool := f.code.isNone

def qualifiedName (f : Function) : String := qualify f.package f.name

end Function

/-- A method slot: its name and the function that the class runs for it. -/
structure Method where
  name : String
  function : UInt16
  deriving DecidableEq, Repr, Inhabited

/-- A class with its flattened members. -/
structure Class where
  name : String
  package : String
  superClass : Option UInt16
  fields : List VariableDecl
  methods : List Method
  deriving Repr, Inhabited

namespace Class

def fieldIndex? (c : Class) (name : String) : Option Nat :=
  c.fields.findIdx? fun field => field.name = name

def methodIndex? (c : Class) (name : String) : Option Nat :=
  c.methods.findIdx? fun method => method.name = name

/-- Which fields hold references. -/
def referenceFields (c : Class) : List Bool := c.fields.map (·.ty.isReference)

end Class

structure Executable where
  package : String := ""
  constants : Array Constant := #[]
  globals : Array VariableDecl := #[]
  functions : Array Function := #[]
  classes : Array Class := #[]
  topLevel : CodeBlock := {}
  deriving Repr, Inhabited

namespace Executable

/-- The code of a function, or of the top level. -/
def code? (exe : Executable) : Option Nat → Option CodeBlock
  | none => some exe.topLevel
  | some index => exe.functions[index]?.bind (·.code)

/-- The function with a package and a name that is no method. -/
def functionIndex? (exe : Executable) (package name : String) : Option Nat :=
  exe.functions.findIdx? fun f => f.class_.isNone ∧ f.package = package ∧ f.name = name

/-- The superclass of a class of the table. -/
def superClass? (exe : Executable) (index : UInt16) : Option UInt16 :=
  exe.classes[index.toNat]?.bind (·.superClass)

/-- The ancestor is met within so many steps up from the class. -/
def reaches (exe : Executable) (ancestor : UInt16) : Nat → UInt16 → Bool
  | 0, index => index == ancestor
  | steps + 1, index =>
    index == ancestor ||
      match exe.superClass? index with
      | none => false
      | some parent => exe.reaches ancestor steps parent

/-- A class is the ancestor or inherits from it. A chain of superclasses without a repetition
is no longer than the table. -/
def isSubclass (exe : Executable) (index ancestor : UInt16) : Bool :=
  exe.reaches ancestor exe.classes.size index

def className (exe : Executable) (index : UInt16) : String :=
  (exe.classes[index.toNat]?.map (·.name)).getD "<unknown>"

end Executable

end Bytecode
