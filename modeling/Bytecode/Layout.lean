import Bytecode.Executable.Basic

/-!
# Class layout

A class starts with the members of its superclass. Its own fields follow in source order; a
method with the name of an earlier one takes over its slot, so that a call through the slot of
any ancestor reaches it, and the other methods follow.

`layoutClasses` lays out all classes of a program, in whatever order they are declared. A class
is laid out once, after its superclass.
-/

namespace Bytecode

/-- The flattened members of a class. -/
structure Members where
  fields : List VariableDecl := []
  methods : List Method := []
  deriving Repr, Inhabited

namespace Members

def hasField (ms : Members) (name : String) : Bool := ms.fields.any fun f => f.name = name

def hasMethod (ms : Members) (name : String) : Bool := ms.methods.any fun m => m.name = name

/-- Put a function into the slot of a name, which is appended if it is new. -/
def setMethod (name : String) (function : UInt16) : List Method → List Method
  | [] => [⟨name, function⟩]
  | m :: rest =>
    if m.name = name then ⟨name, function⟩ :: rest else m :: setMethod name function rest

/-- Add one declared member of a class. -/
def add (functionCount : Nat) (className : String) (ms : Members) :
    MemberDecl → Except Defect Members
  | .field name ty _ =>
    if ms.hasField name then .error (.fieldNameDuplicate className name)
    else if ms.hasMethod name then .error (.fieldOverridesMethod className name)
    else .ok { ms with fields := ms.fields ++ [⟨name, ty⟩] }
  | .method name function _ =>
    if functionCount ≤ function.toNat then .error (.unknownFunction function)
    else if ms.hasField name then .error (.methodOverridesField className name)
    else .ok { ms with methods := setMethod name function ms.methods }

/-- Add the declared members of a class in source order. -/
def addAll (functionCount : Nat) (className : String) :
    List MemberDecl → Members → Except CompileError Members
  | [], ms => .ok ms
  | member :: rest, ms =>
    match ms.add functionCount className member with
    | .error defect => .error ⟨defect, member.position⟩
    | .ok ms => addAll functionCount className rest ms

end Members

/-- The layouts of the classes that have one so far, by index. -/
abbrev Layouts := Array (Option Class)

namespace Layouts

def find? (known : Layouts) (index : Nat) : Option Class := (known[index]?).join

/-- Lay out a class on top of the members that it inherits. -/
def addClass (functionCount : Nat) (index : Nat) (c : ClassDecl) (inherited : Members)
    (known : Layouts) : Except CompileError (Class × Layouts) := do
  let ms ← Members.addAll functionCount c.name c.members inherited
  let layout : Class := ⟨c.name, c.package, c.superClass, ms.fields, ms.methods⟩
  return (layout, known.setIfInBounds index (some layout))

/-- Lay out a class, after its superclasses, unless it has a layout. `below` lists the classes
on the way up to it, and `fuel` bounds the superclasses still to be met. -/
def layout (p : Program) (table : Array ClassDecl) :
    Nat → List Nat → Nat → ClassDecl → Layouts → Except CompileError (Class × Layouts)
  | fuel, below, index, c, known =>
    match known.find? index with
    | some found => .ok (found, known)
    | none =>
      if below.contains index then .error ⟨.classHierarchyCycle c.name, c.position⟩
      else
        match c.superClass, fuel with
        | none, _ => addClass p.functions.length index c {} known
        | some _, 0 => .error ⟨.classHierarchyCycle c.name, c.position⟩
        | some parent, fuel + 1 =>
          match table[parent.toNat]? with
          | none => .error ⟨.unknownClass parent, c.position⟩
          | some superClass =>
            match layout p table fuel (index :: below) parent.toNat superClass known with
            | .error e => .error e
            | .ok (inherited, known) =>
              addClass p.functions.length index c ⟨inherited.fields, inherited.methods⟩ known

/-- Lay out the classes from an index on. -/
def layoutFrom (p : Program) (table : Array ClassDecl) :
    Nat → List ClassDecl → Layouts → Except CompileError (List Class)
  | _, [], _ => .ok []
  | index, c :: rest, known => do
    let (first, known) ← layout p table table.size [] index c known
    let others ← layoutFrom p table (index + 1) rest known
    return first :: others

end Layouts

/-- Lay out all classes of a program. -/
def layoutClasses (p : Program) : Except CompileError (List Class) :=
  let table := p.classes.toArray
  Layouts.layoutFrom p table 0 p.classes (Array.replicate table.size none)

end Bytecode
