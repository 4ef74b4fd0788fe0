import Std.Data.HashSet
import Bytecode.Generate.Stmt
import Bytecode.Layout

/-!
# Compilation

`compile` turns a resolved program into an executable: it rejects names that are defined twice,
lays out the classes, and generates the functions in the order of their table and then the top
level. All bodies share one constant pool.
-/

namespace Bytecode

namespace Gen

/-- The code of a function's body. A value of the return type is returned at its end, unless
its last statement is a `return`. -/
def functionBody (scope : Scope) (f : FunctionDecl) (body : Block) : Gen CodeBlock := do
  modify fun draft => { draft with body := { function := some f } }
  inBlock .plain (stmts scope body)
  if ¬(body.getLast?.map Stmt.isReturn).getD false then
    emitDefault f.position f.returnType
    emit f.position .ret []
  ofExcept ((← getBody).finish f.position)

def function (scope : Scope) (f : FunctionDecl) : Gen Function := do
  let code ← match f.body with
    | none => pure none
    | some body => some <$> functionBody scope f body
  return {
    name := f.name
    package := f.package
    class_ := f.class_
    returnType := f.returnType
    params := f.params
    locals := f.locals
    code }

/-- The functions of a table in order. -/
def functions (scope : Scope) : List FunctionDecl → Gen (List Function)
  | [] => return []
  | f :: rest => do
    let first ← function scope f
    return first :: (← functions scope rest)

def topLevel (scope : Scope) (statements : Block) : Gen CodeBlock := do
  modify fun draft => { draft with body := {} }
  stmts scope statements
  ofExcept ((← getBody).finish {})

end Gen

/-- The first item whose key some earlier item has. `seen` holds the keys before. -/
def firstRepeated? {α κ : Type} [BEq κ] [Hashable κ] (key : α → κ) :
    Std.HashSet κ → List α → Option α
  | _, [] => none
  | seen, a :: rest =>
    if seen.contains (key a) then some a else firstRepeated? key (seen.insert (key a)) rest

/-- No two functions have the same package, class and name, and no two classes the same
package and name. -/
def checkNames (p : Program) : Except CompileError Unit :=
  match firstRepeated? (fun f => (f.package, f.class_, f.name)) ∅ p.functions with
  | some f => .error ⟨.functionMultipleDefine f.name, f.position⟩
  | none =>
    match firstRepeated? (fun c => (c.package, c.name)) ∅ p.classes with
    | some c => .error ⟨.classMultipleDefine c.name, c.position⟩
    | none => .ok ()

/-- Compile a program. -/
def compile (p : Program) : Except CompileError Executable := do
  checkNames p
  let classes := (← layoutClasses p).toArray
  let scope : Scope := ⟨p.functions.length, classes⟩
  let generate : Gen (List Function × CodeBlock) := do
    let functions ← Gen.functions scope p.functions
    return (functions, ← Gen.topLevel scope p.statements)
  match generate {} with
  | .error e _ => .error e
  | .ok (functions, topLevel) draft =>
    .ok {
      package := p.package
      constants := draft.pool.constants
      globals := p.globals.toArray
      functions := functions.toArray
      classes
      topLevel }

end Bytecode
