import Mathlib
import Bytecode.Tree.Program

/-!
# Programs that compute with whole numbers

The sublanguage of integers and truth values: variables of these types, literals, assignments to
variables, all operators, and calls of the program's own functions, in statements of every kind.
`Program.isScalar` decides whether a program belongs to it.
-/

namespace Bytecode

/-- The type is that of integers, that of truth values or the empty one. -/
def Ty.isScalar : Ty → Bool
  | .void | .boolean | .int => true
  | _ => false

/-- The variable is a global of the program or one of so many parameters and locals. -/
def Variable.inRange (p : Program) (slots : Nat) : Variable → Bool
  | .local slot => slot.toNat < slots
  | .global index => index.toNat < p.globals.length

/-- The program has a function with the index that has a body and so many parameters. -/
def Program.defines (p : Program) (index params : Nat) : Bool :=
  match p.functions[index]? with
  | some f => f.body.isSome && f.params.length == params
  | none => false

mutual

/-- An expression of the sublanguage, in code with so many parameters and locals. -/
def Expr.isScalar (p : Program) (slots : Nat) : Expr → Bool
  | .boolean m _ | .int m _ => m.ty.isScalar
  | .var m place => m.ty.isScalar && place.inRange p slots
  | .assign m (.var t place) value =>
    m.ty.isScalar && (t.ty.isScalar && (place.inRange p slots && value.isScalar p slots))
  | .binary m _ lhs rhs => m.ty.isScalar && (lhs.isScalar p slots && rhs.isScalar p slots)
  | .unary m _ operand => m.ty.isScalar && operand.isScalar p slots
  | .call m (.function _ i) args =>
    m.ty.isScalar && (p.defines i.toNat args.length && Expr.areScalar p slots args)
  | _ => false

def Expr.areScalar (p : Program) (slots : Nat) : List Expr → Bool
  | [] => true
  | e :: rest => e.isScalar p slots && Expr.areScalar p slots rest

end

theorem Expr.isScalar_ty {p : Program} {slots : Nat} {e : Expr} (scalar : e.isScalar p slots) :
  e.ty.isScalar
  := by
  cases e with
  | boolean m value | int m value => exact scalar
  | var m place | binary m op lhs rhs | unary m op operand =>
    exact (Bool.and_eq_true_iff.1 scalar).1
  | assign m target value =>
    cases target with
    | var t place => exact (Bool.and_eq_true_iff.1 scalar).1
    | _ => cases scalar
  | call m callee args =>
    cases callee with
    | function t i => exact (Bool.and_eq_true_iff.1 scalar).1
    | _ => cases scalar
  | _ => cases scalar

/-- An expression of the sublanguage, if there is one. -/
def Expr.optionScalar (p : Program) (slots : Nat) : Option Expr → Bool
  | none => true
  | some e => e.isScalar p slots

mutual

/-- A statement of the sublanguage, in code with so many parameters and locals. -/
def Stmt.isScalar (p : Program) (slots : Nat) : Stmt → Bool
  | .expression _ e => e.isScalar p slots
  | .declaration _ place ty initial =>
    ty.isScalar && (place.inRange p slots && Expr.optionScalar p slots initial)
  | .branch _ condition thenBlock elifs elseBlock =>
    condition.isScalar p slots && (Stmt.areScalar p slots thenBlock
      && (Elif.areScalar p slots elifs && Stmt.elseScalar p slots elseBlock))
  | .loop _ init condition post body =>
    Expr.optionScalar p slots init && (Expr.optionScalar p slots condition
      && (Expr.optionScalar p slots post && Stmt.areScalar p slots body))
  | .ret _ value => Expr.optionScalar p slots value
  | .break_ _ | .continue_ _ => true
  | .block _ statements => Stmt.areScalar p slots statements

def Stmt.areScalar (p : Program) (slots : Nat) : List Stmt → Bool
  | [] => true
  | s :: rest => s.isScalar p slots && Stmt.areScalar p slots rest

def Elif.areScalar (p : Program) (slots : Nat) : List Elif → Bool
  | [] => true
  | .mk condition body :: rest =>
    condition.isScalar p slots && (Stmt.areScalar p slots body && Elif.areScalar p slots rest)

def Stmt.elseScalar (p : Program) (slots : Nat) : Option (List Stmt) → Bool
  | none => true
  | some body => Stmt.areScalar p slots body

end

/-- A function of the sublanguage. -/
def FunctionDecl.isScalar (p : Program) (f : FunctionDecl) : Bool :=
  f.returnType.isScalar && f.params.all (·.ty.isScalar) && f.locals.all (·.ty.isScalar)
    && Stmt.elseScalar p (f.params.length + f.locals.length) f.body

/-- A program of the sublanguage. -/
def Program.isScalar (p : Program) : Bool :=
  p.globals.all (·.ty.isScalar) && p.functions.all (FunctionDecl.isScalar p)
    && Stmt.areScalar p 0 p.statements

/-- What is known of a function of such a program. -/
theorem Program.isScalar_function {p : Program} (scalar : p.isScalar) {index : Nat}
    {f : FunctionDecl} (declared : p.functions[index]? = some f) :
  f.returnType.isScalar ∧ f.locals.all (·.ty.isScalar)
    ∧ Stmt.elseScalar p (f.params.length + f.locals.length) f.body
  := by
  simp only [isScalar, Bool.and_eq_true] at scalar
  have whole := List.all_eq_true.1 scalar.1.2 f (List.mem_of_getElem? declared)
  simp only [FunctionDecl.isScalar, Bool.and_eq_true] at whole
  exact ⟨whole.1.1.1, whole.1.2, whole.2⟩

end Bytecode
