import Mathlib
import Bytecode.Machine.Step

/-!
# An evaluator for whole numbers

The meaning of trees that compute with integers and truth values only, given on the trees
themselves. Operands and arguments are evaluated from left to right, in 64 bits that wrap; truth
values are zero and one, and a condition holds when it is not zero. A statement ends with the way
in which control leaves it.

Evaluation is bounded: by the depth of calls and by the number of rounds of a loop. It times out
where a bound does not suffice. Nothing here refers to code or to a machine.
-/

namespace Bytecode

/-- The values of the variables that code can name. -/
structure Store where
  globals : List Int64
  /-- The parameters and locals of the function that runs. -/
  locals : List Int64
  deriving DecidableEq, Repr

namespace Store

def read (place : Variable) (store : Store) : Int64 :=
  match place with
  | .local slot => store.locals.getD slot.toNat 0
  | .global index => store.globals.getD index.toNat 0

def write (place : Variable) (v : Int64) (store : Store) : Store :=
  match place with
  | .local slot => { store with locals := store.locals.set slot.toNat v }
  | .global index => { store with globals := store.globals.set index.toNat v }

end Store

/-- A place of the source: a function of the table or the top level, and a line, zero if it is
not known. -/
structure Locus where
  current : Option Nat
  line : UInt32
  deriving DecidableEq, Repr

namespace Locus

/-- The locus with the line of a position, if that is known. -/
def at_ (position : Position) (locus : Locus) : Locus :=
  { locus with line := if position.line = 0 then locus.line else position.line }

end Locus

/-- Why an evaluation has no result. -/
inductive Halt where
  | divisionByZero (locus : Locus)
  | timeout
  deriving DecidableEq, Repr

abbrev Eval := EStateM Halt Store

/-! ### Operators -/

/-- The exact result of an operation, if it has one. Quotients are truncated toward zero. -/
def ArithOp.onIntegers : ArithOp → Int → Int → Option Int
  | .add, a, b => some (a + b)
  | .sub, a, b => some (a - b)
  | .mul, a, b => some (a * b)
  | .div, a, b => if b = 0 then none else some (a.tdiv b)
  | .mod, a, b => if b = 0 then none else some (a.tmod b)

def Comparison.onIntegers : Comparison → Int → Int → Bool
  | .eq, a, b => a = b
  | .ne, a, b => a ≠ b
  | .gt, a, b => a > b
  | .ge, a, b => a ≥ b
  | .lt, a, b => a < b
  | .le, a, b => a ≤ b

/-- A truth value as a number. -/
def truth (b : Bool) : Int64 := if b then 1 else 0

def UnaryOp.onIntegers : UnaryOp → Int64 → Int64
  | .minus, a => .ofInt (-a.toInt)
  | .not, a => truth (a = 0)

/-! ### Expressions -/

/-- A result that wraps, or the fault that there is none. -/
def Eval.wrapped (locus : Locus) : Option Int → Eval Int64
  | some exact => return .ofInt exact
  | none => throw (.divisionByZero locus)

mutual

/-- Evaluate an expression. What is none of the expressions of this sublanguage counts as zero. -/
def Expr.eval (call : Nat → List Int64 → Eval Int64) (locus : Locus) : Expr → Eval Int64
  | .boolean _ value => return truth value
  | .int _ value => return value
  | .var _ place => return (← get).read place
  | .assign _ (.var _ place) value => do
    let v ← value.eval call locus
    modify (Store.write place v)
    return v
  | .binary m op lhs rhs => do
    let a ← lhs.eval call locus
    match op with
    | .and => if a = 0 then return a else rhs.eval call locus
    | .or => if a = 0 then rhs.eval call locus else return a
    | .arith op =>
      let b ← rhs.eval call locus
      Eval.wrapped (locus.at_ m.position) (op.onIntegers a.toInt b.toInt)
    | .compare op =>
      let b ← rhs.eval call locus
      return truth (op.onIntegers a.toInt b.toInt)
  | .unary _ op operand => do
    let a ← operand.eval call locus
    return op.onIntegers a
  | .call _ (.function _ i) args => do
    let vs ← Expr.evals call locus args
    call i.toNat vs
  | _ => return 0

def Expr.evals (call : Nat → List Int64 → Eval Int64) (locus : Locus) :
    List Expr → Eval (List Int64)
  | [] => return []
  | e :: rest => do
    let v ← e.eval call locus
    let vs ← Expr.evals call locus rest
    return v :: vs

end

/-- Evaluate an optional expression for its effect. -/
def Expr.effect (call : Nat → List Int64 → Eval Int64) (locus : Locus) :
    Option Expr → Eval Unit
  | none => return ()
  | some e => do
    let _ ← e.eval call locus
    return ()

/-- Whether a condition holds; one that is left out does. -/
def Expr.holds (call : Nat → List Int64 → Eval Int64) (locus : Locus) : Option Expr → Eval Bool
  | none => return true
  | some e => return (← e.eval call locus) ≠ 0

/-! ### Statements -/

/-- How control leaves a statement. -/
inductive Flow where
  | next
  | break_
  | continue_
  | ret (value : Int64)
  deriving DecidableEq, Repr

namespace Flow

/-- What a function returns whose body is left so. -/
def result : Flow → Int64
  | .ret value => value
  | _ => 0

end Flow

/-- Take rounds of a loop until its condition does not hold or its body leaves it. -/
def Eval.iterate (test : Eval Bool) (body : Eval Flow) (post : Eval Unit) : Nat → Eval Flow
  | 0 => throw .timeout
  | rounds + 1 => do
    if ← test then
      match ← body with
      | .break_ => return .next
      | .ret value => return .ret value
      | .next | .continue_ =>
        post
        iterate test body post rounds
    else return .next

mutual

/-- Run a statement. -/
def Stmt.exec (call : Nat → List Int64 → Eval Int64) (rounds : Nat) (locus : Locus) :
    Stmt → Eval Flow
  | .expression p e => do
    Expr.effect call (locus.at_ p) (some e)
    return .next
  | .declaration _ _ _ none => return .next
  | .declaration p place _ (some initial) => do
    let v ← initial.eval call (locus.at_ p)
    modify (Store.write place v)
    return .next
  | .branch p condition thenBlock elifs elseBlock => do
    if ← Expr.holds call (locus.at_ p) (some condition) then
      Stmt.execs call rounds (locus.at_ p) thenBlock
    else
      Elif.execs call rounds (locus.at_ p) (Stmt.execElse call rounds (locus.at_ p) elseBlock) elifs
  | .loop p init condition post body => do
    Expr.effect call (locus.at_ p) init
    Eval.iterate (Expr.holds call (locus.at_ p) condition)
      (Stmt.execs call rounds (locus.at_ p) body) (Expr.effect call (locus.at_ p) post) rounds
  | .ret _ none => return .ret 0
  | .ret p (some value) => return .ret (← value.eval call (locus.at_ p))
  | .break_ _ => return .break_
  | .continue_ _ => return .continue_
  | .block p statements => Stmt.execs call rounds (locus.at_ p) statements

/-- Run statements until control goes elsewhere. -/
def Stmt.execs (call : Nat → List Int64 → Eval Int64) (rounds : Nat) (locus : Locus) :
    List Stmt → Eval Flow
  | [] => return .next
  | s :: rest => do
    match ← s.exec call rounds locus with
    | .next => Stmt.execs call rounds locus rest
    | flow => return flow

/-- Run the block of the first branch whose condition holds, or else what is left. -/
def Elif.execs (call : Nat → List Int64 → Eval Int64) (rounds : Nat) (locus : Locus)
    (otherwise : Eval Flow) : List Elif → Eval Flow
  | [] => otherwise
  | .mk condition body :: rest => do
    if ← Expr.holds call locus (some condition) then Stmt.execs call rounds locus body
    else Elif.execs call rounds locus otherwise rest

def Stmt.execElse (call : Nat → List Int64 → Eval Int64) (rounds : Nat) (locus : Locus) :
    Option (List Stmt) → Eval Flow
  | none => return .next
  | some body => Stmt.execs call rounds locus body

end

/-! ### Programs -/

namespace Program

/-- Call a function of the table. Its locals are zero at first, and it returns zero if its body
does not return a value. The caller's variables are its own. -/
def call (p : Program) (rounds : Nat) : Nat → Nat → List Int64 → Eval Int64
  | 0, _, _ => throw .timeout
  | depth + 1, index, args =>
    match p.functions[index]? with
    | none => return 0
    | some f => do
      let caller := (← get).locals
      modify fun store => { store with locals := args ++ f.locals.map fun _ => 0 }
      let flow ← Stmt.execs (p.call rounds depth) rounds ⟨some index, 0⟩ (f.body.getD [])
      modify fun store => { store with locals := caller }
      return flow.result

end Program

/-! ### Agreement of the operators -/

/-- Arithmetic in 64 bits is exact arithmetic whose result wraps. -/
theorem ArithOp.onInts_eq (op : ArithOp) (a b : Int64) :
  op.onInts a b = match op.onIntegers a.toInt b.toInt with
    | some exact => .ok (.ofInt exact)
    | none => .error .divisionByZero
  := by
  have zero : b = 0 ↔ b.toInt = 0 := by rw [← Int64.toInt_inj, Int64.toInt_zero]
  cases op with
  | add | sub | mul => simp [onInts, onIntegers]
  | div =>
    simp only [onInts, onIntegers, zero]
    split
    · rfl
    · congr 1
      rw [← Int64.toInt_inj, Int64.toInt_div, Int64.toInt_ofInt]
  | mod =>
    simp only [onInts, onIntegers, zero]
    split
    · rfl
    · dsimp only
      rw [← Int64.toInt_mod, Int64.ofInt_toInt]

theorem Comparison.onInts_eq (op : Comparison) (a b : Int64) :
  op.onInts a b = op.onIntegers a.toInt b.toInt
  := by
  cases op
  all_goals simp [onInts, onIntegers, Int64.toInt_inj, Int64.lt_iff_toInt_lt, Int64.le_iff_toInt_le]

end Bytecode
