import Mathlib
import Bytecode.Generate.Program
import Bytecode.Proofs.Generate.Chart

/-!
# The compilation scheme

The structured code of every construct of the language, as a function of its tree: `Expr.piece`,
`Stmt.piece`, `FunctionDecl.piece` and `Program.piece`. Every piece is typed: an expression
leaves one operand more than it finds, a statement as many as it finds, and control does not
run past the end of a function.
-/

namespace Bytecode

variable {aims : Aim → Option Nat}

/-- What code depends on besides its tree. -/
structure Site where
  /-- The number of parameters of the function. -/
  params : Nat
  /-- The return type of the function. -/
  returns : Ty
  /-- The line of the innermost statement whose line is known. -/
  line : UInt32

namespace Site

def lineOf (site : Site) (position : Position) : UInt32 :=
  if position.line = 0 then site.line else position.line

/-- The site of the parts of a statement on a line. -/
def enter (line : UInt32) (site : Site) : Site := if line = 0 then site else { site with line }

def one (site : Site) (position : Position) (directive : Directive) : Piece :=
  .one (site.lineOf position) directive

def jump (site : Site) (position : Position) (op : Op) (aim : Aim) : Piece :=
  .jump (site.lineOf position) op aim

end Site

namespace Directive

def bool (value : Bool) : Directive :=
  { op := .pushInt1Byte, operand := .number (if value then 1 else 0) }

/-- Integers are part of the instruction if they fit one or two bytes. -/
def int (value : Int64) : Directive :=
  if 0 ≤ value.toInt ∧ value.toInt < 256 then
    { op := .pushInt1Byte, operand := .number value.toInt }
  else if -32768 ≤ value.toInt ∧ value.toInt < 32768 then
    { op := .pushInt2Byte, operand := .number value.toInt }
  else { op := .pushInt, operand := .constant (.int value) }

def double (value : Double) : Directive :=
  if value = .zero then { op := .pushDouble0 }
  else if value = .one then { op := .pushDouble1 }
  else { op := .pushDouble, operand := .constant (.double value) }

def string (value : String) : Directive :=
  { op := .pushString, operand := .constant (.string value) }

/-- Push the value that a `return` without one yields. -/
def default : Ty → Directive
  | .double => { op := .pushDouble0 }
  | .string => .string ""
  | ty => if ty.isReference then { op := .pushNull } else .bool false

def load (params : Nat) (ty : Ty) : Variable → Directive
  | .local slot =>
    { op := .pushStack ty.slotKind, operand := .number (Frame.slotOffset params slot.toNat) }
  | .global index => { op := .pushStatic ty.slotKind, operand := .number index.toNat }

def store (params : Nat) (ty : Ty) : Variable → Directive
  | .local slot =>
    { op := .popStack ty.slotKind, operand := .number (Frame.slotOffset params slot.toNat) }
  | .global index => { op := .popStatic ty.slotKind, operand := .number index.toNat }

/-- Call the function whose index is on top of so many arguments. -/
def invoke (args : Nat) : Directive := { op := .invoke, args }

end Directive

/-! ### Expressions -/

mutual

/-- The code of an expression. A method that is not called has none; it stands for null. -/
def Expr.piece (site : Site) : Expr → Piece
  | .boolean m value => site.one m.position (.bool value)
  | .int m value => site.one m.position (.int value)
  | .double m value => site.one m.position (.double value)
  | .string m value => site.one m.position (.string value)
  | .null m => site.one m.position { op := .pushNull }
  | .var m place => site.one m.position (.load site.params m.ty place)
  | .function m i => site.one m.position { op := .pushFunction, operand := .number i.toNat }
  | .assign m target value =>
    ((value.piece site).seq 1 (site.one m.position { op := .duplicate })).seq 2
      (target.storePiece site m.position)
  | .binary m op lhs rhs =>
    match Gen.shortCut? op with
    | some skip =>
      .mark .done
        (((((lhs.piece site).seq 1 (site.one m.position { op := .duplicate })).seq 2
          (site.jump m.position skip .done)).seq 1 (site.one m.position { op := .pop })).seq 0
          (rhs.piece site)) 1 .empty
    | none =>
      ((lhs.piece site).seq 1 (rhs.piece site)).seq 2
        (site.one m.position { op := Gen.binaryOp op lhs.ty rhs.ty })
  | .unary m op operand =>
    (operand.piece site).seq 1 (site.one m.position { op := Gen.unaryOp op operand.ty })
  | .call m callee args =>
    match callee with
    | .method _ object i =>
      (((Expr.pieces site args).seq args.length (object.piece site)).seq (args.length + 1)
        (site.one m.position { op := .pushMethod, operand := .number i.toNat })).seq
        (args.length + 2) (site.one m.position (.invoke (args.length + 1)))
    | callee =>
      ((Expr.pieces site args).seq args.length (callee.piece site)).seq (args.length + 1)
        (site.one m.position (.invoke args.length))
  | .method m _ _ => site.one m.position { op := .pushNull }
  | .index m array i =>
    ((array.piece site).seq 1 (i.piece site)).seq 2
      (site.one m.position { op := .pushArray m.ty.slotKind })
  | .field m object i =>
    (object.piece site).seq 1
      (site.one m.position { op := .pushField m.ty.slotKind, operand := .number i.toNat })
  | .new m i => site.one m.position { op := .new, operand := .number i.toNat }
  | .newArray m size =>
    (size.piece site).seq 1 (site.one m.position { op := .newArray (Gen.elementKind m.ty) })
  | .arrayLiteral m items =>
    (Expr.pieces site items).seq items.length
      (site.one m.position
        { op := .newArrayLiteral (Gen.elementKind m.ty)
          operand := .number items.length
          args := items.length })
  | .convert m conversion operand =>
    (operand.piece site).seq 1 (site.one m.position { op := .cast conversion })
  | .downCast m i operand =>
    (operand.piece site).seq 1
      (site.one m.position { op := .downCast, operand := .number i.toNat })
  | .instanceOf m i operand =>
    (operand.piece site).seq 1
      (site.one m.position { op := .instanceOf, operand := .number i.toNat })
  | .arrayLength m array => (array.piece site).seq 1 (site.one m.position { op := .arraySize })
  | .stringLength m text => (text.piece site).seq 1 (site.one m.position { op := .stringLength })

/-- The code of expressions from left to right. -/
def Expr.pieces (site : Site) : List Expr → Piece
  | [] => .empty
  | e :: rest => (e.piece site).seq 1 (Expr.pieces site rest)

/-- The code that stores an operand into the target of an assignment. What is no target has
none; the operand is dropped. -/
def Expr.storePiece (site : Site) (position : Position) : Expr → Piece
  | .var m place => site.one position (.store site.params m.ty place)
  | .index m array i =>
    ((array.piece site).seq 1 (i.piece site)).seq 2
      (site.one position { op := .popArray m.ty.slotKind })
  | .field m object i =>
    (object.piece site).seq 1
      (site.one position { op := .popField m.ty.slotKind, operand := .number i.toNat })
  | _ => site.one position { op := .pop }

end

/-- The code of an expression for its effect. -/
def Expr.effectPiece (site : Site) : Expr → Piece
  | .assign m target value => (value.piece site).seq 1 (target.storePiece site m.position)
  | e => (e.piece site).seq 1 (site.one e.position { op := .pop })

/-! ### Statements -/

/-- A block that is run if a condition holds, after which control goes to the end of the whole
branch; otherwise the others follow. -/
def branchPiece (site : Site) (condition : Expr) (body others : Piece) : Piece :=
  .mark .next
    ((((condition.piece site).seq 1
      (site.jump condition.position .jumpIfFalse .next)).seq 0 body).seq 0
      (site.jump condition.position .jump .done)) 0 others

/-- Leave a loop if its condition does not hold. -/
def loopConditionPiece (site : Site) : Option Expr → Piece
  | none => .empty
  | some condition =>
    (condition.piece site).seq 1 (site.jump condition.position .jumpIfFalse .break_)

def optionalEffectPiece (site : Site) : Option Expr → Piece
  | none => .empty
  | some e => e.effectPiece site

/-- A loop without its initial expression. -/
def loopPiece (site : Site) (position : Position) (condition : Option Expr) (body : Piece)
    (post : Option Expr) : Piece :=
  .mark .top .empty 0
    (.mark .break_
      (.mark .continue_ ((loopConditionPiece site condition).seq 0 body) 0
        ((optionalEffectPiece site post).seq 0 (site.jump position .jump .top))) 0 .empty)

/-- Return a value, or that of the return type if there is none. -/
def returnPiece (site : Site) (position : Position) (value : Option Expr) : Piece :=
  (match value with
    | some value => value.piece site
    | none => site.one position (.default site.returns)).seq 1 (site.one position { op := .ret })

mutual

/-- The code of a statement. There is none for `break` and `continue` outside of a loop. -/
def Stmt.piece (site : Site) (inLoop : Bool) : Stmt → Piece
  | .expression p e => e.effectPiece (site.enter p.line)
  | .declaration _ _ _ none => .empty
  | .declaration p place ty (some initial) =>
    (initial.piece (site.enter p.line)).seq 1
      ((site.enter p.line).one p (.store (site.enter p.line).params ty place))
  | .branch p condition thenBlock elifs elseBlock =>
    .mark .done
      (branchPiece (site.enter p.line) condition
        (Stmt.pieces (site.enter p.line) inLoop thenBlock)
        ((Elif.pieces (site.enter p.line) inLoop elifs).seq 0
          (Stmt.elsePiece (site.enter p.line) inLoop elseBlock))) 0 .empty
  | .loop p init condition post body =>
    (optionalEffectPiece (site.enter p.line) init).seq 0
      (loopPiece (site.enter p.line) p condition
        (Stmt.pieces (site.enter p.line) true body) post)
  | .ret p value => returnPiece (site.enter p.line) p value
  | .break_ p => if inLoop then (site.enter p.line).jump p .jump .break_ else .empty
  | .continue_ p => if inLoop then (site.enter p.line).jump p .jump .continue_ else .empty
  | .block p statements => Stmt.pieces (site.enter p.line) inLoop statements

def Stmt.pieces (site : Site) (inLoop : Bool) : List Stmt → Piece
  | [] => .empty
  | s :: rest => (s.piece site inLoop).seq 0 (Stmt.pieces site inLoop rest)

/-- The code of the further branches. -/
def Elif.pieces (site : Site) (inLoop : Bool) : List Elif → Piece
  | [] => .empty
  | .mk condition body :: rest =>
    branchPiece site condition (Stmt.pieces site inLoop body) (Elif.pieces site inLoop rest)

def Stmt.elsePiece (site : Site) (inLoop : Bool) : Option (List Stmt) → Piece
  | none => .empty
  | some body => Stmt.pieces site inLoop body

end

/-! ### Bodies -/

namespace FunctionDecl

def site (f : FunctionDecl) : Site := ⟨f.params.length, f.returnType, 0⟩

/-- The code of a function with the given body. -/
def piece (f : FunctionDecl) (body : Block) : Piece :=
  (Stmt.pieces f.site false body).seq 0
    (if (body.getLast?.map Stmt.isReturn).getD false then .empty
    else returnPiece f.site f.position none)

end FunctionDecl

namespace Program

/-- The code of a function of the table, or of the top level. A native function has none. -/
def piece (p : Program) : Option Nat → Piece
  | none => Stmt.pieces ⟨0, .void, 0⟩ false p.statements
  | some index =>
    match p.functions[index]? with
    | some f => (f.body.map f.piece).getD .empty
    | none => .empty

/-- The instructions of a function of the table, or of the top level. -/
def points (p : Program) (current : Option Nat) : List Point :=
  (p.piece current).points (fun _ => 0) 0 0

end Program

/-! ### Typing -/

/-- The opcodes of operators on two operands. -/
theorem Gen.binaryOp_cases (op : BinaryOp) (lhs rhs : Ty) (P : Op → Prop)
    (arith : ∀ op, P (.arithInt op) ∧ P (.arithDouble op))
    (compare : ∀ op, P (.compareInt op) ∧ P (.compareDouble op) ∧ P (.compareString op))
    (others : P .addString ∧ P .eqObject ∧ P .neObject)
    (skips : Gen.shortCut? op ≠ none → P .pop) :
  P (Gen.binaryOp op lhs rhs)
  := by
  unfold Gen.binaryOp
  generalize OperandKind.ofTypes lhs rhs = kind
  cases op with
  | arith op =>
    cases kind with
    | int | object => exact (arith op).1
    | double => exact (arith op).2
    | string =>
      dsimp only [OperandKind.arithOp]
      split
      · exact others.1
      · exact (arith op).1
  | compare op =>
    cases kind with
    | int => exact (compare op).1
    | double => exact (compare op).2.1
    | string => exact (compare op).2.2
    | object =>
      cases op with
      | eq => exact others.2.1
      | ne => exact others.2.2
      | _ => exact (compare _).1
  | and | or => exact skips nofun

namespace Directive

/-- The instruction goes on behind itself, having replaced so many operands by so many values. -/
structure Plain (i : Directive) (takes leaves : Nat) : Prop where
  noJump : i.op.isJump = false
  noReturn : i.op ≠ .ret
  takes_eq : i.takes = takes
  leaves_eq : i.leaves = leaves

theorem plain_int (value : Int64) :
  (Directive.int value).Plain 0 1
  := by
  unfold Directive.int
  split
  · exact ⟨rfl, nofun, rfl, rfl⟩
  · split
    all_goals exact ⟨rfl, nofun, rfl, rfl⟩

theorem plain_double (value : Double) :
  (Directive.double value).Plain 0 1
  := by
  unfold Directive.double
  split
  · exact ⟨rfl, nofun, rfl, rfl⟩
  · split
    all_goals exact ⟨rfl, nofun, rfl, rfl⟩

theorem plain_default (ty : Ty) :
  (Directive.default ty).Plain 0 1
  := by
  unfold Directive.default
  split
  · exact ⟨rfl, nofun, rfl, rfl⟩
  · exact ⟨rfl, nofun, rfl, rfl⟩
  · split
    all_goals exact ⟨rfl, nofun, rfl, rfl⟩

theorem plain_load (params : Nat) (ty : Ty) (place : Variable) :
  (Directive.load params ty place).Plain 0 1
  := by
  cases place
  all_goals exact ⟨rfl, nofun, rfl, rfl⟩

theorem plain_store (params : Nat) (ty : Ty) (place : Variable) :
  (Directive.store params ty place).Plain 1 0
  := by
  cases place
  all_goals exact ⟨rfl, nofun, rfl, rfl⟩

theorem plain_unary (op : UnaryOp) (ty : Ty) :
  ({ op := Gen.unaryOp op ty } : Directive).Plain 1 1
  := by
  cases op with
  | minus =>
    unfold Gen.unaryOp
    dsimp only
    split
    all_goals exact ⟨rfl, nofun, rfl, rfl⟩
  | not => exact ⟨rfl, nofun, rfl, rfl⟩

theorem plain_binary {op : BinaryOp} (full : Gen.shortCut? op = none) (lhs rhs : Ty) :
  ({ op := Gen.binaryOp op lhs rhs } : Directive).Plain 2 1
  := by
  refine Gen.binaryOp_cases op lhs rhs (fun op' => Directive.Plain { op := op' } 2 1) ?_ ?_ ?_ ?_
  · exact fun _ => ⟨⟨rfl, nofun, rfl, rfl⟩, ⟨rfl, nofun, rfl, rfl⟩⟩
  · exact fun _ => ⟨⟨rfl, nofun, rfl, rfl⟩, ⟨rfl, nofun, rfl, rfl⟩, ⟨rfl, nofun, rfl, rfl⟩⟩
  · exact ⟨⟨rfl, nofun, rfl, rfl⟩, ⟨rfl, nofun, rfl, rfl⟩, ⟨rfl, nofun, rfl, rfl⟩⟩
  · exact fun skips => absurd full skips

end Directive

namespace Piece

variable {aims : Aim → Option Nat} {depth : Nat} {site : Site} {position : Position}
  {i : Directive} {q r : Piece}

/-- An instruction is typed where it finds its operands. -/
theorem Typed.plain {takes leaves : Nat} (plain : i.Plain takes leaves) :
  Typed aims (depth + takes) (site.one position i) (some (depth + leaves))
  := by
  obtain ⟨noJump, noReturn, rfl, rfl⟩ := plain
  have typed : Typed aims (depth + i.takes) (site.one position i)
      (some (depth + i.takes - i.takes + i.leaves)) :=
    .one noJump noReturn (Nat.le_add_left _ _)
  rw [Nat.add_sub_cancel] at typed
  exact typed

theorem Typed.load (plain : i.Plain 0 1) :
  Typed aims depth (site.one position i) (some (depth + 1))
  := .plain plain

theorem Typed.consume {takes : Nat} (plain : i.Plain takes 0) :
  Typed aims (depth + takes) (site.one position i) (some depth)
  := .plain plain

theorem Typed.unary (typed : Typed aims depth q (some (depth + 1))) (plain : i.Plain 1 1) :
  Typed aims depth (q.seq 1 (site.one position i)) (some (depth + 1))
  := .seq typed (.plain plain)

theorem Typed.drop (typed : Typed aims depth q (some (depth + 1))) (plain : i.Plain 1 0) :
  Typed aims depth (q.seq 1 (site.one position i)) (some depth)
  := .seq typed (.plain plain)

theorem Typed.binary (first : Typed aims depth q (some (depth + 1)))
    (second : Typed aims (depth + 1) r (some (depth + 2))) (plain : i.Plain 2 1) :
  Typed aims depth ((q.seq 1 r).seq 2 (site.one position i)) (some (depth + 1))
  := .seq (.seq first second) (.plain plain)

theorem Typed.duplicate (typed : Typed aims depth q (some (depth + 1))) :
  Typed aims depth (q.seq 1 (site.one position { op := .duplicate })) (some (depth + 2))
  := .seq typed (.plain ⟨rfl, nofun, rfl, rfl⟩)

/-- A call takes its arguments and the index of the function and leaves the result. -/
theorem Typed.invoke {args : Nat} (typed : Typed aims depth q (some (depth + (args + 1)))) :
  Typed aims depth (q.seq (args + 1) (site.one position (.invoke args))) (some (depth + 1))
  := .seq typed (.plain ⟨rfl, nofun, rfl, rfl⟩)

end Piece

open Piece

/-- What skips an operand is a conditional jump. -/
theorem Gen.shortCut?_eq_some {op : BinaryOp} {skip : Op} (skips : Gen.shortCut? op = some skip) :
  skip = .jumpIfTrue ∨ skip = .jumpIfFalse
  := by
  cases op with
  | and =>
    cases skips
    exact .inr rfl
  | or =>
    cases skips
    exact .inl rfl
  | _ => cases skips

mutual

/-- An expression leaves one operand more. -/
theorem Expr.typed_piece (site : Site) (aims : Aim → Option Nat) (depth : Nat) :
  (e : Expr) → Typed aims depth (e.piece site) (some (depth + 1))
  | .boolean _ _ | .string _ _ | .null _ | .function _ _ | .method _ _ _ | .new _ _ =>
      .load ⟨rfl, nofun, rfl, rfl⟩
  | .int _ value => .load (Directive.plain_int value)
  | .double _ value => .load (Directive.plain_double value)
  | .var _ place => .load (Directive.plain_load _ _ place)
  | .assign m target value => by
      rw [Expr.piece]
      apply Typed.seq
      · exact (value.typed_piece site aims depth).duplicate
      · exact target.typed_storePiece site m.position aims (depth + 1)
  | .binary m op lhs rhs => by
      rw [Expr.piece]
      split
      · next skip skips =>
          apply Typed.mark _ Typed.empty
          apply Typed.seq _ (rhs.typed_piece site _ depth)
          refine Typed.drop ?_ ⟨rfl, nofun, rfl, rfl⟩
          apply Typed.seq (lhs.typed_piece site _ depth).duplicate
          exact Typed.jumpIf (Gen.shortCut?_eq_some skips) (Function.update_self ..)
      · next full =>
          exact (lhs.typed_piece site aims depth).binary (rhs.typed_piece site aims _)
            (Directive.plain_binary full _ _)
  | .unary _ op operand =>
      (operand.typed_piece site aims depth).unary (Directive.plain_unary op _)
  | .call m callee args => by
      have pushed := Expr.typed_pieces site aims depth args
      have called := callee.typed_piece site aims (depth + args.length)
      cases callee with
      | method _ object i =>
        have found : Typed aims (depth + args.length + 1)
            (site.one m.position { op := .pushMethod, operand := .number i.toNat })
            (some (depth + args.length + 2)) := .plain ⟨rfl, nofun, rfl, rfl⟩
        exact .invoke (.seq (.seq pushed (object.typed_piece site aims _)) found)
      | _ => exact .invoke (.seq pushed called)
  | .index _ array i =>
      (array.typed_piece site aims depth).binary (i.typed_piece site aims _)
        ⟨rfl, nofun, rfl, rfl⟩
  | .field _ object _ => (object.typed_piece site aims depth).unary ⟨rfl, nofun, rfl, rfl⟩
  | .newArray _ size => (size.typed_piece site aims depth).unary ⟨rfl, nofun, rfl, rfl⟩
  | .arrayLiteral _ items =>
      .seq (Expr.typed_pieces site aims depth items) (.plain ⟨rfl, nofun, rfl, rfl⟩)
  | .convert _ _ operand | .downCast _ _ operand | .instanceOf _ _ operand =>
      (operand.typed_piece site aims depth).unary ⟨rfl, nofun, rfl, rfl⟩
  | .arrayLength _ array => (array.typed_piece site aims depth).unary ⟨rfl, nofun, rfl, rfl⟩
  | .stringLength _ text => (text.typed_piece site aims depth).unary ⟨rfl, nofun, rfl, rfl⟩

theorem Expr.typed_pieces (site : Site) (aims : Aim → Option Nat) (depth : Nat) :
  (es : List Expr) → Typed aims depth (Expr.pieces site es) (some (depth + es.length))
  | [] => .empty
  | e :: rest => by
      have later := Expr.typed_pieces site aims (depth + 1) rest
      rw [Nat.add_right_comm, Nat.add_assoc] at later
      exact .seq (e.typed_piece site aims depth) later

/-- An assignment takes one operand. -/
theorem Expr.typed_storePiece (site : Site) (position : Position) (aims : Aim → Option Nat)
    (depth : Nat) (target : Expr) :
  Typed aims (depth + 1) (target.storePiece site position) (some depth)
  := by
  have dropped : Typed aims (depth + 1) (site.one position { op := .pop }) (some depth) :=
    .consume ⟨rfl, nofun, rfl, rfl⟩
  cases target with
  | var m place => exact .consume (Directive.plain_store _ _ place)
  | index m array i =>
    have stored : Typed aims (depth + 3)
        (site.one position { op := .popArray m.ty.slotKind }) (some depth) :=
      .consume ⟨rfl, nofun, rfl, rfl⟩
    exact .seq (.seq (array.typed_piece site aims _) (i.typed_piece site aims _)) stored
  | field m object i =>
    have stored : Typed aims (depth + 2)
        (site.one position { op := .popField m.ty.slotKind, operand := .number i.toNat })
        (some depth) := .consume ⟨rfl, nofun, rfl, rfl⟩
    exact .seq (object.typed_piece site aims _) stored
  | _ => exact dropped

end

/-- An expression for its effect leaves nothing. -/
theorem Expr.typed_effectPiece (site : Site) (aims : Aim → Option Nat) (depth : Nat) (e : Expr) :
  Typed aims depth (e.effectPiece site) (some depth)
  := by
  have typed := e.typed_piece site aims depth
  cases e with
  | assign m target value =>
    exact .seq (value.typed_piece site aims depth)
      (target.typed_storePiece site m.position aims depth)
  | _ => exact typed.drop ⟨rfl, nofun, rfl, rfl⟩

/-- Inside a loop, the ends of the loop are reached without operands. -/
def LoopAims (inLoop : Bool) (aims : Aim → Option Nat) : Prop :=
  inLoop → aims .break_ = some 0 ∧ aims .continue_ = some 0

theorem LoopAims.update {inLoop : Bool} (loop : LoopAims inLoop aims) (aim : Aim) :
  LoopAims inLoop (Function.update aims aim (some 0))
  := by
  intro inside
  obtain ⟨breaks, continues⟩ := loop inside
  cases aim
  all_goals simp [Function.update, breaks, continues]

theorem typed_optionalEffectPiece (site : Site) (aims : Aim → Option Nat) (depth : Nat)
    (e : Option Expr) :
  Typed aims depth (optionalEffectPiece site e) (some depth)
  := by
  cases e with
  | none => exact .empty
  | some e => exact e.typed_effectPiece site aims depth

theorem typed_branchPiece {site : Site} {condition : Expr} {body others : Piece}
    (done : aims .done = some 0)
    (typedBody : Typed (Function.update aims .next (some 0)) 0 body (some 0))
    (typedOthers : Typed (Function.update aims .next (some 0)) 0 others (some 0)) :
  Typed aims 0 (branchPiece site condition body others) (some 0)
  := by
  apply Typed.mark _ typedOthers
  apply Typed.seq
  · apply Typed.seq _ typedBody
    apply Typed.seq (condition.typed_piece site _ 0)
    exact .jumpIf (.inr rfl) (Function.update_self ..)
  · apply Typed.unreached
    apply Typed.jump
    simp [Function.update, done]

theorem typed_loopPiece {site : Site} {position : Position} {condition post : Option Expr}
    {body : Piece} (typedBody : ∀ aims, LoopAims true aims → Typed aims 0 body (some 0)) :
  Typed aims 0 (loopPiece site position condition body post) (some 0)
  := by
  apply Typed.mark .empty
  apply Typed.mark _ .empty
  apply Typed.mark
  · apply Typed.seq
    · cases condition with
      | none => exact .empty
      | some condition =>
          apply Typed.seq (condition.typed_piece site _ 0)
          apply Typed.jumpIf (.inr rfl)
          simp [Function.update]
    · apply typedBody
      intro _
      simp [Function.update]
  · apply Typed.seq (typed_optionalEffectPiece site _ 0 post)
    apply Typed.unreached
    apply Typed.jump
    simp [Function.update]

theorem typed_returnPiece (site : Site) (position : Position) (aims : Aim → Option Nat)
    (value : Option Expr) :
  Typed aims 0 (returnPiece site position value) none
  := by
  cases value with
  | none => exact .seq (.load (Directive.plain_default _)) .ret
  | some value => exact .seq (value.typed_piece site aims 0) .ret

mutual

/-- A statement leaves as many operands as it finds. -/
theorem Stmt.typed_piece (site : Site) {inLoop : Bool} {aims : Aim → Option Nat}
    (loop : LoopAims inLoop aims) :
  (s : Stmt) → Typed aims 0 (s.piece site inLoop) (some 0)
  | .expression _ e => e.typed_effectPiece _ aims 0
  | .declaration _ _ _ none => .empty
  | .declaration _ place _ (some initial) =>
      (initial.typed_piece _ aims 0).drop (Directive.plain_store _ _ place)
  | .branch p _ thenBlock elifs elseBlock => by
      apply Typed.mark _ .empty
      apply typed_branchPiece (Function.update_self ..)
      · exact Stmt.typed_pieces _ ((loop.update _).update _) thenBlock
      · apply Typed.seq
        · apply Elif.typed_pieces _ ((loop.update _).update _) _ elifs
          simp [Function.update]
        · exact Stmt.typed_elsePiece _ ((loop.update _).update _) elseBlock
  | .loop p init condition post body =>
      .seq (typed_optionalEffectPiece _ aims 0 init)
        (typed_loopPiece fun _ inside => Stmt.typed_pieces _ inside body)
  | .ret _ _ => .unreached (typed_returnPiece _ _ _ _)
  | .break_ _ => by
      rw [Stmt.piece]
      split
      · next inside => exact .unreached (.jump (loop inside).1)
      · exact .empty
  | .continue_ _ => by
      rw [Stmt.piece]
      split
      · next inside => exact .unreached (.jump (loop inside).2)
      · exact .empty
  | .block _ statements => Stmt.typed_pieces _ loop statements

theorem Stmt.typed_pieces (site : Site) {inLoop : Bool} {aims : Aim → Option Nat}
    (loop : LoopAims inLoop aims) :
  (ss : List Stmt) → Typed aims 0 (Stmt.pieces site inLoop ss) (some 0)
  | [] => .empty
  | s :: rest => .seq (s.typed_piece site loop) (Stmt.typed_pieces site loop rest)

theorem Elif.typed_pieces (site : Site) {inLoop : Bool} {aims : Aim → Option Nat}
    (loop : LoopAims inLoop aims) (done : aims .done = some 0) :
  (elifs : List Elif) → Typed aims 0 (Elif.pieces site inLoop elifs) (some 0)
  | [] => .empty
  | .mk _ body :: rest => by
      apply typed_branchPiece done
      · exact Stmt.typed_pieces site (loop.update _) body
      · apply Elif.typed_pieces site (loop.update _) _ rest
        simp [Function.update, done]

theorem Stmt.typed_elsePiece (site : Site) {inLoop : Bool} {aims : Aim → Option Nat}
    (loop : LoopAims inLoop aims) :
  (body : Option (List Stmt)) → Typed aims 0 (Stmt.elsePiece site inLoop body) (some 0)
  | none => .empty
  | some body => Stmt.typed_pieces site loop body

end

/-- Control does not run past statements of which the last one returns. -/
theorem Stmt.typed_pieces_of_return (site : Site) {inLoop : Bool} (loop : LoopAims inLoop aims)
    {ss : List Stmt} (returns : (ss.getLast?.map Stmt.isReturn).getD false) :
  Typed aims 0 (Stmt.pieces site inLoop ss) none
  := by
  induction ss with
  | nil => cases returns
  | cons s rest ih =>
    cases rest with
    | nil =>
      cases s with
      | ret p value => exact .unentered (typed_returnPiece _ _ _ _)
      | _ => cases returns
    | cons s' rest => exact .seq (s.typed_piece site loop) (ih (by simpa using returns))

/-- Control does not run past the end of a function. -/
theorem FunctionDecl.typed_piece (f : FunctionDecl) (body : Block) :
  Typed (fun _ => none) 0 (f.piece body) none
  := by
  have loop : LoopAims false (fun _ => none) := nofun
  unfold FunctionDecl.piece
  split
  · next returns => exact .unentered (Stmt.typed_pieces_of_return _ loop returns)
  · exact .seq (Stmt.typed_pieces _ loop body) (typed_returnPiece _ _ _ _)

theorem Program.typed_topLevel (p : Program) :
  Typed (fun _ => none) 0 (p.piece none) (some 0)
  := by
  have loop : LoopAims false (fun _ => none) := nofun
  exact Stmt.typed_pieces _ loop p.statements

/-- Control leaves the code of the top level at its end, and no other code. -/
theorem Program.flows_points (p : Program) (current : Option Nat) :
  Flows (p.points current)
    (fun pc depth => current = none ∧ pc = (p.piece current).size ∧ depth = 0)
  := by
  cases current with
  | none =>
    apply (p.typed_topLevel.flows (fun _ => 0) 0).mono
    rintro pc depth (⟨rfl, ends⟩ | ⟨aim, impossible, -⟩)
    · cases ends
      exact ⟨rfl, Nat.zero_add _, rfl⟩
    · cases impossible
  | some index =>
    have typed : Typed (fun _ => none) 0 (p.piece (some index)) none
        ∨ p.piece (some index) = .empty := by
      simp only [Program.piece]
      cases p.functions[index]? with
      | none => exact .inr rfl
      | some f =>
        cases bodied : f.body with
        | none => exact .inr (by simp [bodied])
        | some body => exact .inl (by simpa [bodied] using f.typed_piece body)
    rcases typed with typed | empty
    · apply (typed.flows (fun _ => 0) 0).mono
      rintro pc depth (⟨-, impossible⟩ | ⟨aim, impossible, -⟩)
      · cases impossible
      · cases impossible
    · intro point listed
      rw [Program.points, empty] at listed
      simp [Piece.points] at listed

/-- The code of a function starts with an instruction. -/
theorem Program.lands_points_function {p : Program} {index : Nat} {f : FunctionDecl}
    {body : Block} (found : p.functions[index]? = some f) (hasBody : f.body = some body) :
  Lands (p.points (some index)) 0 0
  := by
  have piece : p.piece (some index) = f.piece body := by
    simp [Program.piece, found, hasBody]
  rw [Program.points, piece]
  rcases (f.typed_piece body).enters (fun _ => 0) 0 with lands | ⟨-, impossible⟩
  · exact lands
  · cases impossible

/-- The code of the top level starts with an instruction, if it is not empty. -/
theorem Program.lands_points_topLevel (p : Program) :
  Lands (p.points none) 0 0 ∨ (p.piece none).size = 0
  := by
  exact (p.typed_topLevel.enters (fun _ => 0) 0).imp_right And.left

end Bytecode
