import Mathlib
import Bytecode.Proofs.Generate.Program

/-!
# Which programs are compiled

`Program.Legal` collects the static rules of programs: each expression and each statement obeys
the rule for its kind, wherever it stands, and names are not defined twice. Compilation fails
only because a rule is broken or because the program is too large for the format of the code, and
it succeeds only if no rule is broken: `exists_compile_iff_legal`.

Every action of the generator `Checks` a condition in this sense. An action that is put together
from others checks the conjunction of their conditions.
-/

namespace Bytecode

/-! ### Rules -/

/-- If the object is of a class, then the class exists and has so many members that the index is
one of them. -/
def Scope.HasMember (scope : Scope) (count : Class → Nat) (object : Ty) (index : UInt16) : Prop :=
  ∀ k, object = .class k → ∃ c, scope.class? k = some c ∧ index.toNat < count c

/-- The rule for an expression, apart from those for the expressions in it. -/
def Expr.Obeys (scope : Scope) (inFunction : Bool) : Expr → Prop
  | .var _ (.local _) => inFunction = true
  | .function _ i => i.toNat < scope.functionCount
  | .assign _ target _ => target.isTarget = true
  | .call _ (.method _ object i) _ => scope.HasMember (·.methods.length) object.ty i
  | .method _ _ _ => False
  | .field _ object i => scope.HasMember (·.fields.length) object.ty i
  | .new _ i | .downCast _ i _ | .instanceOf _ i _ => i.toNat < scope.classes.size
  | _ => True

/-- The expressions that an expression is made of. The method of a call is taken as a part of the
call. -/
def Expr.inner : Expr → List Expr
  | .boolean _ _ | .int _ _ | .double _ _ | .string _ _ | .null _ | .var _ _ | .function _ _
  | .new _ _ => []
  | .assign _ target value => [target, value]
  | .binary _ _ lhs rhs => [lhs, rhs]
  | .call _ (.method _ object _) args => object :: args
  | .call _ callee args => callee :: args
  | .index _ array i => [array, i]
  | .arrayLiteral _ items => items
  | .unary _ _ operand | .method _ operand _ | .field _ operand _ | .newArray _ operand
  | .convert _ _ operand | .downCast _ _ operand | .instanceOf _ _ operand
  | .arrayLength _ operand | .stringLength _ operand => [operand]

/-- The expression and all expressions in it obey their rules. -/
inductive Expr.Legal (scope : Scope) (inFunction : Bool) : Expr → Prop
  | intro {e : Expr} (obeys : e.Obeys scope inFunction)
      (inner : ∀ part ∈ e.inner, Expr.Legal scope inFunction part) : Expr.Legal scope inFunction e

theorem Expr.legal_iff {scope : Scope} {inFunction : Bool} {e : Expr} :
  e.Legal scope inFunction
    ↔ e.Obeys scope inFunction ∧ ∀ part ∈ e.inner, part.Legal scope inFunction
  := by
  constructor
  · rintro ⟨obeys, inner⟩
    exact ⟨obeys, inner⟩
  · rintro ⟨obeys, inner⟩
    exact .intro obeys inner

namespace Stmt

/-- The conditions of a branch or a loop. -/
def conditions : Stmt → List Expr
  | .branch _ condition _ elifs _ => condition :: elifs.map Elif.condition
  | .loop _ _ condition _ _ => condition.toList
  | _ => []

/-- The expressions of a statement, apart from those of the statements in it. -/
def exprs : Stmt → List Expr
  | .expression _ e => [e]
  | .declaration _ _ _ initial => initial.toList
  | .branch _ condition _ elifs _ => condition :: elifs.map Elif.condition
  | .loop _ init condition post _ => init.toList ++ condition.toList ++ post.toList
  | .ret _ value => value.toList
  | .break_ _ | .continue_ _ | .block _ _ => []

/-- The statements that a statement is made of. -/
def inner : Stmt → List Stmt
  | .branch _ _ thenBlock elifs elseBlock =>
    thenBlock ++ elifs.flatMap Elif.block ++ elseBlock.getD []
  | .loop _ _ _ _ body => body
  | .block _ statements => statements
  | _ => []

def isLoop : Stmt → Bool
  | .loop _ _ _ _ _ => true
  | _ => false

/-- The rule for a statement, apart from those for the expressions and statements in it. -/
def Obeys (function : Option FunctionDecl) (inLoop : Bool) (s : Stmt) : Prop :=
  (∀ e ∈ s.conditions, e.ty = .boolean) ∧ match s with
    | .declaration _ (.local _) _ (some _) => function.isSome = true
    | .ret _ value => ∃ f, function = some f ∧ (value.isSome → f.returnType ≠ .void)
    | .break_ _ | .continue_ _ => inLoop = true
    | _ => True

/-- The statement and all statements and expressions in it obey their rules. -/
inductive Legal (scope : Scope) (function : Option FunctionDecl) : Bool → Stmt → Prop
  | intro {inLoop : Bool} {s : Stmt} (obeys : s.Obeys function inLoop)
      (exprs : ∀ e ∈ s.exprs, e.Legal scope function.isSome)
      (inner : ∀ part ∈ s.inner, Legal scope function (inLoop || s.isLoop) part) :
      Legal scope function inLoop s

theorem legal_iff {scope : Scope} {function : Option FunctionDecl} {inLoop : Bool} {s : Stmt} :
  s.Legal scope function inLoop
    ↔ s.Obeys function inLoop ∧ (∀ e ∈ s.exprs, e.Legal scope function.isSome)
      ∧ ∀ part ∈ s.inner, part.Legal scope function (inLoop || s.isLoop)
  := by
  constructor
  · rintro ⟨obeys, exprs, inner⟩
    exact ⟨obeys, exprs, inner⟩
  · rintro ⟨obeys, exprs, inner⟩
    exact .intro obeys exprs inner

end Stmt

/-- The body of a function, or the top level, is made of legal statements. -/
def Block.Legal (scope : Scope) (function : Option FunctionDecl) (body : Block) : Prop :=
  ∀ s ∈ body, s.Legal scope function false

/-- The static rules of programs. -/
structure Program.Legal (p : Program) : Prop where
  functionNames : (p.functions.map fun f => (f.package, f.class_, f.name)).Nodup
  classNames : (p.classes.map fun c => (c.package, c.name)).Nodup
  bodies : ∃ classes, layoutClasses p = .ok classes
    ∧ (∀ f ∈ p.functions, ∀ body, f.body = some body →
        Block.Legal ⟨p.functions.length, classes.toArray⟩ (some f) body)
    ∧ Block.Legal ⟨p.functions.length, classes.toArray⟩ none p.statements

/-- The defect is that something is too large for the format of the code. -/
def Defect.isSize : Defect → Bool
  | .operandOutOfRange _ _ | .constantPoolOverflow | .codeTooLarge => true
  | _ => false

/-! ### Actions that check a condition -/

/-- The action succeeds only if the condition holds, and fails only if it does not or if something
is too large. When it succeeds, the draft is still as described. -/
structure Checks (I : Draft → Prop) (P : Prop) {α : Type} (x : Gen α) : Prop where
  ends : ∀ d, I d → Ends (fun _ d' => P ∧ I d') (fun e _ => ¬P ∨ e.defect.isSize = true) (x d)

/-- The draft is of a body in which code is generated inside the blocks. -/
def Draft.Inside (function : Option FunctionDecl) (blocks : List BlockKind) (d : Draft) : Prop :=
  d.body.function = function ∧ d.body.blocks = blocks

/-- One of the blocks is a loop. -/
def inLoop (blocks : List BlockKind) : Bool := ({ blocks } : Body).innermostLoop?.isSome

namespace Checks

variable {α β : Type} {I : Draft → Prop} {P Q : Prop}
variable {x : Gen α} {f : α → Gen β} {defect : Defect} {position : Position}

theorem congr (checks : Checks I P x) (same : P ↔ Q) :
  Checks I Q x
  := by
  rwa [propext same] at checks

/-- The second part of an action is reached only if the condition of the first part holds. -/
theorem bind (first : Checks I P x) (second : P → ∀ a, Checks I Q (f a)) :
  Checks I (P ∧ Q) (x >>= f)
  := by
  constructor
  intro d inside
  have done := first.ends d inside
  cases run : x d with
  | error e d₁ =>
    rw [run] at done
    rw [bind_of_error run]
    rcases done with broken | large
    · exact .inl fun both => broken both.1
    · exact .inr large
  | ok a d₁ =>
    rw [run] at done
    rw [bind_of_ok run]
    apply ((second done.1 a).ends d₁ done.2).mono
    · exact fun _ d₂ holds => ⟨⟨done.1, holds.1⟩, holds.2⟩
    · rintro e d₂ (broken | large)
      · exact .inl fun both => broken both.2
      · exact .inr large

/-- What comes first checks nothing. -/
theorem after (first : Checks I True x) (second : ∀ a, Checks I P (f a)) :
  Checks I P (x >>= f)
  := (first.bind fun _ => second).congr (iff_of_eq (true_and P))

/-- What comes last checks nothing. -/
theorem before (first : Checks I P x) (second : ∀ a, Checks I True (f a)) :
  Checks I P (x >>= f)
  := (first.bind fun _ => second).congr (iff_of_eq (and_true P))

theorem pure (a : α) :
  Checks I True (Pure.pure a)
  := ⟨fun _ inside => ⟨trivial, inside⟩⟩

theorem fail :
  Checks I False (Gen.fail defect position : Gen α)
  := ⟨fun _ _ => .inl not_false⟩

/-- What comes after a failure is never reached. -/
theorem fail_bind :
  Checks I False (Gen.fail defect position >>= f)
  := ⟨fun _ _ => .inl not_false⟩

theorem ite {c : Prop} [Decidable c] {y : Gen α} (yes : c → Checks I P x) (no : ¬c → Checks I P y) :
  Checks I P (if c then x else y)
  := by
  split
  · next holds => exact yes holds
  · next fails => exact no fails

/-- An action that fails unless the condition holds. -/
theorem guard {c : Prop} [Decidable c] :
  Checks I c (if c then Pure.pure () else Gen.fail defect position)
  := by
  apply ite
  · exact fun holds => (pure ()).congr (iff_of_true trivial holds)
  · exact fun fails => fail.congr (iff_of_false not_false fails)

theorem map (f : α → β) (checks : Checks I P x) :
  Checks I P (f <$> x)
  := by
  constructor
  intro d inside
  have done := checks.ends d inside
  change Ends _ _ (EStateM.map f x d)
  unfold EStateM.map
  cases run : x d with
  | error e d₁ | ok a d₁ =>
    rw [run] at done
    exact done

theorem discard (checks : Checks I P x) :
  Checks I P (Functor.discard x)
  := checks.map _

end Checks

section Generator

variable {scope : Scope} {function : Option FunctionDecl} {blocks : List BlockKind}
  {position : Position}

namespace Checks

/-! ### Instructions -/

theorem emit (op : Op) (operands : List Int) :
  Checks (Draft.Inside function blocks) True (Gen.emit position op operands)
  := by
  constructor
  intro d inside
  cases run : Gen.emit position op operands d with
  | ok _ d' =>
    obtain ⟨pc, buffer, -, rfl⟩ := Gen.emit_eq_ok run
    exact ⟨trivial, inside⟩
  | error e d' =>
    obtain ⟨value, refused⟩ := Gen.emit_eq_error run
    exact .inr (by rw [refused]; rfl)

theorem emitJump (op : Op) (label : Label) :
  Checks (Draft.Inside function blocks) True (Gen.emitJump position op label)
  := emit op [label.number.toNat]

theorem newLabel :
  Checks (Draft.Inside function blocks) True Gen.newLabel
  := ⟨fun _ inside => ⟨trivial, inside⟩⟩

theorem setLabel (label : Label) :
  Checks (Draft.Inside function blocks) True (Gen.setLabel label)
  := ⟨fun _ inside => ⟨trivial, inside⟩⟩

theorem addConstant (c : Constant) :
  Checks (Draft.Inside function blocks) True (Gen.addConstant c position)
  := by
  constructor
  intro d inside
  cases added : d.pool.add c with
  | ok result =>
    simp only [Gen.addConstant, added]
    exact ⟨trivial, inside⟩
  | error defect =>
    simp only [Gen.addConstant, added]
    right
    unfold ConstantPool.add at added
    split at added
    · cases added
    · split at added
      · cases added
      · cases added
        rfl

theorem emitInt (value : Int64) :
  Checks (Draft.Inside function blocks) True (Gen.emitInt position value)
  := by
  apply ite
  · exact fun _ => emit _ _
  · intro _
    apply ite
    · exact fun _ => emit _ _
    · exact fun _ => (addConstant _).after fun _ => emit _ _

theorem emitDouble (value : Double) :
  Checks (Draft.Inside function blocks) True (Gen.emitDouble position value)
  := by
  apply ite
  · exact fun _ => emit _ _
  · intro _
    apply ite
    · exact fun _ => emit _ _
    · exact fun _ => (addConstant _).after fun _ => emit _ _

theorem emitString (value : String) :
  Checks (Draft.Inside function blocks) True (Gen.emitString position value)
  := (addConstant _).after fun _ => emit _ _

theorem emitDefault (ty : Ty) :
  Checks (Draft.Inside function blocks) True (Gen.emitDefault position ty)
  := by
  unfold Gen.emitDefault
  split
  · exact emit _ _
  · exact emitString _
  · apply ite
    all_goals exact fun _ => emit _ _

/-! ### What is known of the body -/

/-- An action that depends on the body. -/
theorem ofBody {α : Type} {P : Prop} {f : Body → Gen α}
    (second : ∀ b : Body, b.function = function → b.blocks = blocks →
      Checks (Draft.Inside function blocks) P (f b)) :
  Checks (Draft.Inside function blocks) P (Gen.getBody >>= f)
  := ⟨fun d inside => (second d.body inside.1 inside.2).ends d inside⟩

/-- The place of a local variable is known in a function only. -/
theorem localOffset {slot : UInt16} {f : Int → Gen Unit}
    (second : ∀ offset, Checks (Draft.Inside function blocks) True (f offset)) :
  Checks (Draft.Inside function blocks) (function.isSome = true)
    (Gen.getBody >>= fun b => Gen.ofExcept (b.localOffset slot position) >>= f)
  := by
  apply ofBody
  intro b same _
  rw [Body.localOffset, same]
  cases function with
  | none => exact fail_bind.congr (by simp)
  | some g => exact ((pure _).after second).congr (by simp)

theorem pushVariable (place : Variable) (ty : Ty) :
  Checks (Draft.Inside function blocks) (∀ slot, place = .local slot → function.isSome = true)
    (Gen.pushVariable position place ty)
  := by
  cases place with
  | «local» slot => exact (localOffset fun _ => emit _ _).congr (by simp)
  | global index => exact (emit _ _).congr (by simp)

theorem popVariable (place : Variable) (ty : Ty) :
  Checks (Draft.Inside function blocks) (∀ slot, place = .local slot → function.isSome = true)
    (Gen.popVariable position place ty)
  := by
  cases place with
  | «local» slot => exact (localOffset fun _ => emit _ _).congr (by simp)
  | global index => exact (emit _ _).congr (by simp)

/-! ### Tables -/

theorem checkFunction (index : UInt16) :
  Checks (Draft.Inside function blocks) (index.toNat < scope.functionCount)
    (Gen.checkFunction scope index position)
  := guard

theorem lookupClass (index : UInt16) :
  Checks (Draft.Inside function blocks) (index.toNat < scope.classes.size)
    (Gen.lookupClass scope index position)
  := by
  unfold Gen.lookupClass
  split
  · next c found =>
      exact (pure c).congr (iff_of_true trivial (Array.getElem?_eq_some_iff.1 found).1)
  · next missing =>
      exact fail.congr (iff_of_false not_false (Nat.not_lt.2 (Array.getElem?_eq_none_iff.1 missing)))

/-- A check of a member of an object. -/
theorem checkMember {object : Ty} {index : UInt16} {count : Class → Nat} {defect : Class → Defect} :
  Checks (Draft.Inside function blocks) (scope.HasMember count object index)
    (match object.classIndex? with
      | none => Pure.pure ()
      | some classIndex => do
        let c ← Gen.lookupClass scope classIndex position
        if index.toNat < count c then Pure.pure () else Gen.fail (defect c) position : Gen Unit)
  := by
  cases object with
  | «class» k =>
    cases found : scope.class? k with
    | none =>
      simp only [Ty.classIndex?, Gen.lookupClass, found]
      exact fail_bind.congr (by simp [Scope.HasMember, found])
    | some c =>
      simp only [Ty.classIndex?, Gen.lookupClass, found, pure_bind]
      exact guard.congr (by simp [Scope.HasMember, found])
  | _ => exact (pure ()).congr (by simp [Scope.HasMember])

theorem checkField (object : Ty) (index : UInt16) :
  Checks (Draft.Inside function blocks) (scope.HasMember (·.fields.length) object index)
    (Gen.checkField scope object index position)
  := checkMember

theorem checkMethod (object : Ty) (index : UInt16) :
  Checks (Draft.Inside function blocks) (scope.HasMember (·.methods.length) object index)
    (Gen.checkMethod scope object index position)
  := checkMember

theorem checkTarget (target : Expr) :
  Checks (Draft.Inside function blocks) (target.isTarget = true) (Gen.checkTarget target position)
  := by
  cases target with
  | var _ _ | index _ _ _ | field _ _ _ => exact (pure ()).congr (by simp [Expr.isTarget])
  | _ => exact fail.congr (by simp [Expr.isTarget])

/-! ### Expressions -/

attribute [local simp] Expr.inner Expr.Obeys

/-- An action checks an expression if it checks the rule and what the expression is made of. -/
theorem ofExpr {x : Gen Unit} {I : Draft → Prop} {P : Prop} {e : Expr} (checks : Checks I P x)
    (same : P ↔ e.Obeys scope function.isSome
      ∧ ∀ part ∈ e.inner, part.Legal scope function.isSome) :
  Checks I (e.Legal scope function.isSome) x
  := checks.congr (same.trans Expr.legal_iff.symm)

mutual

theorem expr :
  (e : Expr) → Checks (Draft.Inside function blocks) (e.Legal scope function.isSome)
    (Gen.expr scope e)
  | .boolean _ _ | .null _ => (emit _ _).ofExpr (by simp)
  | .int _ _ => (emitInt _).ofExpr (by simp)
  | .double _ _ => (emitDouble _).ofExpr (by simp)
  | .string _ _ => (emitString _).ofExpr (by simp)
  | .var _ (.local _) | .var _ (.global _) => (pushVariable _ _).ofExpr (by simp)
  | .function _ _ => ((checkFunction _).before fun _ => emit _ _).ofExpr (by simp)
  | .assign _ target value =>
      ((checkTarget target).bind fun isTarget _ => (expr value).bind fun _ _ =>
        (emit _ _).after fun _ => store target isTarget).ofExpr
        (by simp [and_comm])
  | .binary _ op lhs rhs => by
      rw [Gen.expr]
      split
      · exact (newLabel.after fun _ => (expr lhs).bind fun _ _ => (emit _ _).after fun _ =>
          (emitJump _ _).after fun _ => (emit _ _).after fun _ => (expr rhs).before fun _ =>
            setLabel _).ofExpr (by simp)
      · exact ((expr lhs).bind fun _ _ => (expr rhs).before fun _ => emit _ _).ofExpr (by simp)
  | .unary _ _ operand | .newArray _ operand | .convert _ _ operand | .arrayLength _ operand
  | .stringLength _ operand => ((expr operand).before fun _ => emit _ _).ofExpr (by simp)
  | .call _ callee args => by
      have called := expr callee
      cases callee with
      | method _ object i =>
        refine ((exprs args).bind fun _ _ => (checkMethod _ _).bind fun _ _ =>
          (expr object).before fun _ => (emit _ _).after fun _ => emit _ _).ofExpr ?_
        simp only [Expr.inner, Expr.Obeys, List.forall_mem_cons]
        tauto
      | _ =>
        exact ((exprs args).bind fun _ _ => called.before fun _ => emit _ _).ofExpr
          (by simp [and_comm])
  | .method _ _ _ => fail.ofExpr (by simp)
  | .index _ array i =>
      ((expr array).bind fun _ _ => (expr i).before fun _ => emit _ _).ofExpr (by simp)
  | .field _ object _ =>
      ((checkField _ _).bind fun _ _ => (expr object).before fun _ => emit _ _).ofExpr (by simp)
  | .new _ _ => ((lookupClass _).discard.before fun _ => emit _ _).ofExpr (by simp)
  | .arrayLiteral _ items => ((exprs items).before fun _ => emit _ _).ofExpr (by simp)
  | .downCast _ _ operand | .instanceOf _ _ operand =>
      ((lookupClass _).discard.bind fun _ _ => (expr operand).before fun _ => emit _ _).ofExpr
        (by simp)

theorem exprs :
  (es : List Expr) → Checks (Draft.Inside function blocks)
    (∀ e ∈ es, e.Legal scope function.isSome) (Gen.exprs scope es)
  | [] => (pure ()).congr (by simp)
  | e :: rest => ((expr e).bind fun _ _ => exprs rest).congr List.forall_mem_cons.symm

theorem store {at_ : Position} (target : Expr) (isTarget : target.isTarget = true) :
  Checks (Draft.Inside function blocks) (target.Legal scope function.isSome)
    (Gen.store scope at_ target)
  := by
  cases target with
  | var _ place =>
    refine (popVariable _ _).ofExpr ?_
    cases place with
    | «local» slot | global index => simp
  | index _ array i =>
    exact ((expr array).bind fun _ _ => (expr i).before fun _ => emit _ _).ofExpr (by simp)
  | field _ object _ =>
    exact ((checkField _ _).bind fun _ _ => (expr object).before fun _ => emit _ _).ofExpr (by simp)
  | _ => cases isTarget

end

/-- An assignment for its effect alone is checked as any other. -/
theorem effect (e : Expr) :
  Checks (Draft.Inside function blocks) (e.Legal scope function.isSome) (Gen.effect scope e)
  := by
  have evaluated : Checks (Draft.Inside function blocks) (e.Legal scope function.isSome)
    (Gen.expr scope e) := expr e
  cases e with
  | assign _ target value =>
    exact ((checkTarget target).bind fun isTarget _ => (expr value).bind fun _ _ =>
      store target isTarget).ofExpr (by simp [and_comm])
  | _ => exact evaluated.before fun _ => emit _ _

theorem optionalEffect (e : Option Expr) :
  Checks (Draft.Inside function blocks) (∀ part ∈ e.toList, part.Legal scope function.isSome)
    (Gen.optionalEffect scope e)
  := by
  cases e with
  | none => exact (pure ()).congr (by simp)
  | some e => exact (effect e).congr (by simp)

/-! ### Statements -/

theorem atLine {line : UInt32} {action : Gen Unit} {P : Prop}
    (checks : Checks (Draft.Inside function blocks) P action) :
  Checks (Draft.Inside function blocks) P (Gen.atLine line action)
  := by
  constructor
  intro d inside
  have entered : Draft.Inside function blocks ⟨d.pool, d.body.enterLine line⟩ := by
    unfold Body.enterLine
    split
    all_goals exact inside
  change Ends _ _ ((action >>= fun _ => Gen.modifyBody (Body.restoreLine d.body.line))
    ⟨d.pool, d.body.enterLine line⟩)
  apply (checks.ends _ entered).bind
  exact fun _ d₁ done => done

theorem inBlock {kind : BlockKind} {action : Gen Unit} {P : Prop}
    (checks : Checks (Draft.Inside function (kind :: blocks)) P action) :
  Checks (Draft.Inside function blocks) P (Gen.inBlock kind action)
  := by
  constructor
  intro d inside
  have entered : Draft.Inside function (kind :: blocks) ⟨d.pool, d.body.enterBlock kind⟩ :=
    ⟨inside.1, congrArg (kind :: ·) inside.2⟩
  change Ends _ _ ((action >>= fun _ => Gen.modifyBody Body.leaveBlock)
    ⟨d.pool, d.body.enterBlock kind⟩)
  apply (checks.ends _ entered).bind
  rintro _ d₁ ⟨holds, same, nested⟩
  exact ⟨holds, same, congrArg List.tail nested⟩

theorem plainBlock {body : List Stmt}
    (checks : Checks (Draft.Inside function (.plain :: blocks))
      (∀ s ∈ body, s.Legal scope function (inLoop (.plain :: blocks))) (Gen.stmts scope body)) :
  Checks (Draft.Inside function blocks) (∀ s ∈ body, s.Legal scope function (inLoop blocks))
    (Gen.inBlock .plain (Gen.stmts scope body))
  := checks.inBlock

theorem loopBlock {breakLabel continueLabel : Label} {body : List Stmt}
    (checks : Checks (Draft.Inside function (.loop breakLabel continueLabel :: blocks))
      (∀ s ∈ body, s.Legal scope function (inLoop (.loop breakLabel continueLabel :: blocks)))
      (Gen.stmts scope body)) :
  Checks (Draft.Inside function blocks) (∀ s ∈ body, s.Legal scope function true)
    (Gen.inBlock (.loop breakLabel continueLabel) (Gen.stmts scope body))
  := checks.inBlock

/-- A condition must be boolean. -/
theorem condition {α : Type} {condition : Expr} {f : Unit → Gen α} {defect : Defect}
    (second : ∀ a, Checks (Draft.Inside function blocks) True (f a)) :
  Checks (Draft.Inside function blocks)
    (condition.ty = .boolean ∧ condition.Legal scope function.isSome)
    (if ¬condition.ty.isBoolean then do
        Gen.fail defect position
        Gen.expr scope condition >>= f
      else Gen.expr scope condition >>= f)
  := by
  have boolean : condition.ty.isBoolean ↔ condition.ty = .boolean := by
    cases condition.ty with
    | _ => simp [Ty.isBoolean]
  rw [← boolean]
  apply ite
  · exact fun other => fail_bind.congr (by simp [other])
  · exact fun holds => ((expr condition).before second).congr (by simp [not_not.1 holds])

theorem branchCondition (condition : Expr) :
  Checks (Draft.Inside function blocks)
    (condition.ty = .boolean ∧ condition.Legal scope function.isSome)
    (Gen.branchCondition scope condition)
  := Checks.condition fun _ => newLabel.after fun _ => (emitJump _ _).after fun _ => pure _

theorem loopCondition (label : Label) (condition : Option Expr) :
  Checks (Draft.Inside function blocks)
    ((∀ e ∈ condition.toList, e.ty = .boolean)
      ∧ ∀ e ∈ condition.toList, e.Legal scope function.isSome)
    (Gen.loopCondition scope label condition)
  := by
  cases condition with
  | none => exact (pure ()).congr (by simp)
  | some condition => exact (Checks.condition fun _ => emitJump _ _).congr (by simp)

/-- A jump out of a loop is generated only inside one. -/
theorem enclosingLoop {defect : Defect} :
  Checks (Draft.Inside function blocks) (inLoop blocks = true)
    (Gen.enclosingLoop defect position)
  := by
  apply ofBody
  intro b _ same
  have known : b.innermostLoop?.isSome = inLoop blocks := by
    rw [← same]
    rfl
  rw [← known]
  cases b.innermostLoop? with
  | none => exact fail.congr (by simp)
  | some labels => exact (pure labels).congr (by simp)

/-- The rule for `return`. -/
theorem returnStmt (value : Option Expr) :
  Checks (Draft.Inside function blocks)
    ((∃ f, function = some f ∧ (value.isSome → f.returnType ≠ .void))
      ∧ ∀ e ∈ value.toList, e.Legal scope function.isSome)
    (Gen.returnStmt scope position value)
  := by
  apply ofBody
  intro b same _
  rw [same]
  cases function with
  | none => exact fail.congr (by simp)
  | some f =>
    cases value with
    | none => exact ((emitDefault _).after fun _ => emit _ _).congr (by simp)
    | some value =>
      have void : f.returnType.isVoid ↔ f.returnType = .void := by
        cases f.returnType with
        | _ => simp [Ty.isVoid]
      apply ite
      · intro isVoid
        exact fail_bind.congr (by simp [void.1 isVoid])
      · intro other
        exact ((expr value).before fun _ => emit _ _).congr (by simp [void.not.1 other])

attribute [local simp] Stmt.Obeys Stmt.conditions Stmt.exprs Stmt.inner Stmt.isLoop

/-- An action checks a statement if it checks the rule and what the statement is made of. -/
theorem ofStmt {x : Gen Unit} {I : Draft → Prop} {P : Prop} {inLoop : Bool} {s : Stmt}
    (checks : Checks I P x)
    (same : P ↔ s.Obeys function inLoop ∧ (∀ e ∈ s.exprs, e.Legal scope function.isSome)
      ∧ ∀ part ∈ s.inner, part.Legal scope function (inLoop || s.isLoop)) :
  Checks I (s.Legal scope function inLoop) x
  := checks.congr (same.trans Stmt.legal_iff.symm)

mutual

theorem stmt {blocks : List BlockKind} :
  (s : Stmt) → Checks (Draft.Inside function blocks) (s.Legal scope function (inLoop blocks))
    (Gen.stmt scope s)
  | .expression _ e => by
      rw [Gen.stmt]
      exact (effect e).atLine.ofStmt (by simp)
  | .declaration _ _ _ none => by
      rw [Gen.stmt]
      exact (pure ()).atLine.ofStmt (by simp)
  | .declaration _ place _ (some initial) => by
      rw [Gen.stmt]
      refine ((expr initial).bind fun _ _ => popVariable _ _).atLine.ofStmt ?_
      cases place with
      | «local» slot | global index =>
        simp [and_comm]
  | .branch _ condition thenBlock elifs elseBlock => by
      rw [Gen.stmt]
      refine (newLabel.after fun _ => (branchCondition condition).bind fun _ _ =>
        (stmts thenBlock).plainBlock.bind fun _ _ => (emitJump _ _).after fun _ =>
          (setLabel _).after fun _ => (elifBranches elifs).bind fun _ _ =>
            (elseBranch elseBlock).before fun _ => setLabel _).atLine.ofStmt ?_
      simp only [Stmt.Obeys, Stmt.conditions, Stmt.exprs, Stmt.inner, Stmt.isLoop, Bool.or_false,
        List.forall_mem_append, List.forall_mem_cons, List.forall_mem_map, List.forall_mem_flatMap,
        forall_and]
      tauto
  | .loop _ init condition post body => by
      rw [Gen.stmt]
      refine ((optionalEffect init).bind fun _ _ => newLabel.after fun _ => newLabel.after fun _ =>
        newLabel.after fun _ => (setLabel _).after fun _ => (loopCondition _ condition).bind
          fun _ _ => (stmts body).loopBlock.bind fun _ _ => (setLabel _).after fun _ =>
            (optionalEffect post).before fun _ => (emitJump _ _).after fun _ =>
              setLabel _).atLine.ofStmt ?_
      simp only [Stmt.Obeys, Stmt.conditions, Stmt.exprs, Stmt.inner, Stmt.isLoop, Bool.or_true,
        List.forall_mem_append]
      tauto
  | .ret _ value => by
      rw [Gen.stmt]
      exact (returnStmt value).atLine.ofStmt (by simp)
  | .break_ _ | .continue_ _ => by
      rw [Gen.stmt]
      exact (enclosingLoop.before fun _ => emitJump _ _).atLine.ofStmt (by simp)
  | .block _ statements => by
      rw [Gen.stmt]
      exact (stmts statements).plainBlock.atLine.ofStmt (by simp)

theorem stmts {blocks : List BlockKind} :
  (ss : List Stmt) → Checks (Draft.Inside function blocks)
    (∀ s ∈ ss, s.Legal scope function (inLoop blocks)) (Gen.stmts scope ss)
  | [] => (pure ()).congr (by simp)
  | s :: rest => ((stmt s).bind fun _ _ => stmts rest).congr List.forall_mem_cons.symm

theorem elifBranches {blocks : List BlockKind} {done : Label} :
  (elifs : List Elif) → Checks (Draft.Inside function blocks)
    (∀ elif ∈ elifs, (elif.condition.ty = .boolean ∧ elif.condition.Legal scope function.isSome)
      ∧ ∀ s ∈ elif.block, s.Legal scope function (inLoop blocks))
    (Gen.elifBranches scope done elifs)
  | [] => (pure ()).congr (by simp)
  | .mk condition body :: rest => by
      apply ((branchCondition condition).bind fun _ _ => (stmts body).plainBlock.bind fun _ _ =>
        (emitJump _ _).after fun _ => (setLabel _).after fun _ => elifBranches rest).congr
      rw [List.forall_mem_cons]
      simp only [Elif.condition, Elif.block, and_assoc]

theorem elseBranch {blocks : List BlockKind} :
  (body : Option (List Stmt)) → Checks (Draft.Inside function blocks)
    (∀ s ∈ body.getD [], s.Legal scope function (inLoop blocks)) (Gen.elseBranch scope body)
  | none => (pure ()).congr (by simp)
  | some body => by
      rw [Gen.elseBranch]
      exact (stmts body).plainBlock

end

/-! ### Bodies -/

/-- A body whose code is as planned can be finished unless it is too long. -/
theorem finish {q : Piece} {stop : Option Nat} {P : Prop} {code : Gen Unit}
    (typed : Piece.Typed (fun _ => none) 0 q stop)
    (generated : Checks (Draft.Inside function []) P code)
    (emits : ∀ pool fin, code ⟨pool, { function }⟩ = .ok () fin →
      Emits noLabels q ⟨pool, { function }⟩ fin) :
  Checks (fun _ => True) P (do
    modify fun draft => { draft with body := { function } }
    code
    Gen.ofExcept ((← Gen.getBody).finish position))
  := by
  constructor
  intro d _
  change Ends _ _ ((code >>= fun _ => Gen.getBody >>= fun b => Gen.ofExcept (b.finish position))
    ⟨d.pool, { function }⟩)
  have done := generated.ends ⟨d.pool, { function }⟩ ⟨rfl, rfl⟩
  cases run : code ⟨d.pool, { function }⟩ with
  | error e fin =>
    rw [run] at done
    rw [bind_of_error run]
    exact done
  | ok _ fin =>
    rw [run] at done
    rw [bind_of_ok run]
    change Ends _ _ (Gen.ofExcept (fin.body.finish position) fin)
    unfold Body.finish
    cases finished : fin.body.buffer.finish with
    | ok block => exact ⟨done.1, trivial⟩
    | error defect =>
      obtain rfl := (emits d.pool fin run).finish_eq_error rfl rfl typed finished
      exact .inr rfl

theorem functionBody (f : FunctionDecl) (body : Block) :
  Checks (fun _ => True) (Block.Legal scope (some f) body) (Gen.functionBody scope f body)
  := by
  rw [Gen.functionBody_eq]
  apply finish (f.typed_piece body)
  · apply (stmts body).plainBlock.before
    intro _
    apply ite
    · exact fun _ => (emitDefault _).after fun _ => emit _ _
    · exact fun _ => pure ()
  · exact fun pool fin run => emits_functionCode run

theorem topLevel (p : Program) :
  Checks (fun _ => True) (Block.Legal scope none p.statements) (Gen.topLevel scope p.statements)
  := finish p.typed_topLevel (stmts p.statements) fun _ _ run => emits_topLevel run

theorem functions (fs : List FunctionDecl) :
  Checks (fun _ => True)
    (∀ f ∈ fs, ∀ body, f.body = some body → Block.Legal scope (some f) body)
    (Gen.functions scope fs)
  := by
  induction fs with
  | nil => exact (pure []).congr (by simp)
  | cons f rest ih =>
    have first : Checks (fun _ => True)
        (∀ body, f.body = some body → Block.Legal scope (some f) body)
        (Gen.function scope f) := by
      unfold Gen.function
      cases f.body with
      | none => exact ((pure none).before fun _ => pure _).congr (by simp)
      | some body => exact (((functionBody f body).map some).before fun _ => pure _).congr (by simp)
    exact (first.bind fun _ _ => ih.before fun _ => pure _).congr (by rw [List.forall_mem_cons])

end Checks

end Generator

/-! ### Programs -/

/-- Keys are found to be repeated by remembering those before. -/
theorem firstRepeated?_eq_none_iff {α κ : Type} [BEq κ] [Hashable κ] [LawfulBEq κ] {key : α → κ}
    {items : List α} {seen : Std.HashSet κ} :
  firstRepeated? key seen items = none
    ↔ (items.map key).Nodup ∧ ∀ a ∈ items, key a ∉ seen
  := by
  induction items generalizing seen with
  | nil => simp [firstRepeated?]
  | cons a rest ih =>
    rw [firstRepeated?]
    split
    · next known =>
        simp only [reduceCtorEq, false_iff, not_and]
        intro _ fresh
        exact fresh a List.mem_cons_self known
    · next fresh =>
        have new : key a ∉ seen := fresh
        have others : (∀ b ∈ rest, key b ∉ seen.insert (key a))
            ↔ key a ∉ rest.map key ∧ ∀ b ∈ rest, key b ∉ seen := by
          simp only [Std.HashSet.mem_insert, beq_iff_eq, not_or, List.mem_map, not_exists, not_and]
          constructor
          · intro all
            exact ⟨fun b listed same => (all b listed).1 same.symm, fun b listed => (all b listed).2⟩
          · rintro ⟨distinct, fresh⟩ b listed
            exact ⟨fun same => distinct b listed same.symm, fresh b listed⟩
        rw [ih, others, List.map_cons, List.nodup_cons, List.forall_mem_cons]
        tauto

theorem firstRepeated?_empty_eq_none_iff {α κ : Type} [BEq κ] [Hashable κ] [LawfulBEq κ]
    {key : α → κ} {items : List α} :
  firstRepeated? key ∅ items = none ↔ (items.map key).Nodup
  := by
  simp [firstRepeated?_eq_none_iff]

theorem checkNames_eq_ok_iff (p : Program) :
  checkNames p = .ok ()
    ↔ (p.functions.map fun f => (f.package, f.class_, f.name)).Nodup
      ∧ (p.classes.map fun c => (c.package, c.name)).Nodup
  := by
  rw [← firstRepeated?_empty_eq_none_iff, ← firstRepeated?_empty_eq_none_iff, checkNames]
  split
  · next found => simp [found]
  · next unique =>
      rw [unique]
      split
      · next found => simp [found]
      · next unique' => simp [unique']

/-- The generation of all bodies checks all bodies. -/
theorem Checks.bodies (scope : Scope) (p : Program) :
  Checks (fun _ => True)
    ((∀ f ∈ p.functions, ∀ body, f.body = some body → Block.Legal scope (some f) body)
      ∧ Block.Legal scope none p.statements)
    (Gen.bodies scope p)
  := (functions p.functions).bind fun _ _ => (topLevel p).before fun _ => pure _

theorem legal_of_compile {p : Program} {exe : Executable} (compiled : compile p = .ok exe) :
  p.Legal
  := by
  obtain ⟨checked, classes, functions, topLevel, d, laid, run, -⟩ := generated_of_compile compiled
  obtain ⟨functionNames, classNames⟩ := (checkNames_eq_ok_iff p).1 checked
  have generated := (Checks.bodies ⟨p.functions.length, classes.toArray⟩ p).ends {} trivial
  rw [run] at generated
  exact ⟨functionNames, classNames, classes, laid, generated.1⟩

/-- Legal programs are refused only because they are too large. -/
theorem isSize_of_legal {p : Program} {e : CompileError} (legal : p.Legal)
    (failed : compile p = .error e) :
  e.defect.isSize = true
  := by
  obtain ⟨functionNames, classNames, classes, laid, bodies⟩ := legal
  rcases failed_of_compile failed with checked | laid' | ⟨classes', d, laid', run⟩
  · rw [(checkNames_eq_ok_iff p).2 ⟨functionNames, classNames⟩] at checked
    cases checked
  · rw [laid] at laid'
    cases laid'
  · rw [laid] at laid'
    cases laid'
    have generated := (Checks.bodies ⟨p.functions.length, classes.toArray⟩ p).ends {} trivial
    rw [run] at generated
    exact generated.resolve_left (not_not_intro bodies)

/-- A program is compiled if and only if it is legal, unless it is too large for the format of the
code. -/
theorem exists_compile_iff_legal (p : Program) :
  (∃ e, compile p = .error e ∧ e.defect.isSize = true)
    ∨ ((∃ exe, compile p = .ok exe) ↔ p.Legal)
  := by
  cases result : compile p with
  | ok exe => exact .inr (iff_of_true ⟨exe, rfl⟩ (legal_of_compile result))
  | error e =>
    by_cases legal : p.Legal
    · exact .inl ⟨e, rfl, isSize_of_legal legal result⟩
    · right
      apply iff_of_false _ legal
      rintro ⟨exe, compiled⟩
      cases compiled

end Bytecode
