import Bytecode.Generate.Expr

/-!
# Code of statements

A statement leaves the stack as high as it found it. A branch jumps past its block when its
condition is false, and from the end of its block past the other branches. A loop jumps back
from its end to its condition; `break` goes to the end of the innermost loop, and `continue` to
the expression that follows its body.
-/

namespace Bytecode

namespace Gen

/-- Generate under a line, if it is known. The line before is current again afterwards. -/
def atLine (line : UInt32) (action : Gen Unit) : Gen Unit := do
  let enclosing := (← getBody).line
  modifyBody (Body.enterLine line)
  action
  modifyBody (Body.restoreLine enclosing)

/-- Generate inside a block. -/
def inBlock (kind : BlockKind) (action : Gen Unit) : Gen Unit := do
  modifyBody (Body.enterBlock kind)
  action
  modifyBody Body.leaveBlock

/-- Push the condition of a branch and jump to the label returned if it is false. -/
def branchCondition (scope : Scope) (condition : Expr) : Gen Label := do
  if ¬condition.ty.isBoolean then
    fail (.ifConditionNotBoolean condition.ty.text) condition.position
  expr scope condition
  let skip ← newLabel
  emitJump condition.position .jumpIfFalse skip
  return skip

/-- Leave a loop by the label returned if its condition is false. -/
def loopCondition (scope : Scope) (breakLabel : Label) : Option Expr → Gen Unit
  | none => pure ()
  | some condition => do
    if ¬condition.ty.isBoolean then
      fail (.forConditionNotBoolean condition.ty.text) condition.position
    expr scope condition
    emitJump condition.position .jumpIfFalse breakLabel

/-- Generate an optional expression for its effect. -/
def optionalEffect (scope : Scope) : Option Expr → Gen Unit
  | none => pure ()
  | some e => effect scope e

/-- The labels of the innermost loop, for a statement that needs one. -/
def enclosingLoop (defect : Defect) (position : Position) : Gen (Label × Label) := do
  match (← getBody).innermostLoop? with
  | some labels => return labels
  | none => fail defect position

def returnStmt (scope : Scope) (position : Position) (value : Option Expr) : Gen Unit := do
  match (← getBody).function with
  | none => fail .returnOutsideFunction position
  | some f =>
    match value with
    | some value =>
      if f.returnType.isVoid then fail (.returnValueInVoidFunction f.name) position
      expr scope value
    | none => emitDefault position f.returnType
    emit position .ret []

mutual

/-- Generate a statement. Its line is current in it. -/
def stmt (scope : Scope) (s : Stmt) : Gen Unit :=
  atLine s.position.line <|
    match s with
    | .expression _ e => effect scope e
    | .declaration _ _ _ none => pure ()
    | .declaration p place ty (some initial) => do
      expr scope initial
      popVariable p place ty
    | .branch _ condition thenBlock elifs elseBlock => do
      let done ← newLabel
      let next ← branchCondition scope condition
      inBlock .plain (stmts scope thenBlock)
      emitJump condition.position .jump done
      setLabel next
      elifBranches scope done elifs
      elseBranch scope elseBlock
      setLabel done
    | .loop p init condition post body => do
      optionalEffect scope init
      let top ← newLabel
      let breakLabel ← newLabel
      let continueLabel ← newLabel
      setLabel top
      loopCondition scope breakLabel condition
      inBlock (.loop breakLabel continueLabel) (stmts scope body)
      setLabel continueLabel
      optionalEffect scope post
      emitJump p .jump top
      setLabel breakLabel
    | .ret p value => returnStmt scope p value
    | .break_ p => do
      let (breakLabel, _) ← enclosingLoop .breakOutsideLoop p
      emitJump p .jump breakLabel
    | .continue_ p => do
      let (_, continueLabel) ← enclosingLoop .continueOutsideLoop p
      emitJump p .jump continueLabel
    | .block _ statements => inBlock .plain (stmts scope statements)

/-- Generate statements in order. -/
def stmts (scope : Scope) : List Stmt → Gen Unit
  | [] => pure ()
  | s :: rest => do
    stmt scope s
    stmts scope rest

/-- Generate the further branches, each of which goes on at the label when it is done. -/
def elifBranches (scope : Scope) (done : Label) : List Elif → Gen Unit
  | [] => pure ()
  | .mk condition body :: rest => do
    let next ← branchCondition scope condition
    inBlock .plain (stmts scope body)
    emitJump condition.position .jump done
    setLabel next
    elifBranches scope done rest

def elseBranch (scope : Scope) : Option (List Stmt) → Gen Unit
  | none => pure ()
  | some body => inBlock .plain (stmts scope body)

end

end Gen

end Bytecode
