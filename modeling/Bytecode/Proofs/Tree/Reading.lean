import Mathlib
import Bytecode.Proofs.Generate.Literals
import Bytecode.Proofs.Tree.Form

/-!
# Programs are read as they are written

The value that is written for a program represents it: the program is read from the value, and from
all that is left of the value when fields with their default values are left out. This follows the
structure of the tree, one case for each constructor. Double literals are the only part of which this
does not hold of itself; it holds if what is written for them is read as it was,
`Constant.ReadBack`.
-/

namespace Bytecode

open Json

/-! ### Types and names -/

theorem Position.represents (p : Position) :
  Represents (.node .position) (fun _ => Position.ofJson?) p p.toJson
  := by
  have line := represents_uint32 p.line
  have column := represents_uint32 p.column
  apply Represents.node
  apply Represents.record ["line", "column"] (.keep line.whole (.keep column.whole .nil)) rfl (by decide)
  intro r j' depth opened has
  obtain ⟨hasLine, hasColumn, -⟩ := has
  have readLine := hasLine.required line
  have readColumn := hasColumn.withDefault column (represents_uint32 0)
  simp [Position.ofJson?, opened, readLine, readColumn]

/-- Where no position is given. -/
theorem Position.represents_nowhere :
  Represents (.node .position) (fun _ => Position.ofJson?) {} nowhere
  := Position.represents {}

mutual

theorem Ty.represents_read :
  (ty : Ty) → Represents (.node .ty) Ty.read ty ty.toJson
  | .void | .boolean | .int | .double | .string | .null => .node (.bare rfl fun _ => rfl)
  | .class index => .node (.carryingBelow rfl ((represents_uint16 index).map Ty.class) fun _ _ => rfl)
  | .array element => .node (.carryingBelow rfl (element.represents_read.map Ty.array) fun _ _ => rfl)
  | .function result params =>
      .node (.carryingBelow rfl (.twoFields (by decide) result.represents_read
        (.list (Ty.represents_list params)) Ty.function) fun _ _ => rfl)

theorem Ty.represents_list :
  (tys : List Ty) → List.Forall₂ (Represents (.node .ty) Ty.read) tys (toJsons tys)
  | [] => .nil
  | ty :: rest => .cons ty.represents_read (Ty.represents_list rest)

end

theorem Ty.represents (ty : Ty) :
  Represents (.node .ty) (fun _ => Ty.ofJson?) ty ty.toJson
  := ty.represents_read.atAnyDepth

theorem Variable.represents (v : Variable) :
  Represents (.node .variable) (fun _ => Variable.ofJson?) v v.toJson
  := by
  cases v with
  | «local» slot =>
    exact .node (.carrying rfl ((represents_uint16 slot).map Variable.local) fun _ _ => rfl)
  | global index =>
    exact .node (.carrying rfl ((represents_uint16 index).map Variable.global) fun _ _ => rfl)

theorem BinaryOp.represents (op : BinaryOp) :
  Represents (.node .binaryOp) (fun _ => BinaryOp.ofJson?) op (.str op.tag)
  := by
  apply Represents.node
  cases op with
  | arith op | compare op =>
    cases op with
    | _ => exact .bare rfl fun _ => rfl
  | and | or => exact .bare rfl fun _ => rfl

theorem UnaryOp.represents (op : UnaryOp) :
  Represents (.node .unaryOp) (fun _ => UnaryOp.ofJson?) op (.str op.tag)
  := by
  apply Represents.node
  cases op with
  | _ => exact .bare rfl fun _ => rfl

theorem Conversion.represents (conversion : Conversion) :
  Represents (.node .conversion) (fun _ => Conversion.ofJson?) conversion (.str conversion.tag)
  := by
  apply Represents.node
  cases conversion with
  | _ => exact .bare rfl fun _ => rfl

/-! ### Expressions -/

/-- What is written for a double literal among the constants is read as the literal. -/
def Constant.ReadBack (double : Double → Json) (constants : List Constant) : Prop :=
  ∀ x, Constant.double x ∈ constants → (double x).toDouble? = some x

namespace Constant.ReadBack

variable {double : Double → Json} {first second : List Constant}

theorem left (readBack : ReadBack double (first ++ second)) :
  ReadBack double first
  := fun x listed => readBack x (List.mem_append_left _ listed)

theorem right (readBack : ReadBack double (first ++ second)) :
  ReadBack double second
  := fun x listed => readBack x (List.mem_append_right _ listed)

end Constant.ReadBack

theorem represents_double {double : Double → Json} {x : Double}
    (readBack : (double x).toDouble? = some x) :
  Represents .double (fun _ => toDouble?) x (double x)
  := by
  refine ⟨.double _, ?_⟩
  intro j' depth trims _
  cases trims with
  | double => exact readBack

namespace Expr

/-- An expression is what it is, with its type and its position. -/
theorem represents_node {e : Expr} {kind : Json} (m : Mark)
    (represents : Represents Node.exprKind.form (fun depth => readKind (Expr.read depth) m) e kind) :
  Represents (.node .expr) Expr.read e (m.node kind)
  := by
  have ty := m.ty.represents
  have position := m.position.represents
  apply Represents.node
  apply Represents.recordBelow ["kind", "ty", "position"]
    (.keep (.node represents.whole) (.keep ty.whole (.keep position.whole .nil))) rfl (by decide)
  intro r j' depth opened has
  obtain ⟨hasKind, hasTy, hasPosition, -⟩ := has
  have readTy := hasTy.required ty
  have readPosition := hasPosition.withDefault position Position.represents_nowhere
  have readKind := hasKind.required represents.node
  simp [Expr.read, opened, readTy, readPosition, readKind]

variable {double : Double → Json}

mutual

theorem represents_read :
  (e : Expr) → Constant.ReadBack double e.literals →
    Represents (.node .expr) Expr.read e (e.toJson double)
  | .boolean m value, _ =>
      represents_node m (.carrying rfl ((represents_bool value).map (Expr.boolean m)) fun _ _ => rfl)
  | .int m value, _ =>
      represents_node m (.carrying rfl ((represents_int64 value).map (Expr.int m)) fun _ _ => rfl)
  | .double m value, readBack =>
      represents_node m (.carrying rfl ((represents_double (readBack value (List.mem_singleton_self _))).map
        (Expr.double m)) fun _ _ => rfl)
  | .string m value, _ =>
      represents_node m (.carrying rfl ((represents_string value).map (Expr.string m)) fun _ _ => rfl)
  | .null m, _ => represents_node m (.bare rfl fun _ => rfl)
  | .var m place, _ =>
      represents_node m (.carrying rfl (place.represents.map (Expr.var m)) fun _ _ => rfl)
  | .function m i, _ =>
      represents_node m (.carrying rfl ((represents_uint16 i).map (Expr.function m)) fun _ _ => rfl)
  | .assign m target value, readBack =>
      represents_node m (.carrying rfl (.twoFields (by decide) (represents_read target readBack.right)
        (represents_read value readBack.left) (Expr.assign m)) fun _ _ => rfl)
  | .binary m op lhs rhs, readBack =>
      represents_node m (.carrying rfl (.threeFields (by decide) op.represents
        (represents_read lhs readBack.left) (represents_read rhs readBack.right) (Expr.binary m))
        fun _ _ => rfl)
  | .unary m op operand, readBack =>
      represents_node m (.carrying rfl (.twoFields (by decide) op.represents
        (represents_read operand readBack) (Expr.unary m)) fun _ _ => rfl)
  | .call m callee args, readBack =>
      represents_node m (.carrying rfl (.twoFields (by decide)
        (represents_read callee readBack.right) (.list (represents_list args readBack.left))
        (Expr.call m)) fun _ _ => rfl)
  | .method m object i, readBack =>
      represents_node m (.carrying rfl (.twoFields (by decide) (represents_read object readBack)
        (represents_uint16 i) (Expr.method m)) fun _ _ => rfl)
  | .index m array i, readBack =>
      represents_node m (.carrying rfl (.twoFields (by decide) (represents_read array readBack.left)
        (represents_read i readBack.right) (Expr.index m)) fun _ _ => rfl)
  | .field m object i, readBack =>
      represents_node m (.carrying rfl (.twoFields (by decide) (represents_read object readBack)
        (represents_uint16 i) (Expr.field m)) fun _ _ => rfl)
  | .new m i, _ =>
      represents_node m (.carrying rfl (.oneField (represents_uint16 i) (Expr.new m)) fun _ _ => rfl)
  | .newArray m size, readBack =>
      represents_node m (.carrying rfl (.oneField (represents_read size readBack) (Expr.newArray m))
        fun _ _ => rfl)
  | .arrayLiteral m items, readBack =>
      represents_node m (.carrying rfl ((Represents.list (represents_list items readBack)).map
        (Expr.arrayLiteral m)) fun _ _ => rfl)
  | .convert m conversion operand, readBack =>
      represents_node m (.carrying rfl (.twoFields (by decide) conversion.represents
        (represents_read operand readBack) (Expr.convert m)) fun _ _ => rfl)
  | .downCast m i operand, readBack =>
      represents_node m (.carrying rfl (.twoFields (by decide) (represents_uint16 i)
        (represents_read operand readBack) (Expr.downCast m)) fun _ _ => rfl)
  | .instanceOf m i operand, readBack =>
      represents_node m (.carrying rfl (.twoFields (by decide) (represents_uint16 i)
        (represents_read operand readBack) (Expr.instanceOf m)) fun _ _ => rfl)
  | .arrayLength m array, readBack =>
      represents_node m (.carrying rfl ((represents_read array readBack).map (Expr.arrayLength m))
        fun _ _ => rfl)
  | .stringLength m text, readBack =>
      represents_node m (.carrying rfl ((represents_read text readBack).map (Expr.stringLength m))
        fun _ _ => rfl)

theorem represents_list :
  (es : List Expr) → Constant.ReadBack double (Expr.listLiterals es) →
    List.Forall₂ (Represents (.node .expr) Expr.read) es (toJsons double es)
  | [], _ => .nil
  | e :: rest, readBack =>
      .cons (represents_read e readBack.left) (represents_list rest readBack.right)

end

theorem represents (e : Expr) (readBack : Constant.ReadBack double e.literals) :
  Represents (.node .expr) (fun _ => Expr.ofJson?) e (e.toJson double)
  := (represents_read e readBack).atAnyDepth

theorem toJson_ne_null (e : Expr) :
  e.toJson double ≠ .null
  := by
  cases e with
  | _ =>
    intro null
    cases null

theorem represents_option (o : Option Expr) (readBack : Constant.ReadBack double (optionalLiterals o)) :
  Represents (.option (.node .expr)) (fun _ => toOption? Expr.ofJson?) o (.ofOption (toJson double) o)
  := by
  apply Represents.ofOption (fun e same => ?_) toJson_ne_null fun _ => rfl
  subst same
  exact e.represents readBack

end Expr

/-! ### Statements -/

namespace Stmt

/-- A statement is what it is, with its position. -/
theorem represents_node {s : Stmt} {kind : Json} (p : Position)
    (represents : Represents Node.stmtKind.form (fun depth => readKind (Stmt.read depth) p) s kind) :
  Represents (.node .stmt) Stmt.read s (node p kind)
  := by
  have position := p.represents
  apply Represents.node
  apply Represents.recordBelow ["kind", "position"]
    (.keep (.node represents.whole) (.keep position.whole .nil)) rfl (by decide)
  intro r j' depth opened has
  obtain ⟨hasKind, hasPosition, -⟩ := has
  have readPosition := hasPosition.withDefault position Position.represents_nowhere
  have readKind := hasKind.required represents.node
  simp [Stmt.read, opened, readPosition, readKind]

theorem represents_block {part : Nat → Json → Option Stmt} {body : Block} {js : List Json}
    (each : List.Forall₂ (Represents (.node .stmt) part) body js) :
  Represents (.node .block) (fun depth => readBlock (part depth)) body (blockNode js)
  := by
  have statements := Represents.list each
  apply Represents.node
  apply Represents.record ["statements"] (.keep statements.whole .nil) rfl (by decide)
  intro r j' depth opened has
  have readStatements := has.1.required statements
  simp [readBlock, opened, readStatements]

theorem blockNode_ne_null (js : List Json) :
  blockNode js ≠ .null
  := by
  intro null
  cases null

section

variable {part : Nat → Json → Option Stmt}

theorem represents_declaration (p : Position) (place : Variable) (ty : Ty) {initial : Option Expr}
    {j : Json} (init : Represents (.option (.node .expr)) (fun _ => toOption? Expr.ofJson?) initial j) :
  Represents Node.stmtKind.form (fun depth => readKind (part depth) p)
    (.declaration p place ty initial)
    (.tagged "declaration" (.obj [("variable", place.toJson), ("ty", ty.toJson), ("initializer", j)]))
  := by
  have variable' := place.represents
  have ty' := ty.represents
  refine .carryingRecord ["variable", "ty", "initializer"] rfl
    (.keep variable'.whole (.keep ty'.whole (.keep init.whole .nil))) rfl (by decide) ?_
  intro r j' depth opened has
  obtain ⟨hasVariable, hasTy, hasInitializer, -⟩ := has
  have readVariable := hasVariable.required variable'
  have readTy := hasTy.required ty'
  have readInitializer := hasInitializer.optional init
  simp [readKind, Variant.ofJson?, Variant.record, opened, readVariable, readTy, readInitializer]

theorem represents_branch (p : Position) {condition : Expr} {thenBlock : Block} {elifs : List Elif}
    {elseBlock : Option Block} {j₁ j₂ j₃ j₄ : Json}
    (first : Represents (.node .expr) (fun _ => Expr.ofJson?) condition j₁)
    (second : Represents (.node .block) (fun depth => readBlock (part depth)) thenBlock j₂)
    (third : Represents (.list (.node .elif)) (fun depth => toList? (readElif (part depth))) elifs j₃)
    (fourth : Represents (.option (.node .block)) (fun depth => toOption? (readBlock (part depth)))
      elseBlock j₄) :
  Represents Node.stmtKind.form (fun depth => readKind (part depth) p)
    (.branch p condition thenBlock elifs elseBlock)
    (.tagged "if"
      (.obj [("condition", j₁), ("then_block", j₂), ("elifs", j₃), ("else_block", j₄)]))
  := by
  refine .carryingRecord ["condition", "then_block", "elifs", "else_block"] rfl
    (.keep first.whole (.keep second.whole (.keep third.whole (.keep fourth.whole .nil)))) rfl
    (by decide) ?_
  intro r j' depth opened has
  obtain ⟨hasCondition, hasThen, hasElifs, hasElse, -⟩ := has
  have readCondition := hasCondition.required first
  have readThen := hasThen.required second
  have readElifs := hasElifs.withDefault third (.list .nil)
  have readElse := hasElse.optional fourth
  simp [readKind, Variant.ofJson?, Variant.record, opened, readCondition, readThen, readElifs, readElse]

theorem represents_loop (p : Position) {init condition post : Option Expr} {body : Block}
    {j₁ j₂ j₃ j₄ : Json}
    (first : Represents (.option (.node .expr)) (fun _ => toOption? Expr.ofJson?) init j₁)
    (second : Represents (.option (.node .expr)) (fun _ => toOption? Expr.ofJson?) condition j₂)
    (third : Represents (.option (.node .expr)) (fun _ => toOption? Expr.ofJson?) post j₃)
    (fourth : Represents (.node .block) (fun depth => readBlock (part depth)) body j₄) :
  Represents Node.stmtKind.form (fun depth => readKind (part depth) p)
    (.loop p init condition post body)
    (.tagged "for" (.obj [("init", j₁), ("condition", j₂), ("post", j₃), ("body", j₄)]))
  := by
  refine .carryingRecord ["init", "condition", "post", "body"] rfl
    (.keep first.whole (.keep second.whole (.keep third.whole (.keep fourth.whole .nil)))) rfl
    (by decide) ?_
  intro r j' depth opened has
  obtain ⟨hasInit, hasCondition, hasPost, hasBody, -⟩ := has
  have readInit := hasInit.optional first
  have readCondition := hasCondition.optional second
  have readPost := hasPost.optional third
  have readBody := hasBody.required fourth
  simp [readKind, Variant.ofJson?, Variant.record, opened, readInit, readCondition, readPost, readBody]

end

section

variable {double : Double → Json}

mutual

theorem represents_read :
  (s : Stmt) → Constant.ReadBack double s.literals →
    Represents (.node .stmt) Stmt.read s (s.toJson double)
  | .expression p e, readBack =>
      represents_node p (.carrying rfl ((e.represents readBack).map (Stmt.expression p)) fun _ _ => rfl)
  | .declaration p place ty initial, readBack =>
      represents_node p (represents_declaration p place ty (Expr.represents_option initial readBack))
  | .branch p condition thenBlock elifs elseBlock, readBack =>
      represents_node p (represents_branch p (condition.represents readBack.left.left)
        (represents_block (represents_list thenBlock readBack.left.right))
        (.list (represents_elifs elifs readBack.right.left))
        (represents_else elseBlock readBack.right.right))
  | .loop p init condition post body, readBack =>
      represents_node p (represents_loop p (Expr.represents_option init readBack.left)
        (Expr.represents_option condition readBack.right.left.left)
        (Expr.represents_option post readBack.right.right)
        (represents_block (represents_list body readBack.right.left.right)))
  | .ret p value, readBack =>
      represents_node p (.carrying rfl ((Expr.represents_option value readBack).map (Stmt.ret p))
        fun _ _ => rfl)
  | .break_ p, _ | .continue_ p, _ => represents_node p (.bare rfl fun _ => rfl)
  | .block p statements, readBack =>
      represents_node p (.carrying rfl ((represents_block (represents_list statements readBack)).map
        (Stmt.block p)) fun _ _ => rfl)

theorem represents_list :
  (body : List Stmt) → Constant.ReadBack double (Stmt.listLiterals body) →
    List.Forall₂ (Represents (.node .stmt) Stmt.read) body (toJsons double body)
  | [], _ => .nil
  | s :: rest, readBack =>
      .cons (represents_read s readBack.left) (represents_list rest readBack.right)

theorem represents_elifs :
  (elifs : List Elif) → Constant.ReadBack double (Elif.literals elifs) →
    List.Forall₂ (Represents (.node .elif) fun depth => readElif (Stmt.read depth)) elifs
      (elifJsons double elifs)
  | [], _ => .nil
  | .mk condition body :: rest, readBack =>
      .cons (.node (.twoFields (by decide) (condition.represents readBack.left.left)
        (represents_block (represents_list body readBack.left.right)) Elif.mk))
        (represents_elifs rest readBack.right)

theorem represents_else :
  (elseBlock : Option (List Stmt)) → Constant.ReadBack double (Stmt.elseLiterals elseBlock) →
    Represents (.option (.node .block)) (fun depth => toOption? (readBlock (Stmt.read depth))) elseBlock
      (elseJson double elseBlock)
  | none, _ => .nothing _ _
  | some body, readBack =>
      .something (represents_block (represents_list body readBack)) (blockNode_ne_null _) fun _ => rfl

end

theorem toJsons_eq_map (double : Double → Json) (body : List Stmt) :
  toJsons double body = body.map (toJson double)
  := by
  induction body with
  | nil => rfl
  | cons s rest ih => rw [toJsons, ih, List.map_cons]

/-- The statements of a block, each read on its own. -/
theorem represents_each (body : Block) (readBack : Constant.ReadBack double (Stmt.listLiterals body)) :
  List.Forall₂ (Represents (.node .stmt) fun _ => Stmt.ofJson?) body (toJsons double body)
  := (represents_list body readBack).imp fun _ _ represents => represents.atAnyDepth

end

end Stmt

/-! ### Declarations -/

theorem VariableDecl.represents (v : VariableDecl) :
  Represents (.node .variableDecl) (fun _ => VariableDecl.ofJson?) v v.toJson
  := .node (.twoFields (by decide) (represents_string v.name) v.ty.represents VariableDecl.mk)

theorem VariableDecl.represents_list (decls : List VariableDecl) :
  Represents (.list (.node .variableDecl)) (fun _ => toList? VariableDecl.ofJson?) decls
    (.ofList VariableDecl.toJson decls)
  := .ofList fun decl _ => decl.represents

theorem MemberDecl.represents (decl : MemberDecl) :
  Represents (.node .member) (fun _ => MemberDecl.ofJson?) decl decl.toJson
  := by
  apply Represents.node
  cases decl with
  | field name ty position =>
    have name' := represents_string name
    have ty' := ty.represents
    have position' := position.represents
    refine .carryingRecord ["name", "ty", "position"] rfl
      (.keep name'.whole (.keep ty'.whole (.keep position'.whole .nil))) rfl (by decide) ?_
    intro r j' depth opened has
    obtain ⟨hasName, hasTy, hasPosition, -⟩ := has
    have readName := hasName.required name'
    have readTy := hasTy.required ty'
    have readPosition := hasPosition.withDefault position' Position.represents_nowhere
    simp [MemberDecl.ofJson?, Variant.ofJson?, Variant.record, opened, readName, readTy, readPosition]
  | method name function position =>
    have name' := represents_string name
    have function' := represents_uint16 function
    have position' := position.represents
    refine .carryingRecord ["name", "function", "position"] rfl
      (.keep name'.whole (.keep function'.whole (.keep position'.whole .nil))) rfl (by decide) ?_
    intro r j' depth opened has
    obtain ⟨hasName, hasFunction, hasPosition, -⟩ := has
    have readName := hasName.required name'
    have readFunction := hasFunction.required function'
    have readPosition := hasPosition.withDefault position' Position.represents_nowhere
    simp [MemberDecl.ofJson?, Variant.ofJson?, Variant.record, opened, readName, readFunction,
      readPosition]

theorem represents_classIndex (index : Option UInt16) :
  Represents (.option .integer) (fun _ => toOption? toUInt16?) index
    (.ofOption (fun i : UInt16 => .ofNat i.toNat) index)
  := by
  apply Represents.ofOption (fun i _ => represents_uint16 i) _ fun _ => rfl
  intro i null
  cases null

theorem ClassDecl.represents (c : ClassDecl) :
  Represents (.node .classDecl) (fun _ => ClassDecl.ofJson?) c c.toJson
  := by
  have name := represents_string c.name
  have package := represents_string c.package
  have superClass := represents_classIndex c.superClass
  have members := Represents.ofList fun member (_ : member ∈ c.members) => member.represents
  have position := c.position.represents
  apply Represents.node
  apply Represents.record ["name", "package", "super_class", "members", "position"]
    (.keep name.whole (.keep package.whole (.keep superClass.whole (.keep members.whole
      (.keep position.whole .nil))))) rfl (by decide)
  intro r j' depth opened has
  obtain ⟨hasName, hasPackage, hasSuper, hasMembers, hasPosition, -⟩ := has
  have readName := hasName.required name
  have readPackage := hasPackage.withDefault package (represents_string "")
  have readSuper := hasSuper.withDefault superClass (represents_classIndex none)
  have readMembers := hasMembers.required members
  have readPosition := hasPosition.withDefault position Position.represents_nowhere
  simp [ClassDecl.ofJson?, opened, readName, readPackage, readSuper, readMembers, readPosition]

section

variable {double : Double → Json}

/-- The literals of the body of a function, if it has one. -/
def FunctionDecl.literals (f : FunctionDecl) : List Constant := (f.body.map Stmt.listLiterals).getD []

theorem FunctionDecl.represents (f : FunctionDecl) (readBack : Constant.ReadBack double f.literals) :
  Represents (.node .function) (fun _ => FunctionDecl.ofJson?) f (f.toJson double)
  := by
  have name := represents_string f.name
  have package := represents_string f.package
  have returnType := f.returnType.represents
  have params := VariableDecl.represents_list f.params
  have locals := VariableDecl.represents_list f.locals
  have body : Represents (.option (.node .block)) (fun _ => toOption? (Stmt.readBlock Stmt.ofJson?))
      f.body (.ofOption (Stmt.blockJson double) f.body) := by
    apply Represents.ofOption _ (fun _ => Stmt.blockNode_ne_null _) fun _ => rfl
    intro body same
    rw [FunctionDecl.literals, same] at readBack
    exact Stmt.represents_block (Stmt.represents_each body readBack)
  have class_ := represents_classIndex f.class_
  have position := f.position.represents
  apply Represents.node
  apply Represents.record
    ["name", "package", "return_type", "params", "locals", "body", "class", "position"]
    (.keep name.whole (.keep package.whole (.keep returnType.whole (.keep params.whole
      (.keep locals.whole (.keep body.whole (.keep class_.whole
        (.keep position.whole .nil)))))))) rfl (by decide)
  intro r j' depth opened has
  obtain ⟨hasName, hasPackage, hasReturn, hasParams, hasLocals, hasBody, hasClass, hasPosition, -⟩ := has
  have readName := hasName.required name
  have readPackage := hasPackage.withDefault package (represents_string "")
  have readReturn := hasReturn.required returnType
  have readParams := hasParams.required params
  have readLocals := hasLocals.withDefault locals (.list .nil)
  have readBody := hasBody.optional body
  have readClass := hasClass.withDefault class_ (represents_classIndex none)
  have readPosition := hasPosition.withDefault position Position.represents_nowhere
  simp [FunctionDecl.ofJson?, opened, readName, readPackage, readReturn, readParams, readLocals,
    readBody, readClass, readPosition]

/-! ### Programs -/

namespace Program

theorem represents (p : Program) (readBack : ∀ current, Constant.ReadBack double (p.literals current)) :
  Represents (.node .program) (fun _ => Program.ofJson?) p (p.toJson double)
  := by
  have package := represents_string p.package
  have globals := VariableDecl.represents_list p.globals
  have classes := Represents.ofList fun c (_ : c ∈ p.classes) => c.represents
  have functions : Represents (.list (.node .function)) (fun _ => toList? FunctionDecl.ofJson?)
      p.functions (.ofList (FunctionDecl.toJson double) p.functions) := by
    apply Represents.ofList
    intro f listed
    obtain ⟨index, found⟩ := List.mem_iff_getElem?.1 listed
    have readBack := readBack (some index)
    rw [literals, found] at readBack
    exact f.represents readBack
  have statements : Represents (.list (.node .stmt)) (fun _ => toList? Stmt.ofJson?) p.statements
      (.ofList (Stmt.toJson double) p.statements) := by
    rw [ofList, ← Stmt.toJsons_eq_map]
    exact .list (Stmt.represents_each p.statements (readBack none))
  apply Represents.node
  apply Represents.record ["package", "globals", "classes", "functions", "statements"]
    (.keep package.whole (.keep globals.whole (.keep classes.whole (.keep functions.whole
      (.keep statements.whole .nil))))) rfl (by decide)
  intro r j' depth opened has
  obtain ⟨hasPackage, hasGlobals, hasClasses, hasFunctions, hasStatements, -⟩ := has
  have readPackage := hasPackage.withDefault package (represents_string "")
  have readGlobals := hasGlobals.withDefault globals (.list .nil)
  have readClasses := hasClasses.withDefault classes (.list .nil)
  have readFunctions := hasFunctions.withDefault functions (.list .nil)
  have readStatements := hasStatements.withDefault statements (.list .nil)
  simp [Program.ofJson?, opened, readPackage, readGlobals, readClasses, readFunctions, readStatements]

/-- The value written for a program without double literals has the form of programs, with all fields,
and the program is read from it, and from all that is left of it when fields that have their default
values are left out. -/
theorem read_of_trims (p : Program) (double : Double → Json)
    (noDouble : ∀ current x, Constant.double x ∉ p.literals current) :
  Trims (.node .program) (p.toJson double) (p.toJson double)
    ∧ Program.ofJson? (p.toJson double) = some p
    ∧ ∀ j, Trims (.node .program) (p.toJson double) j → Program.ofJson? j = some p
  := by
  have represents : Represents (.node .program) (fun _ => Program.ofJson?) p (p.toJson double) :=
    p.represents fun current x listed => absurd listed (noDouble current x)
  have reads {j : Json} (trims : Trims (.node .program) (p.toJson double) j) :
      Program.ofJson? j = some p := represents.reads trims (Nat.lt_succ_self _)
  exact ⟨represents.whole, reads represents.whole, fun _ => reads⟩

/-- A program that branches to nothing, and one function without a body. -/
def branching : Program where
  functions := [{ name := "f", returnType := .int, params := [], body := none }]
  statements := [.branch {} (.boolean ⟨.boolean, ⟨3, 0⟩⟩ true) [] [] none]

/-- It is read from a value that has only the fields that must be there. -/
theorem read_branching :
  Program.ofJson? (.obj [
    ("functions", .arr [.obj [("name", .str "f"), ("return_type", .str "int"), ("params", .arr [])]]),
    ("statements", .arr [.obj [("kind", .tagged "if" (.obj [
      ("condition", .obj [("kind", .tagged "boolean" (.bool true)), ("ty", .str "boolean"),
        ("position", .obj [("line", .ofNat 3)])]),
      ("then_block", .obj [("statements", .arr [])])]))]])]) = some branching
  := by
  have noDouble : ∀ current x, Constant.double x ∉ branching.literals current := by
    rintro (_ | _ | index) x listed
    · cases listed
    · cases listed
    · cases listed
  refine (branching.read_of_trims (fun _ => .null) noDouble).2.2 _ ?_
  refine .node (.record (.drop (.drop (.drop (.keep (.list (.cons ?function .nil))
    (.keep (.list (.cons ?statement .nil)) .nil))))))
  case function =>
    exact .node (.record (.keep (.string "f") (.drop (.keep (.node (.bare rfl)) (.keep (.list .nil)
      (.drop (.drop (.drop (.drop .nil)))))))))
  case statement =>
    refine .node (.record (.keep (.node (.carrying rfl (.record (.keep ?condition (.keep ?block
      (.drop (.drop .nil))))))) (.drop .nil)))
    case condition =>
      exact .node (.record (.keep (.node (.carrying rfl (.bool true))) (.keep (.node (.bare rfl))
        (.keep (.node (.record (.keep (.integer ⟨3, rfl⟩) (.drop .nil)))) .nil))))
    case block =>
      exact .node (.record (.keep (.list .nil) .nil))

end Program

end

end Bytecode
