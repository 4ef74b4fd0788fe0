import Bytecode.Tree.Expr

/-!
# Statements, declarations and programs

A `Program` is one resolved compilation unit: the tables of globals, classes and functions
that indices in the trees refer to, and the statements run at the top level. A function
without a body is native and is bound to a host procedure before it runs.
-/

namespace Bytecode

mutual

/-- A statement with its source position. -/
inductive Stmt where
  | expression (position : Position) (expr : Expr)
  /-- A declaration of a variable whose slot is bound already. -/
  | declaration (position : Position) (place : Variable) (ty : Ty) (initial : Option Expr)
  | branch (position : Position) (condition : Expr) (thenBlock : List Stmt)
      (elifs : List Elif) (elseBlock : Option (List Stmt))
  | loop (position : Position) (init condition post : Option Expr) (body : List Stmt)
  | ret (position : Position) (value : Option Expr)
  | break_ (position : Position)
  | continue_ (position : Position)
  | block (position : Position) (statements : List Stmt)

/-- A further condition of a branch with its block. -/
inductive Elif where
  | mk (condition : Expr) (block : List Stmt)

end

deriving instance BEq, Repr for Stmt, Elif

/-- A sequence of statements. -/
abbrev Block := List Stmt

namespace Elif

def condition : Elif → Expr
  | .mk condition _ => condition

def block : Elif → Block
  | .mk _ block => block

end Elif

namespace Stmt

def position : Stmt → Position
  | .expression p _ | .declaration p _ _ _ | .branch p _ _ _ _ | .loop p _ _ _ _ | .ret p _
  | .break_ p | .continue_ p | .block p _ => p

def withPosition (p : Position) : Stmt → Stmt
  | .expression _ expr => .expression p expr
  | .declaration _ place ty initial => .declaration p place ty initial
  | .branch _ condition thenBlock elifs elseBlock => .branch p condition thenBlock elifs elseBlock
  | .loop _ init condition post body => .loop p init condition post body
  | .ret _ value => .ret p value
  | .break_ _ => .break_ p
  | .continue_ _ => .continue_ p
  | .block _ statements => .block p statements

def atLine (line : UInt32) (s : Stmt) : Stmt := s.withPosition (.ofLine line)

/-- An expression statement stands on the line of its expression. -/
def ofExpr (expr : Expr) : Stmt := .expression (.ofLine expr.position.line) expr

def isReturn : Stmt → Bool
  | .ret _ _ => true
  | _ => false

end Stmt

/-- A name with a type: a global, a parameter, a local or a field. -/
structure VariableDecl where
  name : String
  ty : Ty
  deriving BEq, Repr, Inhabited

structure FunctionDecl where
  name : String
  package : String := ""
  returnType : Ty
  params : List VariableDecl
  /-- The locals after the parameters, in the order of their slots. -/
  locals : List VariableDecl := []
  /-- There is none in a native function. -/
  body : Option Block
  /-- The class that a method belongs to. -/
  class_ : Option UInt16 := none
  position : Position := {}
  deriving BEq, Repr

namespace FunctionDecl

def isNative (f : FunctionDecl) : Bool := f.body.isNone

/-- The type of a value that denotes the function. -/
def functionType (f : FunctionDecl) : Ty := .function f.returnType (f.params.map (·.ty))

end FunctionDecl

inductive MemberDecl where
  | field (name : String) (ty : Ty) (position : Position)
  /-- A method, whose body is an entry of the function table. -/
  | method (name : String) (function : UInt16) (position : Position)
  deriving BEq, Repr

namespace MemberDecl

def name : MemberDecl → String
  | .field name _ _ | .method name _ _ => name

def position : MemberDecl → Position
  | .field _ _ position | .method _ _ position => position

end MemberDecl

structure ClassDecl where
  name : String
  package : String := ""
  superClass : Option UInt16 := none
  /-- The members that this class declares itself, in source order. -/
  members : List MemberDecl
  position : Position := {}
  deriving BEq, Repr

structure Program where
  package : String := ""
  globals : List VariableDecl := []
  classes : List ClassDecl := []
  functions : List FunctionDecl := []
  statements : Block := []
  deriving BEq, Repr

end Bytecode
