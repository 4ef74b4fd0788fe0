import Mathlib
import Bytecode.Proofs.Generate.Scheme

/-!
# Where instructions come from

`Program.origins` says for every instruction of a body, in the order of the code, with which
position it is emitted and in which statements. The line of an origin is that of its position if
this is known, or else that of the innermost statement around it whose line is. These are the
lines that the compilation scheme plans, although it knows only one line at a time.
-/

namespace Bytecode

/-- Where an instruction comes from. -/
structure Origin where
  /-- The position with which the instruction is emitted. -/
  position : Position
  /-- The statements that the instruction is part of, from the innermost one outwards. -/
  around : List Stmt

namespace Origin

/-- The first line that is known, from the position of the instruction outwards. -/
def line (o : Origin) : UInt32 :=
  ((o.position :: o.around.map Stmt.position).find? fun p => p.line ≠ 0).elim 0 (·.line)

end Origin

/-- The origins of instructions in the same statements. -/
def originsIn (around : List Stmt) (positions : List Position) : List Origin :=
  positions.map (⟨·, around⟩)

/-! ### Expressions -/

mutual

/-- The positions of the instructions of an expression. -/
def Expr.positions : Expr → List Position
  | .boolean m _ | .int m _ | .double m _ | .string m _ | .null m | .var m _ | .function m _
  | .method m _ _ | .new m _ => [m.position]
  | .assign m target value =>
    value.positions ++ m.position :: target.storePositions m.position
  | .binary m op lhs rhs =>
    match Gen.shortCut? op with
    | some _ => lhs.positions ++ m.position :: m.position :: m.position :: rhs.positions
    | none => lhs.positions ++ rhs.positions ++ [m.position]
  | .call m callee args =>
    match callee with
    | .method _ object _ =>
      Expr.allPositions args ++ object.positions ++ [m.position, m.position]
    | callee => Expr.allPositions args ++ callee.positions ++ [m.position]
  | .index m array i => array.positions ++ i.positions ++ [m.position]
  | .arrayLiteral m items => Expr.allPositions items ++ [m.position]
  | .unary m _ e | .field m e _ | .newArray m e | .convert m _ e | .downCast m _ e
  | .instanceOf m _ e | .arrayLength m e | .stringLength m e => e.positions ++ [m.position]

def Expr.allPositions : List Expr → List Position
  | [] => []
  | e :: rest => e.positions ++ Expr.allPositions rest

/-- The positions of the instructions that store into a target. -/
def Expr.storePositions (position : Position) : Expr → List Position
  | .index _ array i => array.positions ++ i.positions ++ [position]
  | .field _ object _ => object.positions ++ [position]
  | _ => [position]

end

/-- The positions of the instructions of an expression for its effect. -/
def Expr.effectPositions : Expr → List Position
  | .assign m target value => value.positions ++ target.storePositions m.position
  | e => e.positions ++ [e.position]

def optionalEffectPositions (e : Option Expr) : List Position := e.elim [] Expr.effectPositions

/-- The positions of the instructions that jump if a condition does not hold. -/
def Expr.conditionPositions (condition : Expr) : List Position :=
  condition.positions ++ [condition.position]

/-! ### Statements -/

/-- The origins of the instructions of a branch. -/
def branchOrigins (around : List Stmt) (condition : Expr) (body others : List Origin) :
    List Origin :=
  originsIn around condition.conditionPositions ++ body
    ++ ⟨condition.position, around⟩ :: others

/-- The origins of the instructions of a loop without its initial expression. -/
def loopOrigins (around : List Stmt) (position : Position) (condition post : Option Expr)
    (body : List Origin) : List Origin :=
  originsIn around (condition.elim [] Expr.conditionPositions) ++ body
    ++ originsIn around (optionalEffectPositions post ++ [position])

/-- The positions of the instructions that return. -/
def returnPositions (position : Position) : Option Expr → List Position
  | some value => value.positions ++ [position]
  | none => [position, position]

mutual

/-- The origins of the instructions of a statement. -/
def Stmt.origins (around : List Stmt) (inLoop : Bool) : Stmt → List Origin
  | s@(.expression _ e) => originsIn (s :: around) e.effectPositions
  | s@(.declaration p _ _ initial) =>
    originsIn (s :: around) (initial.elim [] fun e => e.positions ++ [p])
  | s@(.branch _ condition thenBlock elifs elseBlock) =>
    branchOrigins (s :: around) condition (Stmt.allOrigins (s :: around) inLoop thenBlock)
      (Elif.allOrigins (s :: around) inLoop elifs
        ++ Stmt.elseOrigins (s :: around) inLoop elseBlock)
  | s@(.loop p init condition post body) =>
    originsIn (s :: around) (optionalEffectPositions init)
      ++ loopOrigins (s :: around) p condition post (Stmt.allOrigins (s :: around) true body)
  | s@(.ret p value) => originsIn (s :: around) (returnPositions p value)
  | s@(.break_ p) | s@(.continue_ p) => if inLoop then [⟨p, s :: around⟩] else []
  | s@(.block _ statements) => Stmt.allOrigins (s :: around) inLoop statements
termination_by structural s => s

def Stmt.allOrigins (around : List Stmt) (inLoop : Bool) : List Stmt → List Origin
  | [] => []
  | s :: rest => s.origins around inLoop ++ Stmt.allOrigins around inLoop rest

def Elif.allOrigins (around : List Stmt) (inLoop : Bool) : List Elif → List Origin
  | [] => []
  | .mk condition body :: rest =>
    branchOrigins around condition (Stmt.allOrigins around inLoop body)
      (Elif.allOrigins around inLoop rest)

def Stmt.elseOrigins (around : List Stmt) (inLoop : Bool) : Option (List Stmt) → List Origin
  | none => []
  | some body => Stmt.allOrigins around inLoop body

end

/-- The origins of the instructions of a function. The `return` at its end is part of no
statement. -/
def FunctionDecl.origins (f : FunctionDecl) (body : Block) : List Origin :=
  Stmt.allOrigins [] false body
    ++ if (body.getLast?.map Stmt.isReturn).getD false then []
      else originsIn [] (returnPositions f.position none)

/-- The origins of the instructions of a function of the table, or of the top level. -/
def Program.origins (p : Program) : Option Nat → List Origin
  | none => Stmt.allOrigins [] false p.statements
  | some index => ((p.functions[index]?).bind fun f => f.body.map f.origins).getD []

/-! ### Planned lines -/

namespace Piece

/-- The lines of the instructions of a piece. -/
def lines : Piece → List UInt32
  | .empty => []
  | .one line _ | .jump line _ _ => [line]
  | .seq first _ second | .mark _ first _ second => first.lines ++ second.lines

theorem map_line_points (q : Piece) (aims : Aim → Nat) (pc depth : Nat) :
  (q.points aims pc depth).map (·.line) = q.lines
  := by
  induction q generalizing aims pc depth with
  | empty | one line directive | jump line op aim => rfl
  | seq first rise second ihFirst ihSecond => rw [points, List.map_append, ihFirst, ihSecond, lines]
  | mark aim first rise second ihFirst ihSecond =>
    simp only [points, lines]
    rw [List.map_append, ihFirst, ihSecond]

@[simp] theorem lines_one (site : Site) (position : Position) (i : Directive) :
  (site.one position i).lines = [site.lineOf position]
  := rfl

@[simp] theorem lines_jump (site : Site) (position : Position) (op : Op) (aim : Aim) :
  (site.jump position op aim).lines = [site.lineOf position]
  := rfl

end Piece

open Piece

mutual

theorem Expr.lines_piece (site : Site) :
  (e : Expr) → (e.piece site).lines = e.positions.map site.lineOf
  | .boolean _ _ | .int _ _ | .double _ _ | .string _ _ | .null _ | .var _ _ | .function _ _
  | .method _ _ _ | .new _ _ => rfl
  | .assign m target value => by
      simp [Expr.piece, Expr.positions, lines, value.lines_piece site,
        target.lines_storePiece site m.position]
  | .binary m op lhs rhs => by
      have left := lhs.lines_piece site
      have right := rhs.lines_piece site
      rw [Expr.piece, Expr.positions]
      split
      · next skips => simp [lines, left, right, skips]
      · next full => simp [lines, left, right, full]
  | .call m callee args => by
      have pushed := Expr.lines_pieces site args
      have called := callee.lines_piece site
      cases callee with
      | method _ object i =>
        simp [Expr.piece, Expr.positions, lines, pushed, object.lines_piece site]
      | _ =>
        rw [Expr.piece, Expr.positions, lines, lines, pushed, called]
        · simp
        all_goals
          intro _ _ _ impossible
          cases impossible
  | .index _ array i => by
      simp [Expr.piece, Expr.positions, lines, array.lines_piece site, i.lines_piece site]
  | .arrayLiteral _ items => by
      simp [Expr.piece, Expr.positions, lines, Expr.lines_pieces site items]
  | .unary _ _ e | .field _ e _ | .newArray _ e | .convert _ _ e | .downCast _ _ e
  | .instanceOf _ _ e | .arrayLength _ e | .stringLength _ e => by
      simp [Expr.piece, Expr.positions, lines, e.lines_piece site]

theorem Expr.lines_pieces (site : Site) :
  (es : List Expr) → (Expr.pieces site es).lines = (Expr.allPositions es).map site.lineOf
  | [] => rfl
  | e :: rest => by
      simp [Expr.pieces, Expr.allPositions, lines, e.lines_piece site, Expr.lines_pieces site rest]

theorem Expr.lines_storePiece (site : Site) (position : Position) (target : Expr) :
  (target.storePiece site position).lines = (target.storePositions position).map site.lineOf
  := by
  cases target with
  | index m array i =>
    simp [Expr.storePiece, Expr.storePositions, lines, array.lines_piece site, i.lines_piece site]
  | field m object i =>
    simp [Expr.storePiece, Expr.storePositions, lines, object.lines_piece site]
  | _ => rfl

end

theorem Expr.lines_effectPiece (site : Site) (e : Expr) :
  (e.effectPiece site).lines = e.effectPositions.map site.lineOf
  := by
  have own := e.lines_piece site
  cases e with
  | assign m target value =>
    simp [Expr.effectPiece, Expr.effectPositions, lines, value.lines_piece site,
      target.lines_storePiece site m.position]
  | _ =>
    rw [Expr.effectPiece, Expr.effectPositions, lines, own, lines_one, List.map_append]
    · rfl
    all_goals
      intro _ _ _ impossible
      cases impossible

theorem lines_optionalEffectPiece (site : Site) (e : Option Expr) :
  (optionalEffectPiece site e).lines = (optionalEffectPositions e).map site.lineOf
  := by
  cases e with
  | none => rfl
  | some e => exact e.lines_effectPiece site

/-- The one line that is known at the site is that of the statements around it. -/
def Site.Within (site : Site) (around : List Stmt) : Prop :=
  ∀ position, site.lineOf position = Origin.line ⟨position, around⟩

namespace Site.Within

variable {site : Site} {around : List Stmt} {inLoop : Bool}

theorem root (params : Nat) (returns : Ty) :
  Site.Within ⟨params, returns, 0⟩ []
  := by
  intro position
  by_cases unknown : position.line = 0
  · simp [lineOf, Origin.line, unknown]
  · simp [lineOf, Origin.line, unknown]

section

variable (within : site.Within around)
include within

theorem enter (s : Stmt) :
  (site.enter s.position.line).Within (s :: around)
  := by
  intro position
  have outer := within position
  by_cases unknown : s.position.line = 0
  · by_cases here : position.line = 0
    · simpa [Site.enter, lineOf, Origin.line, unknown, here] using outer
    · simp [lineOf, Origin.line, here]
  · by_cases here : position.line = 0
    · simp [Site.enter, lineOf, Origin.line, unknown, here]
    · simp [lineOf, Origin.line, here]

theorem map_lineOf (positions : List Position) :
  positions.map site.lineOf = (originsIn around positions).map Origin.line
  := by
  rw [originsIn, List.map_map]
  exact List.map_congr_left fun position _ => within position

theorem lines_branchPiece (condition : Expr) {body others : Piece}
    {bodyOrigins otherOrigins : List Origin} (first : body.lines = bodyOrigins.map Origin.line)
    (second : others.lines = otherOrigins.map Origin.line) :
  (branchPiece site condition body others).lines
    = (branchOrigins around condition bodyOrigins otherOrigins).map Origin.line
  := by
  simp [branchPiece, branchOrigins, lines, condition.lines_piece site, first, second,
    Expr.conditionPositions, ← within.map_lineOf, ← within condition.position]

theorem lines_loopPiece (position : Position) (condition post : Option Expr) {body : Piece}
    {bodyOrigins : List Origin} (inner : body.lines = bodyOrigins.map Origin.line) :
  (loopPiece site position condition body post).lines
    = (loopOrigins around position condition post bodyOrigins).map Origin.line
  := by
  have tested : (loopConditionPiece site condition).lines
      = (condition.elim [] Expr.conditionPositions).map site.lineOf := by
    cases condition with
    | none => rfl
    | some condition =>
      simp [loopConditionPiece, lines, condition.lines_piece site, Expr.conditionPositions]
  simp [loopPiece, loopOrigins, lines, tested, inner, lines_optionalEffectPiece,
    ← within.map_lineOf]

theorem lines_returnPiece (position : Position) (value : Option Expr) :
  (returnPiece site position value).lines
    = (originsIn around (returnPositions position value)).map Origin.line
  := by
  rw [← within.map_lineOf]
  cases value with
  | none => rfl
  | some value => simp [returnPiece, returnPositions, lines, value.lines_piece site]

end

end Site.Within

mutual

theorem Stmt.lines_piece {site : Site} {around : List Stmt} (within : site.Within around)
    (inLoop : Bool) :
  (s : Stmt) → (s.piece site inLoop).lines = (s.origins around inLoop).map Origin.line
  | .expression p e => by
      rw [Stmt.piece, Stmt.origins, ← (within.enter (.expression p e)).map_lineOf]
      exact e.lines_effectPiece _
  | .declaration _ _ _ none => rfl
  | .declaration p place ty (some initial) => by
      rw [Stmt.piece, Stmt.origins, ← (within.enter (.declaration p place ty _)).map_lineOf]
      simp [lines, initial.lines_piece, Stmt.position]
  | .branch p condition thenBlock elifs elseBlock => by
      have inner : (site.enter p.line).Within (_ :: around) :=
        within.enter (.branch p condition thenBlock elifs elseBlock)
      rw [Stmt.piece, Stmt.origins, lines, lines, List.append_nil]
      apply inner.lines_branchPiece condition (Stmt.lines_pieces inner inLoop thenBlock)
      rw [lines, List.map_append, Elif.lines_pieces inner inLoop elifs,
        Stmt.lines_elsePiece inner inLoop elseBlock]
  | .loop p init condition post body => by
      have inner : (site.enter p.line).Within (_ :: around) :=
        within.enter (.loop p init condition post body)
      rw [Stmt.piece, Stmt.origins, lines, lines_optionalEffectPiece, List.map_append,
        inner.map_lineOf,
        inner.lines_loopPiece p condition post (Stmt.lines_pieces inner true body)]
  | .ret p value => (within.enter (.ret p value)).lines_returnPiece p value
  | .break_ p => by
      rw [Stmt.piece, Stmt.origins]
      split
      · exact (within.enter (.break_ p)).map_lineOf [p]
      · rfl
  | .continue_ p => by
      rw [Stmt.piece, Stmt.origins]
      split
      · exact (within.enter (.continue_ p)).map_lineOf [p]
      · rfl
  | .block p statements => Stmt.lines_pieces (within.enter (.block p statements)) inLoop statements

theorem Stmt.lines_pieces {site : Site} {around : List Stmt} (within : site.Within around)
    (inLoop : Bool) :
  (ss : List Stmt) →
    (Stmt.pieces site inLoop ss).lines = (Stmt.allOrigins around inLoop ss).map Origin.line
  | [] => rfl
  | s :: rest => by
      rw [Stmt.pieces, Stmt.allOrigins, lines, List.map_append, s.lines_piece within inLoop,
        Stmt.lines_pieces within inLoop rest]

theorem Elif.lines_pieces {site : Site} {around : List Stmt} (within : site.Within around)
    (inLoop : Bool) :
  (elifs : List Elif) →
    (Elif.pieces site inLoop elifs).lines = (Elif.allOrigins around inLoop elifs).map Origin.line
  | [] => rfl
  | .mk condition body :: rest => by
      rw [Elif.pieces, Elif.allOrigins]
      exact within.lines_branchPiece condition (Stmt.lines_pieces within inLoop body)
        (Elif.lines_pieces within inLoop rest)

theorem Stmt.lines_elsePiece {site : Site} {around : List Stmt} (within : site.Within around)
    (inLoop : Bool) :
  (body : Option (List Stmt)) →
    (Stmt.elsePiece site inLoop body).lines
      = (Stmt.elseOrigins around inLoop body).map Origin.line
  | none => rfl
  | some body => Stmt.lines_pieces within inLoop body

end

theorem FunctionDecl.lines_piece (f : FunctionDecl) (body : Block) :
  (f.piece body).lines = (f.origins body).map Origin.line
  := by
  have within : f.site.Within [] := .root _ _
  rw [FunctionDecl.piece, FunctionDecl.origins, lines, List.map_append,
    Stmt.lines_pieces within false body]
  split
  · rfl
  · rw [within.lines_returnPiece]

/-- The line planned for every instruction is that of its origin. -/
theorem Program.map_line_points (p : Program) (current : Option Nat) :
  (p.points current).map (·.line) = (p.origins current).map Origin.line
  := by
  rw [Program.points, Piece.map_line_points]
  cases current with
  | none => exact Stmt.lines_pieces (.root _ _) false p.statements
  | some index =>
    rw [Program.piece, Program.origins]
    cases p.functions[index]? with
    | none => rfl
    | some f =>
      cases bodied : f.body with
      | none => simp [bodied, lines]
      | some body => simpa [bodied] using f.lines_piece body

/-- The origin of a planned instruction. -/
theorem Program.exists_origin {p : Program} {current : Option Nat} {k : Nat} {point : Point}
    (found : (p.points current)[k]? = some point) :
  ∃ origin, (p.origins current)[k]? = some origin ∧ origin.line = point.line
  := by
  have lines := congrArg (·[k]?) (p.map_line_points current)
  simp only [List.getElem?_map, found, Option.map_some] at lines
  exact Option.map_eq_some_iff.1 lines.symm

end Bytecode
