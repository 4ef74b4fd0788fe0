import Mathlib
import Bytecode.Proofs.Generate.Rules
import Bytecode.Proofs.Generate.Spots

/-!
# Literals of a program

`Program.literals` lists the integers, doubles and strings that are written in a body, wherever they
stand, in the order in which they are computed. In a program that is compiled every one of them has
its place in the code: they are the literals that `Program.spots` lists, in the same order,
`literals_spots_of_compile`. The code of a literal is one instruction, which a machine fetches from
there.
-/

namespace Bytecode

/-! ### Literals in trees -/

/-- The constant that an expression is, if it is an integer, a double or a string. -/
def Expr.literal? : Expr → Option Constant
  | .int _ value => some (.int value)
  | .double _ value => some (.double value)
  | .string _ value => some (.string value)
  | _ => none

mutual

/-- The literals of an expression. -/
def Expr.literals : Expr → List Constant
  | .int _ value => [.int value]
  | .double _ value => [.double value]
  | .string _ value => [.string value]
  | .boolean _ _ | .null _ | .var _ _ | .function _ _ | .new _ _ => []
  | .assign _ target value => value.literals ++ target.literals
  | .binary _ _ lhs rhs => lhs.literals ++ rhs.literals
  | .call _ callee args => Expr.listLiterals args ++ callee.literals
  | .index _ array i => array.literals ++ i.literals
  | .unary _ _ e | .method _ e _ | .field _ e _ | .newArray _ e | .convert _ _ e | .downCast _ _ e
  | .instanceOf _ _ e | .arrayLength _ e | .stringLength _ e => e.literals
  | .arrayLiteral _ items => Expr.listLiterals items

def Expr.listLiterals : List Expr → List Constant
  | [] => []
  | e :: rest => e.literals ++ Expr.listLiterals rest

end

def Expr.optionalLiterals : Option Expr → List Constant
  | none => []
  | some e => e.literals

mutual

/-- The literals of a statement. -/
def Stmt.literals : Stmt → List Constant
  | .expression _ e => e.literals
  | .declaration _ _ _ initial => Expr.optionalLiterals initial
  | .branch _ condition thenBlock elifs elseBlock =>
    condition.literals ++ Stmt.listLiterals thenBlock
      ++ (Elif.literals elifs ++ Stmt.elseLiterals elseBlock)
  | .loop _ init condition post body =>
    Expr.optionalLiterals init ++ (Expr.optionalLiterals condition ++ Stmt.listLiterals body
      ++ Expr.optionalLiterals post)
  | .ret _ value => Expr.optionalLiterals value
  | .break_ _ | .continue_ _ => []
  | .block _ statements => Stmt.listLiterals statements

def Stmt.listLiterals : List Stmt → List Constant
  | [] => []
  | s :: rest => s.literals ++ Stmt.listLiterals rest

def Elif.literals : List Elif → List Constant
  | [] => []
  | .mk condition body :: rest =>
    condition.literals ++ Stmt.listLiterals body ++ Elif.literals rest

def Stmt.elseLiterals : Option (List Stmt) → List Constant
  | none => []
  | some body => Stmt.listLiterals body

end

/-- The literals of a function of the table, or of the top level. -/
def Program.literals (p : Program) : Option Nat → List Constant
  | none => Stmt.listLiterals p.statements
  | some index =>
    match p.functions[index]? with
    | some f => (f.body.map Stmt.listLiterals).getD []
    | none => []

/-! ### Every literal has its place -/

/-- The constant that a spot is for, if it is for a literal. -/
def Spot.literal? (spot : Spot) : Option Constant :=
  match spot.construct with
  | .expr e => e.literal?
  | .stmt _ _ => none

section

variable {scope : Scope} {inFunction : Bool} {site : Site}

theorem Expr.Legal.part {e part : Expr} (legal : e.Legal scope inFunction)
    (listed : part ∈ e.inner) :
  part.Legal scope inFunction
  := (Expr.legal_iff.1 legal).2 part listed

theorem Expr.Legal.only {e part : Expr} (legal : e.Legal scope inFunction)
    (parts : e.inner = [part]) :
  part.Legal scope inFunction
  := legal.part (by simp [parts])

theorem Expr.Legal.both {e first second : Expr} (legal : e.Legal scope inFunction)
    (parts : e.inner = [first, second]) :
  first.Legal scope inFunction ∧ second.Legal scope inFunction
  := ⟨legal.part (by simp [parts]), legal.part (by simp [parts])⟩

mutual

theorem Expr.filterMap_spots :
  (e : Expr) → ∀ {start : Nat}, e.Legal scope inFunction →
    (e.spots site start).filterMap Spot.literal? = e.literals
  | .assign _ target value, _, legal => by
      have isTarget : target.isTarget := (Expr.legal_iff.1 legal).1
      obtain ⟨legalTarget, legalValue⟩ := legal.both rfl
      change List.filterMap _ (value.spots site _ ++ target.targetSpots site _) = _
      rw [List.filterMap_append, value.filterMap_spots legalValue,
        target.filterMap_targetSpots isTarget legalTarget]
      rfl
  | .binary _ _ lhs rhs, _, legal => by
      obtain ⟨left, right⟩ := legal.both rfl
      change List.filterMap _ (lhs.spots site _ ++ rhs.spots site _) = _
      rw [List.filterMap_append, lhs.filterMap_spots left, rhs.filterMap_spots right]
      rfl
  | .call _ callee args, start, legal => by
      have called : ∀ {start : Nat}, callee.Legal scope inFunction →
        (callee.spots site start).filterMap Spot.literal? = callee.literals :=
        callee.filterMap_spots
      have passed : (∀ e ∈ args, e.Legal scope inFunction) →
        (Expr.listSpots site start args).filterMap Spot.literal? = Expr.listLiterals args :=
        Expr.filterMap_listSpots args
      cases callee with
      | method _ object _ =>
        refine (List.filterMap_append ..).trans (congrArg₂ _ (passed ?_) ?_)
        · exact fun e listed => legal.part (List.mem_cons_of_mem _ listed)
        · exact object.filterMap_spots (legal.part List.mem_cons_self)
      | _ =>
        refine (List.filterMap_append ..).trans (congrArg₂ _ (passed ?_) (called ?_))
        · exact fun e listed => legal.part (List.mem_cons_of_mem _ listed)
        · exact legal.part List.mem_cons_self
  | .index _ array i, _, legal => by
      obtain ⟨legalArray, legalIndex⟩ := legal.both rfl
      change List.filterMap _ (array.spots site _ ++ i.spots site _) = _
      rw [List.filterMap_append, array.filterMap_spots legalArray, i.filterMap_spots legalIndex]
      rfl
  | .unary _ _ e, _, legal | .field _ e _, _, legal | .newArray _ e, _, legal
  | .convert _ _ e, _, legal | .downCast _ _ e, _, legal | .instanceOf _ _ e, _, legal
  | .arrayLength _ e, _, legal | .stringLength _ e, _, legal => e.filterMap_spots (legal.only rfl)
  | .arrayLiteral _ items, _, legal => Expr.filterMap_listSpots items fun _ => legal.part
  | .method _ _ _, _, legal => False.elim (Expr.legal_iff.1 legal).1
  | .boolean _ _, _, _ | .int _ _, _, _ | .double _ _, _, _ | .string _ _, _, _ | .null _, _, _
  | .var _ _, _, _ | .function _ _, _, _ | .new _ _, _, _ => rfl

theorem Expr.filterMap_listSpots :
  (es : List Expr) → ∀ {start : Nat}, (∀ e ∈ es, e.Legal scope inFunction) →
    (Expr.listSpots site start es).filterMap Spot.literal? = Expr.listLiterals es
  | [], _, _ => rfl
  | e :: rest, _, legal => by
      rw [List.forall_mem_cons] at legal
      rw [Expr.listSpots, List.filterMap_append, e.filterMap_spots legal.1,
        Expr.filterMap_listSpots rest legal.2]
      rfl

theorem Expr.filterMap_targetSpots (target : Expr) {start : Nat} (isTarget : target.isTarget)
    (legal : target.Legal scope inFunction) :
  (target.targetSpots site start).filterMap Spot.literal? = target.literals
  := by
  cases target with
  | var _ _ => rfl
  | index _ array i =>
    obtain ⟨legalArray, legalIndex⟩ := legal.both rfl
    rw [Expr.targetSpots, List.filterMap_append, array.filterMap_spots legalArray,
      i.filterMap_spots legalIndex]
    rfl
  | field _ object _ => exact object.filterMap_spots (legal.only rfl)
  | _ => cases isTarget

end

theorem Expr.filterMap_effectSpots (e : Expr) {start : Nat} (legal : e.Legal scope inFunction) :
  (e.effectSpots site start).filterMap Spot.literal? = e.literals
  := by
  cases e with
  | assign _ target value =>
    have isTarget : target.isTarget := (Expr.legal_iff.1 legal).1
    obtain ⟨legalTarget, legalValue⟩ := legal.both rfl
    rw [Expr.effectSpots, List.filterMap_append, value.filterMap_spots legalValue,
      target.filterMap_targetSpots isTarget legalTarget]
    rfl
  | _ => exact Expr.filterMap_spots _ legal

theorem filterMap_optionalSpots (e : Option Expr) {start : Nat}
    (legal : ∀ part ∈ e.toList, part.Legal scope inFunction) :
  (optionalSpots site start e).filterMap Spot.literal? = Expr.optionalLiterals e
  := by
  cases e with
  | none => rfl
  | some e => exact e.filterMap_spots (legal e (List.mem_singleton_self e))

theorem filterMap_optionalEffectSpots (e : Option Expr) {start : Nat}
    (legal : ∀ part ∈ e.toList, part.Legal scope inFunction) :
  (optionalEffectSpots site start e).filterMap Spot.literal? = Expr.optionalLiterals e
  := by
  cases e with
  | none => rfl
  | some e => exact e.filterMap_effectSpots (legal e (List.mem_singleton_self e))

end

section

variable {scope : Scope} {function : Option FunctionDecl}

mutual

theorem Stmt.filterMap_spots :
  (s : Stmt) → ∀ {site : Site} {loop : Option (Nat × Nat)} {inLoop : Bool} {start : Nat},
    s.Legal scope function inLoop → (s.spots site loop start).filterMap Spot.literal? = s.literals
  | .expression _ e, _, _, _, _, legal => by
      obtain ⟨-, exprs, -⟩ := Stmt.legal_iff.1 legal
      exact e.filterMap_effectSpots (exprs e (List.mem_singleton_self e))
  | .declaration _ _ _ initial, _, _, _, _, legal => by
      obtain ⟨-, exprs, -⟩ := Stmt.legal_iff.1 legal
      exact filterMap_optionalSpots initial exprs
  | .branch _ condition thenBlock elifs elseBlock, _, _, _, _, legal => by
      obtain ⟨-, exprs, inner⟩ := Stmt.legal_iff.1 legal
      simp only [Stmt.exprs, List.forall_mem_cons, List.forall_mem_map] at exprs
      simp only [Stmt.inner, List.forall_mem_append, List.forall_mem_flatMap] at inner
      rw [Stmt.spots, List.filterMap_cons_none rfl, Stmt.literals]
      simp only [List.filterMap_append]
      rw [condition.filterMap_spots exprs.1, Stmt.filterMap_listSpots thenBlock inner.1.1,
        Elif.filterMap_spots elifs exprs.2 inner.1.2, Stmt.filterMap_elseSpots elseBlock inner.2]
  | .loop _ init condition post body, _, _, _, _, legal => by
      obtain ⟨-, exprs, inner⟩ := Stmt.legal_iff.1 legal
      simp only [Stmt.exprs, List.forall_mem_append] at exprs
      rw [Stmt.spots, List.filterMap_cons_none rfl, Stmt.literals]
      simp only [List.filterMap_append]
      rw [filterMap_optionalEffectSpots init exprs.1.1, filterMap_optionalSpots condition exprs.1.2,
        Stmt.filterMap_listSpots body inner, filterMap_optionalEffectSpots post exprs.2]
  | .ret _ value, _, _, _, _, legal => by
      obtain ⟨-, exprs, -⟩ := Stmt.legal_iff.1 legal
      exact filterMap_optionalSpots value exprs
  | .break_ _, _, _, _, _, _ => rfl
  | .continue_ _, _, _, _, _, _ => rfl
  | .block _ statements, _, _, _, _, legal => by
      obtain ⟨-, -, inner⟩ := Stmt.legal_iff.1 legal
      exact Stmt.filterMap_listSpots statements inner

theorem Stmt.filterMap_listSpots :
  (ss : List Stmt) → ∀ {site : Site} {loop : Option (Nat × Nat)} {inLoop : Bool} {start : Nat},
    (∀ s ∈ ss, s.Legal scope function inLoop) →
    (Stmt.listSpots site loop start ss).filterMap Spot.literal? = Stmt.listLiterals ss
  | [], _, _, _, _, _ => rfl
  | s :: rest, _, _, _, _, legal => by
      rw [List.forall_mem_cons] at legal
      rw [Stmt.listSpots, List.filterMap_append, s.filterMap_spots legal.1,
        Stmt.filterMap_listSpots rest legal.2]
      rfl

theorem Elif.filterMap_spots :
  (elifs : List Elif) → ∀ {site : Site} {loop : Option (Nat × Nat)} {inLoop : Bool} {start : Nat},
    (∀ elif ∈ elifs, elif.condition.Legal scope function.isSome) →
    (∀ elif ∈ elifs, ∀ s ∈ elif.block, s.Legal scope function inLoop) →
    (Elif.spots site loop start elifs).filterMap Spot.literal? = Elif.literals elifs
  | [], _, _, _, _, _, _ => rfl
  | .mk condition body :: rest, _, _, _, _, conditions, blocks => by
      rw [List.forall_mem_cons] at conditions blocks
      rw [Elif.spots, List.filterMap_append, List.filterMap_append,
        condition.filterMap_spots conditions.1, Stmt.filterMap_listSpots body blocks.1,
        Elif.filterMap_spots rest conditions.2 blocks.2]
      rfl

theorem Stmt.filterMap_elseSpots :
  (body : Option (List Stmt)) → ∀ {site : Site} {loop : Option (Nat × Nat)} {inLoop : Bool}
    {start : Nat}, (∀ s ∈ body.getD [], s.Legal scope function inLoop) →
    (Stmt.elseSpots site loop start body).filterMap Spot.literal? = Stmt.elseLiterals body
  | none, _, _, _, _, _ => rfl
  | some body, _, _, _, _, legal => Stmt.filterMap_listSpots body legal

end

end

/-- In a program that is compiled all literals of a body have their places. -/
theorem literals_spots_of_compile {p : Program} {exe : Executable} (compiled : compile p = .ok exe)
    (current : Option Nat) :
  (p.spots current).filterMap Spot.literal? = p.literals current
  := by
  obtain ⟨classes, -, functions, topLevel⟩ := (legal_of_compile compiled).bodies
  cases current with
  | none => exact Stmt.filterMap_listSpots p.statements topLevel
  | some index =>
    cases found : p.functions[index]? with
    | none => simp [Program.spots, Program.literals, found]
    | some f =>
      cases bodied : f.body with
      | none => simp [Program.spots, Program.literals, found, bodied]
      | some body =>
        have legal := functions f (List.mem_of_getElem? found) body bodied
        simp only [Program.spots, Program.literals, found, bodied, Option.map_some,
          Option.getD_some]
        exact Stmt.filterMap_listSpots body legal

/-! ### Their instructions -/

/-- The instruction for a literal. -/
def Constant.directive : Constant → Directive
  | .int value => .int value
  | .double value => .double value
  | .string value => .string value

/-- The code of a literal is one instruction. -/
theorem Spot.piece_of_literal? {spot : Spot} {c : Constant} (isLiteral : spot.literal? = some c) :
  ∃ position, spot.piece = spot.site.one position c.directive
  := by
  obtain ⟨construct, site, start⟩ := spot
  cases construct with
  | stmt _ _ => cases isLiteral
  | expr e =>
    cases e with
    | int m value | double m value | string m value =>
      cases isLiteral
      exact ⟨m.position, rfl⟩
    | _ => cases isLiteral

/-- Where a literal has its place in the code, there is the instruction for it. -/
theorem CompiledFrom.fetch_of_literal? {p : Program} {exe : Executable}
    (compiled : CompiledFrom p exe) {current : Option Nat} {spot : Spot} {c : Constant}
    (listed : spot ∈ p.spots current) (isLiteral : spot.literal? = some c) :
  ∃ block operand, exe.code? current = some block
    ∧ fetch block.code spot.start = .ok ⟨spot.start, c.directive.op, operand⟩
    ∧ c.directive.operand.Denotes exe.constants operand
  := by
  obtain ⟨position, piece⟩ := spot.piece_of_literal? isLiteral
  obtain ⟨aims, within, -⟩ := p.located_of_mem_spots current spot listed
  rw [piece] at within
  obtain ⟨depth, planned⟩ := within _ (List.mem_singleton_self _)
  obtain ⟨block, code⟩ := compiled.exists_code planned
  obtain ⟨operand, fetched, denotes, -⟩ := (compiled.encodes code).fetch_eq_ok planned
  exact ⟨block, operand, code, fetched, denotes⟩

end Bytecode
