import Mathlib
import Bytecode.Proofs.Generate.Program

/-!
# Slots used by code

`Expr.slots` and `Stmt.slots` list the parameters and locals that code reads or writes. When they
all lie below the number of parameters and locals of the function, `Program.SlotsInRange`, then
every instruction of the compiled code that addresses the frame addresses a parameter or a local
of it. The top level is not compiled if it uses any.
-/

namespace Bytecode

mutual

/-- The slots of parameters and locals that the code of an expression uses. -/
def Expr.slots : Expr → List Nat
  | .boolean _ _ | .int _ _ | .double _ _ | .string _ _ | .null _ | .function _ _ | .new _ _ => []
  | .var _ (.local slot) => [slot.toNat]
  | .var _ (.global _) => []
  | .assign _ first second | .binary _ _ first second | .index _ first second =>
    first.slots ++ second.slots
  | .unary _ _ e | .method _ e _ | .field _ e _ | .newArray _ e | .convert _ _ e
  | .downCast _ _ e | .instanceOf _ _ e | .arrayLength _ e | .stringLength _ e => e.slots
  | .call _ callee args => callee.slots ++ Expr.listSlots args
  | .arrayLiteral _ items => Expr.listSlots items

def Expr.listSlots : List Expr → List Nat
  | [] => []
  | e :: rest => e.slots ++ Expr.listSlots rest

end

/-- The slot of a variable that is no global. -/
def Variable.slots : Variable → List Nat
  | .local slot => [slot.toNat]
  | .global _ => []

def Expr.optionSlots : Option Expr → List Nat
  | none => []
  | some e => e.slots

mutual

/-- The slots of parameters and locals that the code of a statement uses. A declaration without
an initial value has no code. -/
def Stmt.slots : Stmt → List Nat
  | .expression _ e => e.slots
  | .declaration _ _ _ none => []
  | .declaration _ place _ (some initial) => place.slots ++ initial.slots
  | .branch _ condition thenBlock elifs elseBlock =>
    condition.slots ++ Stmt.listSlots thenBlock ++ Elif.slots elifs ++ Stmt.elseSlots elseBlock
  | .loop _ init condition post body =>
    Expr.optionSlots init ++ Expr.optionSlots condition ++ Expr.optionSlots post
      ++ Stmt.listSlots body
  | .ret _ value => Expr.optionSlots value
  | .break_ _ | .continue_ _ => []
  | .block _ statements => Stmt.listSlots statements

def Stmt.listSlots : List Stmt → List Nat
  | [] => []
  | s :: rest => s.slots ++ Stmt.listSlots rest

def Elif.slots : List Elif → List Nat
  | [] => []
  | .mk condition body :: rest => condition.slots ++ Stmt.listSlots body ++ Elif.slots rest

def Stmt.elseSlots : Option (List Stmt) → List Nat
  | none => []
  | some body => Stmt.listSlots body

end

/-- Every local slot that is used in a body is one of the parameters and locals of its
function. -/
def Program.SlotsInRange (p : Program) : Prop :=
  ∀ f ∈ p.functions, ∀ body, f.body = some body →
    ∀ slot ∈ Stmt.listSlots body, slot < f.params.length + f.locals.length

/-! ### Operands -/

/-- The operand of an instruction is of the kind that the instruction needs: a constant of the
right kind, a slot of the frame that is allowed, the number of items of an array literal, or a
place in the code. -/
def Directive.Proper (params : Nat) (Allowed : Nat → Prop) (i : Directive) : Prop :=
  match i.op with
  | .pushInt => ∃ value, i.operand = .constant (.int value)
  | .pushDouble => ∃ value, i.operand = .constant (.double value)
  | .pushString => ∃ value, i.operand = .constant (.string value)
  | .pushStack _ | .popStack _ =>
    ∃ slot, Allowed slot ∧ i.operand = .number (Frame.slotOffset params slot)
  | .newArrayLiteral _ => i.operand = .number i.args
  | .jump | .jumpIfTrue | .jumpIfFalse => ∃ place : Nat, i.operand = .number place
  | _ => True

namespace Directive

variable {params : Nat} {Allowed : Nat → Prop}

theorem proper_int (value : Int64) :
  (Directive.int value).Proper params Allowed
  := by
  unfold Directive.int
  split
  · trivial
  · split
    · trivial
    · exact ⟨value, rfl⟩

theorem proper_double (value : Double) :
  (Directive.double value).Proper params Allowed
  := by
  unfold Directive.double
  split
  · trivial
  · split
    · trivial
    · exact ⟨value, rfl⟩

theorem proper_default (ty : Ty) :
  (Directive.default ty).Proper params Allowed
  := by
  unfold Directive.default
  split
  · trivial
  · exact ⟨"", rfl⟩
  · split
    all_goals trivial

theorem proper_load {place : Variable} (allowed : ∀ slot ∈ place.slots, Allowed slot) (ty : Ty) :
  (Directive.load params ty place).Proper params Allowed
  := by
  cases place with
  | «local» slot => exact ⟨slot.toNat, allowed _ (List.mem_singleton_self _), rfl⟩
  | global index => trivial

theorem proper_store {place : Variable} (allowed : ∀ slot ∈ place.slots, Allowed slot) (ty : Ty) :
  (Directive.store params ty place).Proper params Allowed
  := by
  cases place with
  | «local» slot => exact ⟨slot.toNat, allowed _ (List.mem_singleton_self _), rfl⟩
  | global index => trivial

theorem proper_unary (op : UnaryOp) (ty : Ty) :
  ({ op := Gen.unaryOp op ty } : Directive).Proper params Allowed
  := by
  cases op with
  | minus =>
    unfold Gen.unaryOp
    dsimp only
    split
    all_goals trivial
  | not => trivial

theorem proper_binary (op : BinaryOp) (lhs rhs : Ty) :
  ({ op := Gen.binaryOp op lhs rhs } : Directive).Proper params Allowed
  := Gen.binaryOp_cases op lhs rhs (fun op' => Directive.Proper params Allowed { op := op' })
    (fun _ => ⟨trivial, trivial⟩) (fun _ => ⟨trivial, trivial, trivial⟩)
    ⟨trivial, trivial, trivial⟩ (fun _ => trivial)

end Directive

open Piece Directive

/-! ### Proper code -/

section

variable {Allowed : Nat → Prop}

theorem proper_jump {params : Nat} {op : Op} (conditional : op = .jumpIfTrue ∨ op = .jumpIfFalse)
    (place : Nat) :
  Directive.Proper params Allowed { op, operand := .number place }
  := by
  rcases conditional with rfl | rfl
  all_goals exact ⟨place, rfl⟩

mutual

theorem Expr.proper_piece (site : Site) :
  (e : Expr) → (∀ slot ∈ e.slots, Allowed slot) → (e.piece site).Every (Proper site.params Allowed)
  | .boolean _ _, _ | .null _, _ | .var _ (.global _), _ | .function _ _, _ | .method _ _ _, _
  | .new _ _, _ => trivial
  | .int _ value, _ => proper_int value
  | .double _ value, _ => proper_double value
  | .string _ value, _ => ⟨value, rfl⟩
  | .var m (.local slot), allowed =>
      have inRange : ∀ s ∈ (Variable.local slot).slots, Allowed s := allowed
      proper_load inRange m.ty
  | .assign m target value, allowed => by
      rw [Expr.slots, List.forall_mem_append] at allowed
      exact ⟨⟨value.proper_piece site allowed.2, trivial⟩,
        target.proper_storePiece site m.position allowed.1⟩
  | .binary _ op lhs rhs, allowed => by
      rw [Expr.slots, List.forall_mem_append] at allowed
      rw [Expr.piece]
      split
      · next skip skips =>
          exact ⟨⟨⟨⟨⟨lhs.proper_piece site allowed.1, trivial⟩,
            proper_jump (Gen.shortCut?_eq_some skips)⟩, trivial⟩,
            rhs.proper_piece site allowed.2⟩, trivial⟩
      · exact ⟨⟨lhs.proper_piece site allowed.1, rhs.proper_piece site allowed.2⟩,
          proper_binary op _ _⟩
  | .unary _ op operand, allowed => ⟨operand.proper_piece site allowed, proper_unary op _⟩
  | .call _ callee args, allowed => by
      rw [Expr.slots, List.forall_mem_append] at allowed
      have pushed := Expr.proper_pieces site args allowed.2
      have called := callee.proper_piece site allowed.1
      cases callee with
      | method _ object _ =>
        exact ⟨⟨⟨pushed, object.proper_piece site allowed.1⟩, trivial⟩, trivial⟩
      | _ => exact ⟨⟨pushed, called⟩, trivial⟩
  | .index _ array i, allowed => by
      rw [Expr.slots, List.forall_mem_append] at allowed
      exact ⟨⟨array.proper_piece site allowed.1, i.proper_piece site allowed.2⟩, trivial⟩
  | .field _ object _, allowed => ⟨object.proper_piece site allowed, trivial⟩
  | .newArray _ size, allowed => ⟨size.proper_piece site allowed, trivial⟩
  | .arrayLiteral _ items, allowed => ⟨Expr.proper_pieces site items allowed, rfl⟩
  | .convert _ _ operand, allowed | .downCast _ _ operand, allowed
  | .instanceOf _ _ operand, allowed => ⟨operand.proper_piece site allowed, trivial⟩
  | .arrayLength _ array, allowed => ⟨array.proper_piece site allowed, trivial⟩
  | .stringLength _ text, allowed => ⟨text.proper_piece site allowed, trivial⟩

theorem Expr.proper_pieces (site : Site) :
  (es : List Expr) → (∀ slot ∈ Expr.listSlots es, Allowed slot) →
    (Expr.pieces site es).Every (Proper site.params Allowed)
  | [], _ => trivial
  | e :: rest, allowed => by
      rw [Expr.listSlots, List.forall_mem_append] at allowed
      exact ⟨e.proper_piece site allowed.1, Expr.proper_pieces site rest allowed.2⟩

theorem Expr.proper_storePiece (site : Site) (position : Position) (target : Expr)
    (allowed : ∀ slot ∈ target.slots, Allowed slot) :
  (target.storePiece site position).Every (Proper site.params Allowed)
  := by
  cases target with
  | var m place =>
    cases place with
    | «local» slot =>
      have inRange : ∀ s ∈ (Variable.local slot).slots, Allowed s := allowed
      exact proper_store inRange m.ty
    | global index => trivial
  | index m array i =>
    rw [Expr.slots, List.forall_mem_append] at allowed
    exact ⟨⟨array.proper_piece site allowed.1, i.proper_piece site allowed.2⟩, trivial⟩
  | field m object i => exact ⟨object.proper_piece site allowed, trivial⟩
  | _ => trivial

end

theorem Expr.proper_effectPiece (site : Site) (e : Expr)
    (allowed : ∀ slot ∈ e.slots, Allowed slot) :
  (e.effectPiece site).Every (Proper site.params Allowed)
  := by
  have proper := e.proper_piece site allowed
  cases e with
  | assign m target value =>
    rw [Expr.slots, List.forall_mem_append] at allowed
    exact ⟨value.proper_piece site allowed.2,
      target.proper_storePiece site m.position allowed.1⟩
  | _ => exact ⟨proper, trivial⟩

theorem proper_optionalEffectPiece (site : Site) (e : Option Expr)
    (allowed : ∀ slot ∈ Expr.optionSlots e, Allowed slot) :
  (optionalEffectPiece site e).Every (Proper site.params Allowed)
  := by
  cases e with
  | none => trivial
  | some e => exact e.proper_effectPiece site allowed

theorem proper_loopConditionPiece (site : Site) (condition : Option Expr)
    (allowed : ∀ slot ∈ Expr.optionSlots condition, Allowed slot) :
  (loopConditionPiece site condition).Every (Proper site.params Allowed)
  := by
  cases condition with
  | none => trivial
  | some condition => exact ⟨condition.proper_piece site allowed, proper_jump (.inr rfl)⟩

theorem proper_returnPiece (site : Site) (position : Position) (value : Option Expr)
    (allowed : ∀ slot ∈ Expr.optionSlots value, Allowed slot) :
  (returnPiece site position value).Every (Proper site.params Allowed)
  := by
  cases value with
  | none => exact ⟨proper_default _, trivial⟩
  | some value => exact ⟨value.proper_piece site allowed, trivial⟩

@[simp] theorem Site.enter_params (line : UInt32) (site : Site) :
  (site.enter line).params = site.params
  := by
  unfold Site.enter
  split
  all_goals rfl

mutual

theorem Stmt.proper_piece (site : Site) (inLoop : Bool) :
  (s : Stmt) → (∀ slot ∈ s.slots, Allowed slot) →
    (s.piece site inLoop).Every (Proper site.params Allowed)
  | .expression p e, allowed => by
      rw [← site.enter_params p.line]
      exact e.proper_effectPiece _ allowed
  | .declaration _ _ _ none, _ => trivial
  | .declaration p place ty (some initial), allowed => by
      rw [Stmt.slots, List.forall_mem_append] at allowed
      rw [← site.enter_params p.line]
      exact ⟨initial.proper_piece _ allowed.2, proper_store allowed.1 ty⟩
  | .branch p condition thenBlock elifs elseBlock, allowed => by
      simp only [Stmt.slots, List.forall_mem_append] at allowed
      obtain ⟨⟨⟨inCondition, inThen⟩, inElifs⟩, inElse⟩ := allowed
      rw [← site.enter_params p.line]
      exact ⟨⟨⟨⟨⟨condition.proper_piece _ inCondition, proper_jump (.inr rfl)⟩,
        Stmt.proper_pieces _ inLoop thenBlock inThen⟩, fun place => ⟨place, rfl⟩⟩,
        Elif.proper_pieces _ inLoop elifs inElifs,
        Stmt.proper_elsePiece _ inLoop elseBlock inElse⟩, trivial⟩
  | .loop p init condition post body, allowed => by
      simp only [Stmt.slots, List.forall_mem_append] at allowed
      obtain ⟨⟨⟨inInit, inCondition⟩, inPost⟩, inBody⟩ := allowed
      rw [← site.enter_params p.line]
      exact ⟨proper_optionalEffectPiece _ init inInit, trivial,
        ⟨⟨proper_loopConditionPiece _ condition inCondition,
          Stmt.proper_pieces _ true body inBody⟩,
          proper_optionalEffectPiece _ post inPost, fun place => ⟨place, rfl⟩⟩, trivial⟩
  | .ret p value, allowed => by
      rw [← site.enter_params p.line]
      exact proper_returnPiece _ p value allowed
  | .break_ _, _ | .continue_ _, _ => by
      rw [Stmt.piece]
      split
      · exact fun place => ⟨place, rfl⟩
      · trivial
  | .block p statements, allowed => by
      rw [← site.enter_params p.line]
      exact Stmt.proper_pieces _ inLoop statements allowed

theorem Stmt.proper_pieces (site : Site) (inLoop : Bool) :
  (ss : List Stmt) → (∀ slot ∈ Stmt.listSlots ss, Allowed slot) →
    (Stmt.pieces site inLoop ss).Every (Proper site.params Allowed)
  | [], _ => trivial
  | s :: rest, allowed => by
      rw [Stmt.listSlots, List.forall_mem_append] at allowed
      exact ⟨s.proper_piece site inLoop allowed.1, Stmt.proper_pieces site inLoop rest allowed.2⟩

theorem Elif.proper_pieces (site : Site) (inLoop : Bool) :
  (elifs : List Elif) → (∀ slot ∈ Elif.slots elifs, Allowed slot) →
    (Elif.pieces site inLoop elifs).Every (Proper site.params Allowed)
  | [], _ => trivial
  | .mk condition body :: rest, allowed => by
      simp only [Elif.slots, List.forall_mem_append] at allowed
      obtain ⟨⟨inCondition, inBody⟩, inRest⟩ := allowed
      exact ⟨⟨⟨⟨condition.proper_piece site inCondition, proper_jump (.inr rfl)⟩,
        Stmt.proper_pieces site inLoop body inBody⟩, fun place => ⟨place, rfl⟩⟩,
        Elif.proper_pieces site inLoop rest inRest⟩

theorem Stmt.proper_elsePiece (site : Site) (inLoop : Bool) :
  (body : Option (List Stmt)) → (∀ slot ∈ Stmt.elseSlots body, Allowed slot) →
    (Stmt.elsePiece site inLoop body).Every (Proper site.params Allowed)
  | none, _ => trivial
  | some body, allowed => Stmt.proper_pieces site inLoop body allowed

end

end

/-- The numbers of parameters and locals of a function of the table; the top level has none. -/
def Program.frame (p : Program) : Option Nat → Nat × Nat
  | none => (0, 0)
  | some index =>
    ((p.functions[index]?).map fun f => (f.params.length, f.locals.length)).getD (0, 0)

theorem CompiledFrom.frame_eq {p : Program} {exe : Executable} (compiled : CompiledFrom p exe)
    {index : Nat} {f : Function} (found : exe.functions[index]? = some f) :
  p.frame (some index) = (f.params.length, f.locals.length)
  := by
  obtain ⟨decl, declared, fromDecl⟩ := compiled.function_of_getElem? found
  simp [Program.frame, declared, fromDecl.params, fromDecl.locals]

theorem Directive.Proper.of_frameless {params params' : Nat} {Allowed Allowed' : Nat → Prop}
    {i : Directive} (proper : i.Proper params Allowed) (frameless : i.op.isFramed = false) :
  i.Proper params' Allowed'
  := by
  unfold Directive.Proper at proper ⊢
  split
  · next op => simpa only [op] using proper
  · next op => simpa only [op] using proper
  · next op => simpa only [op] using proper
  · next op => simp [op, Op.isFramed] at frameless
  · next op => simp [op, Op.isFramed] at frameless
  · next op => simpa only [op] using proper
  · next op => simpa only [op] using proper
  · next op => simpa only [op] using proper
  · next op => simpa only [op] using proper
  · trivial

/-- Every instruction of a program has the operand that it needs, if the slots used by its code are
allowed. -/
theorem Program.proper_of_mem_points {p : Program} {Allowed : Nat → Prop} {current : Option Nat}
    (allowed : ∀ index f body, current = some index → p.functions[index]? = some f →
      f.body = some body → ∀ slot ∈ Stmt.listSlots body, Allowed slot)
    (topLevel : current = none → ∀ slot ∈ Stmt.listSlots p.statements, Allowed slot)
    {point : Point} (listed : point ∈ p.points current) :
  point.toDirective.Proper (p.frame current).1 Allowed
  := by
  refine Piece.Every.of_mem_points (q := p.piece current) ?_ listed
  cases current with
  | none => exact Stmt.proper_pieces ⟨0, .void, 0⟩ false p.statements (topLevel rfl)
  | some index =>
    cases found : p.functions[index]? with
    | none => simp [Program.piece, found, Piece.Every]
    | some f =>
      cases bodied : f.body with
      | none => simp [Program.piece, found, bodied, Piece.Every]
      | some body =>
        simp only [Program.piece, Program.frame, found, bodied, Option.map_some,
          Option.getD_some]
        refine ⟨Stmt.proper_pieces f.site false body ?_, ?_⟩
        · apply allowed index f body rfl found bodied
        · split
          · trivial
          · apply proper_returnPiece f.site f.position none (by simp [Expr.optionSlots])

/-- Every instruction of a compiled program whose slots are in range addresses only slots of its
frame. -/
theorem CompiledFrom.proper {p : Program} {exe : Executable} (compiled : CompiledFrom p exe)
    (inRange : p.SlotsInRange) {current : Option Nat} {point : Point}
    (listed : point ∈ p.points current) :
  point.toDirective.Proper (p.frame current).1
    (fun slot => slot < (p.frame current).1 + (p.frame current).2)
  := by
  cases current with
  | none =>
    have proper : point.toDirective.Proper (p.frame none).1 fun _ => True :=
      Program.proper_of_mem_points nofun (fun _ _ _ => trivial) listed
    exact proper.of_frameless (compiled.frameless.of_mem_points listed)
  | some index =>
    apply Program.proper_of_mem_points _ nofun listed
    rintro _ f body same found bodied slot used
    cases same
    simp only [Program.frame, found, Option.map_some, Option.getD_some]
    apply inRange f (List.mem_of_getElem? found) body bodied slot used

end Bytecode
