import Mathlib
import Bytecode.Proofs.Generate.Slots
import Bytecode.Proofs.Machine.Operands

/-!
# Closed code

The code of a compiled program is `CodeBlock.Closed`: it decodes as a whole, its jumps go to
instructions of the same code, its constants are there, and the code of a function ends with a
return. The code of the top level may also be left at its end.
-/

namespace Bytecode

/-- Control can be followed through the code. Functions may be left only by a return, the top
level also at its end. -/
structure CodeBlock.Closed (constants : Array Constant) (isFunction : Bool) (block : CodeBlock) :
    Prop where
  error : (decode block.code).error = none
  walk : Walk block.code 0 block.code.size (decode block.code).instructions
  jump : ∀ i ∈ (decode block.code).instructions, i.op.isJump →
    (∃ j ∈ (decode block.code).instructions, j.pc = i.number)
      ∨ isFunction = false ∧ i.number = block.code.size
  last : isFunction → ((decode block.code).instructions.getLast?).map (·.op) = some .ret
  int : ∀ i ∈ (decode block.code).instructions, i.op = .pushInt →
    ∃ value, constants[i.number]? = some (.int value)
  double : ∀ i ∈ (decode block.code).instructions, i.op = .pushDouble →
    ∃ value, constants[i.number]? = some (.double value)
  string : ∀ i ∈ (decode block.code).instructions, i.op = .pushString →
    ∃ value, constants[i.number]? = some (.string value)

section

variable {constants : Array Constant} {lines : Array LineRun} {point : Point} {i : Instruction}

theorem Point.Encodes.number_eq (encodes : point.Encodes constants lines i) {n : Nat}
    (operand : point.operand = .number n) :
  i.number = n
  := encodes.2.2.1.number_eq operand

theorem Point.Encodes.constant_eq (encodes : point.Encodes constants lines i) {c : Constant}
    (operand : point.operand = .constant c) :
  constants[i.number]? = some c
  := by
  obtain ⟨-, -, denotes, -⟩ := encodes
  rw [operand] at denotes
  obtain ⟨index, encoded, found⟩ := denotes
  rw [Instruction.number, encoded]
  apply found

/-- The operand of a jump is the place to which it goes. -/
theorem Point.Encodes.target_eq (encodes : point.Encodes constants lines i) {params : Nat}
    {Allowed : Nat → Prop} (proper : point.toDirective.Proper params Allowed)
    (jump : point.op.isJump) :
  point.target = i.number
  := by
  obtain ⟨place, number⟩ : ∃ place : Nat, point.operand = .number place := by
    unfold Directive.Proper at proper
    cases op : point.op with
    | jump | jumpIfTrue | jumpIfFalse => simpa only [op] using proper
    | _ =>
      rw [op] at jump
      cases jump
  rw [target, number, encodes.number_eq number]
  rfl

/-- A jump has its target among the places where control may go on. -/
theorem Point.target_mem_successors (jump : point.op.isJump) :
  ∃ depth, (point.target, depth) ∈ point.successors
  := by
  unfold successors
  cases op : point.op with
  | jump => exact ⟨_, List.mem_singleton_self _⟩
  | jumpIfTrue | jumpIfFalse => exact ⟨_, List.mem_cons_self⟩
  | _ =>
    rw [op] at jump
    cases jump

end

theorem getLast?_points_returnPiece (site : Site) (position : Position) (value : Option Expr)
    (aims : Aim → Nat) (pc depth : Nat) :
  (((returnPiece site position value).points aims pc depth).getLast?).map (·.op) = some .ret
  := by
  simp [returnPiece, Piece.points, Site.one]

/-- The last instruction of statements of which the last one returns. -/
theorem Stmt.getLast?_points_of_return (site : Site) (inLoop : Bool) {ss : List Stmt}
    (returns : (ss.getLast?.map Stmt.isReturn).getD false) (aims : Aim → Nat) (pc depth : Nat) :
  (((Stmt.pieces site inLoop ss).points aims pc depth).getLast?).map (·.op) = some .ret
  := by
  induction ss generalizing pc depth with
  | nil => cases returns
  | cons s rest ih =>
    cases rest with
    | nil =>
      cases s with
      | ret p value =>
        simp only [Stmt.pieces, Stmt.piece, Piece.points, List.append_nil]
        apply getLast?_points_returnPiece
      | _ => cases returns
    | cons s' rest =>
      have later := ih (by simpa using returns) (pc + (s.piece site inLoop).size) (depth + 0)
      rw [Stmt.pieces, Piece.points, List.getLast?_append]
      cases ends : ((Stmt.pieces site inLoop (s' :: rest)).points aims
          (pc + (s.piece site inLoop).size) (depth + 0)).getLast? with
      | none =>
        rw [ends] at later
        cases later
      | some point =>
        rw [ends] at later
        apply later

theorem FunctionDecl.getLast?_points (f : FunctionDecl) (body : Block) :
  (((f.piece body).points (fun _ => 0) 0 0).getLast?).map (·.op) = some .ret
  := by
  unfold FunctionDecl.piece
  split
  · next returns =>
      simp only [Piece.points, List.append_nil]
      apply Stmt.getLast?_points_of_return _ _ returns
  · have last := getLast?_points_returnPiece f.site f.position none (fun _ => 0)
      (0 + (Stmt.pieces f.site false body).size) (0 + 0)
    rw [Piece.points, List.getLast?_append]
    cases ends : ((returnPiece f.site f.position none).points (fun _ => 0)
        (0 + (Stmt.pieces f.site false body).size) (0 + 0)).getLast? with
    | none =>
      rw [ends] at last
      cases last
    | some point =>
      rw [ends] at last
      apply last

/-- Lists that correspond have corresponding last members. -/
theorem getLast?_of_forall₂ {α β : Type} {r : α → β → Prop} {as : List α} {bs : List β}
    (related : List.Forall₂ r as bs) {a : α} (last : as.getLast? = some a) :
  ∃ b, bs.getLast? = some b ∧ r a b
  := by
  rw [List.getLast?_eq_getElem?] at last
  obtain ⟨b, found, corresponds⟩ := exists_of_forall₂_getElem? related.flip last
  refine ⟨b, ?_, corresponds⟩
  rw [List.getLast?_eq_getElem?, ← related.length_eq, found]

namespace CompiledFrom

variable {p : Program} {exe : Executable} {current : Option Nat} {block : CodeBlock}

/-- Every instruction that the code decodes to was planned. -/
theorem exists_point (compiled : CompiledFrom p exe) (coded : exe.code? current = some block)
    {i : Instruction} (decoded : i ∈ (decode block.code).instructions) :
  ∃ point ∈ p.points current, point.Encodes exe.constants block.lines i
  := by
  obtain ⟨is, walk, related⟩ := (compiled.encodes coded).walk
  rw [decode_eq_of_walk walk] at decoded
  obtain ⟨k, found⟩ := List.mem_iff_getElem?.1 decoded
  obtain ⟨point, planned, encodes⟩ := exists_of_forall₂_getElem? related found
  exact ⟨point, List.mem_of_getElem? planned, encodes⟩

/-- The code of every function and of the top level is closed. -/
theorem closed (compiled : CompiledFrom p exe) (coded : exe.code? current = some block) :
  block.Closed exe.constants current.isSome
  := by
  have encodes := compiled.encodes coded
  obtain ⟨is, walk, related⟩ := encodes.walk
  have decoded := decode_eq_of_walk walk
  have proper {i : Instruction} (listed : i ∈ (decode block.code).instructions) :
      ∃ point ∈ p.points current, point.Encodes exe.constants block.lines i
        ∧ point.toDirective.Proper (p.frame current).1 fun _ => True := by
    obtain ⟨point, planned, encoded⟩ := compiled.exists_point coded listed
    refine ⟨point, planned, encoded, Program.proper_of_mem_points ?_ ?_ planned⟩
    · exact fun _ _ _ _ _ _ _ _ => trivial
    · exact fun _ _ _ => trivial
  constructor
  case error => rw [decoded]
  case walk =>
    rw [decoded]
    exact walk
  case jump =>
    intro i listed jump
    obtain ⟨point, planned, encoded, operand⟩ := proper listed
    rw [encoded.2.1] at jump
    obtain ⟨depth, successor⟩ := Point.target_mem_successors jump
    rw [encoded.target_eq operand jump] at successor
    rcases (p.flows_points current point planned).2 _ successor with lands | ⟨top, size, -⟩
    · obtain ⟨point', planned', pc, -⟩ := lands
      obtain ⟨j, listed', encoded', -⟩ := encodes.exists_decoded planned'
      exact .inl ⟨j, listed', encoded'.1.trans pc⟩
    · exact .inr ⟨by rw [top]; rfl, by rw [encodes.size_eq]; exact size⟩
  case last =>
    intro isFunction
    obtain ⟨index, rfl⟩ := Option.isSome_iff_exists.1 isFunction
    obtain ⟨g, isIn, hasCode⟩ := Option.bind_eq_some_iff.1 coded
    obtain ⟨f, body, declared, bodied, -⟩ :=
      compiled.exists_body isIn (by simp [Function.isNative, hasCode])
    have piece : p.piece (some index) = f.piece body := by
      simp [Program.piece, declared, bodied]
    obtain ⟨point, last, returns⟩ := Option.map_eq_some_iff.1 (f.getLast?_points body)
    rw [piece] at related
    obtain ⟨i, last', encoded⟩ := getLast?_of_forall₂ related last
    rw [decoded, last', Option.map_some, encoded.2.1, returns]
  case int | double | string =>
    intro i listed op
    obtain ⟨point, -, encoded, operand⟩ := proper listed
    rw [Directive.Proper, ← encoded.2.1, op] at operand
    obtain ⟨value, constant⟩ := operand
    exact ⟨value, encoded.constant_eq constant⟩

end CompiledFrom

end Bytecode
