import Mathlib
import Bytecode.Executable.Basic
import Bytecode.Proofs.Code.Decoding

/-!
# Structured code

A `Piece` is code whose jumps go to named places, its aims. It is put together from single
directives by sequencing and by giving a name to the place between two pieces. `Piece.points`
lays a piece out: it says which instruction stands where, and how many operands the frame has
on the stack before it.

A piece is `Typed` when these numbers are right however control flows: an instruction finds as
many operands as it takes, and wherever it may go on, the number of operands is the one planned
there.
-/

namespace Bytecode

/-- What the operand of an instruction stands for. -/
inductive Operand where
  | none
  | number (value : Int)
  /-- The index of a constant. -/
  | constant (c : Constant)

namespace Operand

/-- An operand as it is encoded stands for the operand that was meant. -/
def Denotes (constants : Array Constant) : Operand → Option UInt16 → Prop
  | .none, encoded => encoded = Option.none
  | .number value, encoded =>
    encoded = some (operandWord value) ∧ -32768 ≤ value ∧ value < 65536
  | .constant c, encoded => ∃ index, encoded = some index ∧ constants[index.toNat]? = some c

theorem Denotes.number_eq {constants : Array Constant} {operand : Operand} {word : Option UInt16}
    {n : Nat} (denotes : operand.Denotes constants word) (number : operand = .number n) :
  (word.getD 0).toNat = n
  := by
  subst number
  obtain ⟨rfl, -, small⟩ := denotes
  exact toNat_operandWord_natCast (by omega)

end Operand

/-! ### How many operands an instruction takes and leaves -/

/-- The operands that an instruction takes from the stack. Calls take the index of the function
and as many arguments as given, array literals as many values. -/
def Op.takes (args : Nat) : Op → Nat
  | .pushInt1Byte | .pushInt2Byte | .pushInt | .pushDouble0 | .pushDouble1 | .pushDouble
  | .pushString | .pushNull | .pushStack _ | .pushStatic _ | .pushFunction | .new | .jump => 0
  | .arithInt _ | .arithDouble _ | .addString | .compareInt _ | .compareDouble _
  | .compareString _ | .eqObject | .neObject | .pushArray _ | .popField _ => 2
  | .popArray _ => 3
  | .invoke => args + 1
  | .newArrayLiteral _ => args
  | _ => 1

/-- The values that an instruction leaves in place of the operands. -/
def Op.leaves : Op → Nat
  | .popStack _ | .popStatic _ | .popArray _ | .popField _ | .pop | .jump | .jumpIfTrue
  | .jumpIfFalse | .ret => 0
  | .duplicate | .pushMethod => 2
  | _ => 1

/-- The instruction needs the frame of a function. -/
def Op.isFramed : Op → Bool
  | .pushStack _ | .popStack _ | .ret => true
  | _ => false

theorem Op.isFramed_eq_false_of_isJump {op : Op} (jump : op.isJump) :
  op.isFramed = false
  := by
  cases op with
  | jump | jumpIfTrue | jumpIfFalse => rfl
  | _ => cases jump

/-- An instruction with what it operates on. -/
structure Directive where
  op : Op
  operand : Operand := .none
  /-- The arguments of a call, or the items of an array literal. -/
  args : Nat := 0

namespace Directive

def takes (i : Directive) : Nat := i.op.takes i.args

def leaves (i : Directive) : Nat := i.op.leaves

end Directive

/-- A directive that has its place in the code. -/
structure Point extends Directive where
  pc : Nat
  /-- The operands of the frame on the stack before the instruction. -/
  depth : Nat
  line : UInt32

namespace Point

/-- The place after the instruction. -/
def next (p : Point) : Nat := p.pc + p.op.size

/-- The place to which a jump goes. -/
def target (p : Point) : Nat :=
  match p.operand with
  | .number value => value.toNat
  | _ => 0

/-- Where control may be after the instruction, and with how many operands. A call is taken as a
whole, up to its return. -/
def successors (p : Point) : List (Nat × Nat) :=
  match p.op with
  | .jump => [(p.target, p.depth)]
  | .jumpIfTrue | .jumpIfFalse => [(p.target, p.depth - 1), (p.next, p.depth - 1)]
  | .ret => []
  | _ => [(p.next, p.depth - p.takes + p.leaves)]

/-- An instruction that neither jumps nor returns goes on behind itself. -/
theorem successors_of_plain {p : Point} (noJump : p.op.isJump = false) (noReturn : p.op ≠ .ret) :
  p.successors = [(p.next, p.depth - p.takes + p.leaves)]
  := by
  unfold successors
  split
  · simp_all [Op.isJump]
  · simp_all [Op.isJump]
  · simp_all [Op.isJump]
  · contradiction
  · rfl

/-- Control goes on with what the instruction leaves in place of its operands. -/
theorem depth_of_successor (p : Point) {s : Nat × Nat} (successor : s ∈ p.successors) :
  s.2 = p.depth - p.takes + p.leaves
  := by
  unfold successors at successor
  unfold Directive.takes Directive.leaves
  split at successor
  all_goals simp_all [Op.takes, Op.leaves, Directive.takes, Directive.leaves]
  all_goals
    rcases successor with rfl | rfl
    all_goals rfl

/-- A decoded instruction is the one planned. -/
def Encodes (constants : Array Constant) (lines : Array LineRun) (p : Point) (i : Instruction) :
    Prop :=
  i.pc = p.pc ∧ i.op = p.op ∧ p.operand.Denotes constants i.operand
    ∧ lineAt lines p.pc = some p.line

end Point

/-! ### Pieces -/

/-- The places that the jumps of a construct go to. -/
inductive Aim where
  | top
  | next
  | done
  | break_
  | continue_
  deriving DecidableEq

/-- Code with named places. -/
inductive Piece where
  | empty
  | one (line : UInt32) (directive : Directive)
  | jump (line : UInt32) (op : Op) (aim : Aim)
  /-- One piece after another, which starts with so many operands more. -/
  | seq (first : Piece) (rise : Nat) (second : Piece)
  /-- As `seq`; the aim is the place between the two. -/
  | mark (aim : Aim) (first : Piece) (rise : Nat) (second : Piece)

namespace Piece

/-- The number of bytes. -/
def size : Piece → Nat
  | .empty => 0
  | .one _ directive => directive.op.size
  | .jump _ op _ => op.size
  | .seq first _ second | .mark _ first _ second => first.size + second.size

/-- The number of bytes of the jumps. -/
def jumpSize : Piece → Nat
  | .empty | .one _ _ => 0
  | .jump _ op _ => op.size
  | .seq first _ second | .mark _ first _ second => first.jumpSize + second.jumpSize

theorem jumpSize_le_size (q : Piece) :
  q.jumpSize ≤ q.size
  := by
  induction q with
  | empty | jump line op aim => exact Nat.le_refl _
  | one line directive => exact Nat.zero_le _
  | seq first rise second ihFirst ihSecond | mark aim first rise second ihFirst ihSecond =>
    exact Nat.add_le_add ihFirst ihSecond

/-- The instructions of a piece that starts at a given place with a given number of operands. -/
def points (aims : Aim → Nat) (pc depth : Nat) : Piece → List Point
  | .empty => []
  | .one line directive => [{ directive with pc, depth, line }]
  | .jump line op aim => [{ op, operand := .number (aims aim), pc, depth, line }]
  | .seq first rise second =>
    first.points aims pc depth ++ second.points aims (pc + first.size) (depth + rise)
  | .mark aim first rise second =>
    let aims := Function.update aims aim (pc + first.size)
    first.points aims pc depth ++ second.points aims (pc + first.size) (depth + rise)

/-- The instructions of a piece lie within its bytes. -/
theorem bounds_of_mem_points {q : Piece} {aims : Aim → Nat} {pc depth : Nat} {p : Point}
    (listed : p ∈ q.points aims pc depth) :
  pc ≤ p.pc ∧ p.next ≤ pc + q.size
  := by
  induction q generalizing aims pc depth with
  | empty => simp [points] at listed
  | one line directive | jump line op aim =>
    obtain rfl := List.mem_singleton.1 listed
    exact ⟨Nat.le_refl _, Nat.le_refl _⟩
  | seq first rise second ihFirst ihSecond | mark aim first rise second ihFirst ihSecond =>
    unfold size
    rcases List.mem_append.1 listed with left | right
    · have bounds := ihFirst left
      omega
    · have bounds := ihSecond right
      omega

/-- All instructions of a piece satisfy a condition. A jump must do so wherever it goes. -/
def Every (P : Directive → Prop) : Piece → Prop
  | .empty => True
  | .one _ directive => P directive
  | .jump _ op _ => ∀ place : Nat, P { op, operand := .number place }
  | .seq first _ second | .mark _ first _ second => first.Every P ∧ second.Every P

theorem Every.of_mem_points {P : Directive → Prop} {q : Piece} (every : q.Every P)
    {aims : Aim → Nat} {pc depth : Nat} {p : Point} (listed : p ∈ q.points aims pc depth) :
  P p.toDirective
  := by
  induction q generalizing aims pc depth with
  | empty => simp [points] at listed
  | one line directive =>
    obtain rfl := List.mem_singleton.1 listed
    exact every
  | jump line op aim =>
    obtain rfl := List.mem_singleton.1 listed
    exact every _
  | seq first rise second ihFirst ihSecond | mark aim first rise second ihFirst ihSecond =>
    rcases List.mem_append.1 listed with left | right
    · exact ihFirst every.1 left
    · exact ihSecond every.2 right

/-- Control can pass through the piece with the numbers of operands that are planned. Given are
the number of operands at the start, at the aims of jumps out of the piece, and at the end, if
that can be reached. -/
inductive Typed : (Aim → Option Nat) → Nat → Piece → Option Nat → Prop
  | empty {aims : Aim → Option Nat} {depth : Nat} : Typed aims depth .empty (some depth)
  | one {aims : Aim → Option Nat} {depth : Nat} {line : UInt32} {directive : Directive} :
      directive.op.isJump = false → directive.op ≠ .ret → directive.takes ≤ depth →
      Typed aims depth (.one line directive) (some (depth - directive.takes + directive.leaves))
  /-- A frame is left with the result as its only operand. -/
  | ret {aims : Aim → Option Nat} {line : UInt32} : Typed aims 1 (.one line { op := .ret }) none
  | jump {aims : Aim → Option Nat} {depth : Nat} {line : UInt32} {aim : Aim} :
      aims aim = some depth → Typed aims depth (.jump line .jump aim) none
  | jumpIf {aims : Aim → Option Nat} {depth : Nat} {line : UInt32} {op : Op} {aim : Aim} :
      op = .jumpIfTrue ∨ op = .jumpIfFalse → aims aim = some depth →
      Typed aims (depth + 1) (.jump line op aim) (some depth)
  | seq {aims : Aim → Option Nat} {depth rise : Nat} {first second : Piece} {stop : Option Nat} :
      Typed aims depth first (some (depth + rise)) → Typed aims (depth + rise) second stop →
      Typed aims depth (.seq first rise second) stop
  | mark {aims : Aim → Option Nat} {depth rise : Nat} {aim : Aim} {first second : Piece}
      {stop : Option Nat} :
      Typed (Function.update aims aim (some (depth + rise))) depth first (some (depth + rise)) →
      Typed (Function.update aims aim (some (depth + rise))) (depth + rise) second stop →
      Typed aims depth (.mark aim first rise second) stop
  /-- There is nothing behind an end that cannot be reached. -/
  | unentered {aims : Aim → Option Nat} {depth rise : Nat} {first : Piece} :
      Typed aims depth first none → Typed aims depth (.seq first rise .empty) none
  /-- An end that cannot be reached can have any number of operands. -/
  | unreached {aims : Aim → Option Nat} {depth stop : Nat} {q : Piece} :
      Typed aims depth q none → Typed aims depth q (some stop)

end Piece

/-! ### Control flow -/

/-- There is an instruction at the place, with so many operands. -/
def Lands (ps : List Point) (pc depth : Nat) : Prop := ∃ p ∈ ps, p.pc = pc ∧ p.depth = depth

/-- Every instruction finds its operands and goes on at another one, or at an exit, with the
number of operands that is planned there. -/
def Flows (ps : List Point) (exits : Nat → Nat → Prop) : Prop :=
  ∀ p ∈ ps, p.takes ≤ p.depth
    ∧ ∀ s ∈ p.successors, Lands ps s.1 s.2 ∨ exits s.1 s.2

theorem Flows.mono {ps : List Point} {exits exits' : Nat → Nat → Prop} (flows : Flows ps exits)
    (more : ∀ pc depth, exits pc depth → exits' pc depth) :
  Flows ps exits'
  := by
  intro p listed
  obtain ⟨enough, goes⟩ := flows p listed
  refine ⟨enough, ?_⟩
  intro s successor
  exact (goes s successor).imp_right (more _ _)

namespace Piece

variable {depths : Aim → Option Nat} {q : Piece} {stop : Option Nat} {depth : Nat}

/-- The exits of a piece: its end, and the aims of its jumps. -/
def Exits (depths : Aim → Option Nat) (aims : Aim → Nat) (stop : Nat) (stopDepth : Option Nat)
    (pc depth : Nat) : Prop :=
  (pc = stop ∧ stopDepth = some depth) ∨ ∃ aim, depths aim = some depth ∧ pc = aims aim

/-- The instructions of a piece depend only on the aims of the jumps out of it. -/
theorem Typed.points_congr {start : Nat} (typed : Typed depths start q stop)
    {aims aims' : Aim → Nat} (same : ∀ aim, (depths aim).isSome → aims aim = aims' aim)
    (pc depth : Nat) :
  q.points aims pc depth = q.points aims' pc depth
  := by
  induction typed generalizing aims aims' pc depth with
  | empty | one | ret => rfl
  | @jump depths depth line aim there | @jumpIf depths depth line op aim _ there =>
    simp [points, same aim (by simp [there])]
  | seq _ _ ihFirst ihSecond => rw [points, points, ihFirst same, ihSecond same]
  | @mark depths start rise aim first second stop _ _ ihFirst ihSecond =>
    have agree : ∀ a, (Function.update depths aim (some (start + rise)) a).isSome →
        Function.update aims aim (pc + first.size) a
          = Function.update aims' aim (pc + first.size) a := by
      intro a named
      by_cases here : a = aim
      · subst here
        simp
      · rw [Function.update_of_ne here] at named ⊢
        rw [Function.update_of_ne here, same a named]
    simp only [points]
    rw [ihFirst agree, ihSecond agree]
  | unentered _ ih => rw [points, points, ih same, points, points]
  | unreached _ ih => exact ih same pc depth

/-- A return finds the result and nothing else. -/
theorem Typed.depth_of_ret {start : Nat} (typed : Typed depths start q stop) {aims : Aim → Nat}
    {pc : Nat} {p : Point} (listed : p ∈ q.points aims pc start) (returns : p.op = .ret) :
  p.depth = 1
  := by
  induction typed generalizing aims pc with
  | empty => simp [points] at listed
  | one _ noReturn _ =>
    obtain rfl := List.mem_singleton.1 listed
    exact absurd returns noReturn
  | ret =>
    obtain rfl := List.mem_singleton.1 listed
    rfl
  | jump =>
    obtain rfl := List.mem_singleton.1 listed
    cases returns
  | jumpIf conditional =>
    obtain rfl := List.mem_singleton.1 listed
    rcases conditional with rfl | rfl
    all_goals cases returns
  | seq _ _ ihFirst ihSecond | mark _ _ ihFirst ihSecond =>
    rcases List.mem_append.1 listed with left | right
    · apply ihFirst left
    · apply ihSecond right
  | unentered _ ih =>
    rw [points, points, List.append_nil] at listed
    apply ih listed
  | unreached _ ih => apply ih listed

end Piece

end Bytecode
